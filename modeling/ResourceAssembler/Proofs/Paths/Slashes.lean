import Mathlib.Data.List.DropRight
import ResourceAssembler.Proofs.Paths.Denotation

/-!
# Slashes in a row

Slashes at the end of a path are no part of what is kept of it. Inside a path, several
slashes in a row denote the same as one. Whatever does not tell two slashes from one does not
tell any number of them from one.
-/

namespace ResourceAssembler.Paths

/-- So many slashes in a row. -/
def slashes (count : Nat) : String :=
  String.ofList (List.replicate count '/')

theorem slashes_succ (count : Nat) : slashes (count + 1) = slashes count ++ "/" := by
  apply String.toList_inj.mp
  simp [slashes, List.replicate_succ']

theorem utf8ByteSize_slashes (count : Nat) : (slashes count).utf8ByteSize = count := by
  induction count with
  | zero => rfl
  | succ count ih =>
      rw [slashes_succ, String.utf8ByteSize_append, ih]
      rfl

/-! ## Slashes inside -/

theorem append_two_slashes (front back : String) :
    front ++ "//" ++ back = front ++ "/" ++ "/" ++ back := by
  apply String.toList_inj.mp
  simp

/-- What takes two slashes for one, in all paths shorter than a bound, takes any
number of them for one there. -/
theorem eq_of_merges {α : Type} {f : String → α} {bound : Nat}
    (merges : ∀ front back, (front ++ "//" ++ back).utf8ByteSize < bound →
      f (front ++ "//" ++ back) = f (front ++ "/" ++ back)) (front back : String) (count : Nat)
    (short : (front ++ slashes count ++ "/" ++ back).utf8ByteSize < bound) :
    f (front ++ slashes count ++ "/" ++ back) = f (front ++ "/" ++ back) := by
  induction count with
  | zero =>
      have hnone : front ++ slashes 0 = front := String.append_empty
      rw [hnone]
  | succ count ih =>
      have htwo : front ++ slashes (count + 1) ++ "/" ++ back =
          front ++ slashes count ++ "//" ++ back := by
        rw [slashes_succ, ← String.append_assoc, append_two_slashes]
      have hshorter : (front ++ slashes count ++ "/" ++ back).utf8ByteSize < bound := by
        simp only [String.utf8ByteSize_append, utf8ByteSize_slashes] at short ⊢
        omega
      rw [htwo] at short ⊢
      rw [merges _ _ short, ih hshorter]

/-- Two slashes denote what one does. -/
theorem denoted_merges (front back : String) :
    denoted (front ++ "//" ++ back) = denoted (front ++ "/" ++ back) := by
  have hstart : isAbsolute (front ++ "/" ++ "/" ++ back) = isAbsolute (front ++ "/" ++ back) := by
    simp [isAbsolute_append]
  rw [append_two_slashes, denoted, denoted, hstart, segments_append_slash_append,
    segments_append_slash, segments_append_slash_append]

/-- So do any number of slashes. -/
theorem denoted_slashes (front back : String) (count : Nat) :
    denoted (front ++ slashes count ++ "/" ++ back) = denoted (front ++ "/" ++ back) :=
  eq_of_merges (fun front back _ => denoted_merges front back) front back count
    (Nat.lt_succ_self _)

/-- At the end of a path, several slashes denote what one does. -/
theorem denoted_append_slashes (path : String) (count : Nat) :
    denoted (path ++ slashes (count + 1)) = denoted (path ++ "/") := by
  have hone := denoted_slashes path "" count
  rwa [String.append_empty, String.append_empty, String.append_assoc, ← slashes_succ] at hone

/-- Whether a path ends in a slash is told from its last slash on. -/
theorem endsWithSlash_append_slash_append (front back : String) :
    endsWithSlash (front ++ "/" ++ back) = endsWithSlash ("/" ++ back) := by
  simp [endsWithSlash, List.getLast?_append, List.getLast?_cons]

/-- What is joined to a path stands behind the part in front of a slash. -/
theorem join_append_slash_append {path : String} (h : isAbsolute path = false)
    (front back : String) :
    join (front ++ "/" ++ back) path =
      front ++ "/" ++
        if endsWithSlash ("/" ++ back) then back ++ path else back ++ "/" ++ path := by
  unfold join
  rw [h, endsWithSlash_append_slash_append]
  cases endsWithSlash ("/" ++ back) with
  | true => simp [String.append_assoc]
  | false => simp [String.append_assoc]

/-! ## Slashes at the end -/

theorem toList_trimEnd (path : String) :
    (trimEnd path).toList = path.toList.rdropWhile (· = '/') := by
  rw [trimEnd, String.toList_ofList, List.rdropWhile]

/-- What is taken off a path are slashes. -/
theorem exists_eq_trimEnd_append_slashes (path : String) :
    ∃ count, path = trimEnd path ++ slashes count := by
  let taken := path.toList.rtakeWhile (· = '/')
  have hslashes : taken = List.replicate taken.length '/' := by
    apply List.eq_replicate_of_mem
    intro c hc
    have hslash := List.mem_rtakeWhile_imp hc
    exact of_decide_eq_true hslash
  refine ⟨taken.length, ?_⟩
  apply String.toList_inj.mp
  rw [String.toList_append, toList_trimEnd, slashes, String.toList_ofList, ← hslashes]
  exact List.rdropWhile_append_rtakeWhile.symm

/-- Of two texts the first is cut only if nothing is kept of the second. -/
theorem trimEnd_append (front rest : String) :
    trimEnd (front ++ rest) =
      if trimEnd rest = "" then trimEnd front else front ++ trimEnd rest := by
  have hempty : trimEnd rest = "" ↔ rest.toList.reverse.dropWhile (· = '/') = [] := by
    rw [← String.toList_eq_nil_iff, toList_trimEnd, List.rdropWhile, List.reverse_eq_nil_iff]
  apply String.toList_inj.mp
  by_cases h : trimEnd rest = ""
  · rw [if_pos h, toList_trimEnd, toList_trimEnd, String.toList_append, List.rdropWhile,
      List.reverse_append, List.dropWhile_append, if_pos (List.isEmpty_iff.mpr (hempty.mp h)),
      List.rdropWhile]
  · have hkept : ¬(rest.toList.reverse.dropWhile (· = '/')).isEmpty = true :=
      fun hnone => h (hempty.mpr (List.isEmpty_iff.mp hnone))
    rw [if_neg h, String.toList_append, toList_trimEnd, toList_trimEnd, String.toList_append,
      List.rdropWhile, List.reverse_append, List.dropWhile_append, if_neg hkept,
      List.reverse_append, List.reverse_reverse, List.rdropWhile]

theorem trimEnd_slashes (count : Nat) : trimEnd (slashes count) = "" := by
  apply String.toList_inj.mp
  rw [toList_trimEnd, slashes, String.toList_ofList]
  apply List.rdropWhile_eq_nil_iff.mpr
  intro c hc
  exact decide_eq_true (List.eq_of_mem_replicate hc)

/-- Nothing is kept of slashes alone. -/
theorem trimEnd_eq_empty_iff {path : String} :
    trimEnd path = "" ↔ ∃ count, path = slashes count := by
  constructor
  · intro h
    obtain ⟨count, hpath⟩ := exists_eq_trimEnd_append_slashes path
    rw [h, String.empty_append] at hpath
    exact ⟨count, hpath⟩
  · rintro ⟨count, rfl⟩
    exact trimEnd_slashes count

/-- A path that does not end in a slash is kept as it is. -/
theorem trimEnd_of_endsWithSlash_eq_false {path : String} (h : endsWithSlash path = false) :
    trimEnd path = path := by
  apply String.toList_inj.mp
  rw [toList_trimEnd]
  apply List.rdropWhile_eq_self_iff.mpr
  intro hne hlast
  have hslash : endsWithSlash path = true := by
    apply decide_eq_true
    rw [List.getLast?_eq_some_getLast hne, of_decide_eq_true hlast]
  rw [h] at hslash
  cases hslash

end ResourceAssembler.Paths
