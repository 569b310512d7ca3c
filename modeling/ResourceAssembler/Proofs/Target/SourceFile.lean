import ResourceAssembler.Proofs.Paths.Denotation
import ResourceAssembler.Target.Paths

/-!
# What references to source files denote

A reference is either plain, and then taken from the source root, or it starts with the macro
of the source root. The macro puts the root in front of the rest as text, and what is still
relative then is taken from the source root once more. So a macro reference leads to the same
file as the plain one only if the root starts at the top or names no directory of its own;
any other root counts twice.
-/

namespace ResourceAssembler.TargetPaths

open Paths

/-- What the source root denotes. Roots are kept without a slash at the end, and the empty
root is the top directory. -/
def rootDenoted (paths : TargetPaths) : Denoted :=
  denoted (paths.sourceRoot ++ "/")

/-- A reference behind the macro of the source root. -/
def macroReference (reference : String) : String :=
  sourceMacro ++ "/" ++ reference

theorem rootDenoted_segments (paths : TargetPaths) :
    paths.rootDenoted.segments = segments paths.sourceRoot :=
  segments_append_slash paths.sourceRoot

theorem rootDenoted_absolute (paths : TargetPaths) :
    paths.rootDenoted.absolute =
      if paths.sourceRoot = "" then true else isAbsolute paths.sourceRoot :=
  isAbsolute_append paths.sourceRoot "/"

/-- The macro stands for the text of the source root. -/
theorem expandReference_macroReference (paths : TargetPaths) (reference : String) :
    paths.expandReference (macroReference reference) = paths.sourceRoot ++ "/" ++ reference := by
  have hstart : startsWith (macroReference reference) sourceMacro = true := by
    simp [startsWith, macroReference, String.append_assoc]
  have hrest : (macroReference reference).toList.drop sourceMacro.length =
      ("/" ++ reference).toList := by
    rw [macroReference, String.append_assoc, String.toList_append, ← String.length_toList,
      List.drop_left]
  rw [expandReference, if_pos hstart, hrest, String.ofList_toList, String.append_assoc]

/-- With the root as text in front, a reference leads from the root to its own segments. -/
theorem denoted_root_append (paths : TargetPaths) (reference : String) :
    denoted (paths.sourceRoot ++ "/" ++ reference) = paths.rootDenoted.under reference :=
  denoted_append_slash_append paths.sourceRoot reference

/-- Under a root that starts at the top a macro reference takes the root once. -/
theorem denoted_sourceFile_of_absolute {paths : TargetPaths}
    (h : paths.rootDenoted.absolute = true) (reference : String) :
    denoted (paths.sourceFile (macroReference reference)) =
      paths.rootDenoted.under reference := by
  have hpath := denoted_root_append paths reference
  have habsolute : isAbsolute (paths.sourceRoot ++ "/" ++ reference) = true :=
    (congrArg Denoted.absolute hpath).trans h
  simp only [sourceFile, expandReference_macroReference, habsolute, if_true, hpath]

/-- Under any other root a macro reference takes the root as text and then as a directory. -/
theorem denoted_sourceFile_of_relative {paths : TargetPaths}
    (h : paths.rootDenoted.absolute = false) (reference : String) :
    denoted (paths.sourceFile (macroReference reference)) =
      ⟨false, paths.rootDenoted.segments ++ (paths.rootDenoted.under reference).segments⟩ := by
  have hpath := denoted_root_append paths reference
  have hrelative : isAbsolute (paths.sourceRoot ++ "/" ++ reference) = false :=
    (congrArg Denoted.absolute hpath).trans h
  have hroot : isAbsolute paths.sourceRoot = false := by
    by_cases hempty : paths.sourceRoot = ""
    · rw [hempty]
      rfl
    · rw [← h, rootDenoted_absolute, if_neg hempty]
  simp only [sourceFile, expandReference_macroReference, hrelative, Bool.false_eq_true, if_false,
    denoted_join hrelative]
  rw [ Denoted.under, denoted, hroot, ← rootDenoted_segments]
  exact congrArg _ (congrArg _ (congrArg Denoted.segments hpath))

/-- A plain relative reference is taken from the text of the source root. -/
theorem denoted_sourceFile_of_plain {reference : String} (h : isAbsolute reference = false)
    (hplain : startsWith reference "@" = false) (paths : TargetPaths) :
    denoted (paths.sourceFile reference) = (denoted paths.sourceRoot).under reference := by
  have hno : startsWith reference sourceMacro = false := by
    rw [Bool.eq_false_iff] at hplain ⊢
    intro hmacro
    have hshorter : "@".toList <+: sourceMacro.toList := ⟨"rpath".toList, rfl⟩
    exact hplain (List.isPrefixOf_iff_prefix.mpr
      (hshorter.trans (List.isPrefixOf_iff_prefix.mp hmacro)))
  have hexpand : paths.expandReference reference = reference := by
    rw [expandReference, hno, if_neg (by simp)]
  simp only [sourceFile, hexpand, h, Bool.false_eq_true, if_false, denoted_join h]

/-- The top directory, kept as the empty root, is the only root of which a plain reference does not
start where the root starts. -/
theorem denoted_sourceRoot_eq_iff (paths : TargetPaths) :
    denoted paths.sourceRoot = paths.rootDenoted ↔ paths.sourceRoot ≠ "" := by
  have hsegments := paths.rootDenoted_segments
  have habsolute := paths.rootDenoted_absolute
  constructor
  · intro h hempty
    rw [if_pos hempty, ← h, hempty] at habsolute
    exact absurd habsolute (by decide)
  · intro hne
    rw [if_neg hne] at habsolute
    rw [denoted, ← hsegments, ← habsolute]

/-- What a macro reference denotes, under every source root and for every relative reference. Under
a root that starts at the top it denotes what the reference denotes there. Under any other root it
counts the segments of the root twice, so that it denotes the reference under the root exactly when
the root names no directory. It leads to the same file as the plain reference under the same
condition, except that the plain reference misses the top directory. -/
theorem macro_reference_denotes (paths : TargetPaths) {reference : String}
    (relative : isAbsolute reference = false) (plain : startsWith reference "@" = false) :
    let root := paths.rootDenoted
    let found := denoted (paths.sourceFile (macroReference reference))
    found = ⟨root.absolute, (if root.absolute then [] else root.segments) ++
        (root.under reference).segments⟩ ∧
      (found = root.under reference ↔ root.absolute = true ∨ root.segments = []) ∧
      (found = denoted (paths.sourceFile reference) ↔
        paths.sourceRoot ≠ "" ∧ (root.absolute = true ∨ root.segments = [])) := by
  intro root found
  have hfound : found = ⟨root.absolute, (if root.absolute then [] else root.segments) ++
      (root.under reference).segments⟩ := by
    cases habsolute : root.absolute with
    | true =>
        rw [if_pos rfl, List.nil_append, ← habsolute]
        exact denoted_sourceFile_of_absolute habsolute reference
    | false =>
        rw [if_neg (by simp)]
        exact denoted_sourceFile_of_relative habsolute reference
  have honce : found = root.under reference ↔ root.absolute = true ∨ root.segments = [] := by
    rw [hfound]
    cases habsolute : root.absolute with
    | true => simp [ Denoted.under, habsolute]
    | false => simp [ Denoted.under, habsolute]
  refine ⟨hfound, honce, ?_⟩
  rw [denoted_sourceFile_of_plain relative plain]
  by_cases hempty : paths.sourceRoot = ""
  · have hstart : found.absolute = true := by
      rw [hfound]
      exact (rootDenoted_absolute paths).trans (if_pos hempty)
    constructor
    · intro h
      rw [h, hempty] at hstart
      exact absurd hstart Bool.false_ne_true
    · intro h
      exact absurd hempty h.1
  · rw [(denoted_sourceRoot_eq_iff paths).mpr hempty, honce, and_iff_right hempty]

/-- A relative root counts twice: the reference "@rpath/blob.bin" of the listing "proj/main.kdl"
leads to "proj/proj/blob.bin", not to the file that the plain reference "blob.bin" leads to. -/
theorem relative_root_counts_twice :
    let paths := ({} : TargetPaths).setSourceRoot "proj/main.kdl"
    paths.sourceFile "@rpath/blob.bin" = "proj/proj/blob.bin" ∧
      paths.sourceFile "blob.bin" = "proj/blob.bin" ∧
      denoted (paths.sourceFile "@rpath/blob.bin") ≠
        paths.rootDenoted.under "blob.bin" := by
  decide

theorem macro_reference_denotes_under_proj :
    let paths := ({} : TargetPaths).setSourceRoot "proj/main.kdl"
    isAbsolute "blob.bin" = false ∧ startsWith "blob.bin" "@" = false ∧
      denoted (paths.sourceFile (macroReference "blob.bin")) =
        ⟨false, ["proj"] ++ ["proj", "blob.bin"]⟩ :=
  ⟨by decide, by decide, (macro_reference_denotes
    (({} : TargetPaths).setSourceRoot "proj/main.kdl") (by decide) (by decide)).1⟩

end ResourceAssembler.TargetPaths
