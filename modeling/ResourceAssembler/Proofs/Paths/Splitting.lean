import ResourceAssembler.Proofs.Paths.Slashes

/-!
# Cutting a path after its last slash

A path has a last slash, behind which stands its file name, or it has none and is a name in the
working directory. In both cases the directory part without the slashes at its end, a slash and the
file name denote what the path denotes.
-/

namespace ResourceAssembler.Paths

/-! ## The two parts -/

theorem ne_slash_of_mem_reverse {text : List Char} (h : '/' ∉ text) :
    ∀ c ∈ text.reverse, decide (c ≠ '/') = true := by
  intro c hc
  apply decide_eq_true
  rintro rfl
  exact h (List.mem_reverse.mp hc)

theorem splitLast_append_slash_append {file : String} (h : '/' ∉ file.toList) (front : String) :
    splitLast (front ++ "/" ++ file) = (front ++ "/", file) := by
  have htext : (front ++ "/" ++ file).toList.reverse =
      file.toList.reverse ++ '/' :: front.toList.reverse := by simp
  have hname := ne_slash_of_mem_reverse h
  have hroot : String.ofList ('/' :: front.toList.reverse).reverse = front ++ "/" := by
    apply String.toList_inj.mp
    simp
  unfold splitLast
  dsimp only
  rw [htext, List.takeWhile_append_of_pos hname, List.dropWhile_append_of_pos hname,
    List.takeWhile_cons_of_neg (by decide), List.dropWhile_cons_of_neg (by decide), hroot,
    List.append_nil, List.reverse_reverse, String.ofList_toList]
  rfl

/-- There is one way to cut a path at a slash with no other slash behind it. -/
theorem eq_and_eq_of_append_slash {front front' name name' : String} (hname : '/' ∉ name.toList)
    (hname' : '/' ∉ name'.toList) (h : front ++ "/" ++ name = front' ++ "/" ++ name') :
    front = front' ∧ name = name' := by
  have hsplit := congrArg splitLast h
  rw [splitLast_append_slash_append hname, splitLast_append_slash_append hname', Prod.mk.injEq,
    String.append_left_inj] at hsplit
  exact hsplit

theorem splitLast_of_not_mem {path : String} (h : '/' ∉ path.toList) :
    splitLast path = (".", path) := by
  have hname := ne_slash_of_mem_reverse h
  unfold splitLast
  dsimp only
  rw [List.takeWhile_eq_self_iff.mpr hname, List.dropWhile_eq_nil_iff.mpr hname,
    List.reverse_reverse, String.ofList_toList]
  rfl

theorem isAbsolute_of_not_mem {path : String} (h : '/' ∉ path.toList) : isAbsolute path = false :=
  decide_eq_false fun hhead => h (List.mem_of_mem_head? hhead)

/-- A path has a last slash, or it has none. -/
theorem exists_splitLast (path : String) :
    (∃ front file, path = front ++ "/" ++ file ∧ '/' ∉ file.toList ∧
        splitLast path = (front ++ "/", file)) ∨
      ('/' ∉ path.toList ∧ splitLast path = (".", path)) := by
  by_cases h : '/' ∈ path.toList
  · obtain ⟨back, front, hpath, hback⟩ := List.eq_append_cons_of_mem (List.mem_reverse.mpr h)
    left
    have hsplit : path = String.ofList front.reverse ++ "/" ++ String.ofList back.reverse := by
      apply String.toList_inj.mp
      rw [← List.reverse_inj, hpath]
      simp
    have hname : '/' ∉ (String.ofList back.reverse).toList := by
      simpa using hback
    refine ⟨_, _, hsplit, hname, ?_⟩
    rw [hsplit]
    exact splitLast_append_slash_append hname _
  · exact .inr ⟨h, splitLast_of_not_mem h⟩

/-- The file name of a path has no slash in it. -/
theorem not_mem_splitLast (path : String) : '/' ∉ (splitLast path).2.toList := by
  obtain ⟨front, file, -, hfile, hsplit⟩ | ⟨hpath, hsplit⟩ := exists_splitLast path
  · rw [hsplit]
    exact hfile
  · rw [hsplit]
    exact hpath

/-- A path without a file name ends in a slash or is empty. -/
theorem splitLast_of_snd_eq_empty {path : String} (h : (splitLast path).2 = "") :
    path = "" ∨ (splitLast path).1 = path ∧ endsWithSlash path = true := by
  obtain ⟨front, file, rfl, -, hsplit⟩ | ⟨-, hsplit⟩ := exists_splitLast path
  · rw [hsplit] at h ⊢
    obtain rfl : file = "" := h
    right
    rw [String.append_empty]
    exact ⟨rfl, endsWithSlash_append_slash front⟩
  · rw [hsplit] at h
    exact .inl h

/-- Whether a path has an ending without a slash is told from its file name. -/
theorem endsWith_splitLast {ending : String} (h : '/' ∉ ending.toList) (path : String) :
    endsWith path ending = endsWith (splitLast path).2 ending := by
  obtain ⟨front, file, rfl, -, hsplit⟩ | ⟨-, hsplit⟩ := exists_splitLast path
  · have htext : (front ++ "/" ++ file).toList = front.toList ++ '/' :: file.toList := by simp
    rw [hsplit, Bool.eq_iff_iff]
    simp only [endsWith, List.isSuffixOf_iff_suffix, htext]
    constructor
    · intro hending
      -- The ending stops short of the slash, which is no part of it.
      have hslash : '/' :: file.toList <:+ front.toList ++ '/' :: file.toList :=
        List.suffix_append _ _
      obtain hshort | hlong := List.suffix_or_suffix_of_suffix hending hslash
      · obtain hwhole | hfile := List.suffix_cons_iff.mp hshort
        · exact absurd (hwhole ▸ List.mem_cons_self) h
        · exact hfile
      · exact absurd (hlong.subset List.mem_cons_self) h
    · intro hfile
      exact hfile.trans ((List.suffix_cons _ _).trans (List.suffix_append _ _))
  · rw [hsplit]

theorem splitPieces_of_not_mem {text : List Char} (h : '/' ∉ text) : splitPieces text = [text] := by
  induction text with
  | nil => rfl
  | cons c rest ih =>
      obtain ⟨hc, hrest⟩ := not_or.mp (List.mem_cons.not.mp h)
      rw [splitPieces_cons_of_ne (Ne.symm hc) (ih hrest)]

/-- A name is the only segment of itself. -/
theorem segments_of_name {name : String} (h : '/' ∉ name.toList) (hempty : name ≠ "")
    (hdot : name ≠ ".") : segments name = [name] := by
  have hbusy : isIdle name.toList = false := by
    have hnil : name.toList ≠ [] := by simpa using hempty
    have hsingle : name.toList ≠ ['.'] := fun hsame => hdot (String.toList_inj.mp hsame)
    simp [isIdle, hnil, hsingle]
  rw [segments, splitPieces_of_not_mem h]
  simp [hbusy]

/-! ## The directory part -/

/-- What is kept of a path does not end in a slash. -/
theorem endsWithSlash_trimEnd (path : String) : endsWithSlash (trimEnd path) = false := by
  apply decide_eq_false
  rw [toList_trimEnd]
  intro hlast
  obtain ⟨front, hfront⟩ := List.getLast?_eq_some_iff.mp hlast
  have hne : path.toList.rdropWhile (· = '/') ≠ [] := by
    rw [hfront]
    simp
  have hkept := List.rdropWhile_last_not (fun c : Char => decide (c = '/')) path.toList hne
  simp [hfront] at hkept

/-- Of a path that ends in a slash at least that one is taken off. -/
theorem exists_eq_trimEnd_append_slash {path : String} (h : endsWithSlash path = true) :
    ∃ count, path = trimEnd path ++ slashes count ++ "/" := by
  obtain ⟨count, hpath⟩ := exists_eq_trimEnd_append_slashes path
  cases count with
  | zero =>
      have hsame : path = trimEnd path := hpath.trans String.append_empty
      rw [hsame, endsWithSlash_trimEnd] at h
      cases h
  | succ count => exact ⟨count, by rwa [String.append_assoc, ← slashes_succ]⟩

/-- The slashes that are taken off a path can be put back as one. -/
theorem denoted_trimEnd_append {root : String} (h : endsWithSlash root = true) (file : String) :
    denoted (trimEnd root ++ "/" ++ file) = denoted (root ++ file) := by
  obtain ⟨count, hroot⟩ := exists_eq_trimEnd_append_slash h
  calc denoted (trimEnd root ++ "/" ++ file)
      = denoted (trimEnd root ++ slashes count ++ "/" ++ file) :=
        (denoted_slashes (trimEnd root) file count).symm
    _ = denoted (root ++ file) := by rw [← hroot]

/-- A slash behind a path that is there names nothing. -/
theorem denoted_append_slash {path : String} (h : path ≠ "") :
    denoted (path ++ "/") = denoted path := by
  rw [denoted, segments_append_slash, isAbsolute_append, if_neg h]
  rfl

/-- A path that is there denotes the directory that is kept of it. -/
theorem denoted_trimEnd_append_slash {path : String} (h : path ≠ "") :
    denoted (trimEnd path ++ "/") = denoted path := by
  cases hslash : endsWithSlash path with
  | true =>
      have hnothing := denoted_trimEnd_append hslash ""
      rwa [String.append_empty, String.append_empty] at hnothing
  | false => rw [trimEnd_of_endsWithSlash_eq_false hslash, denoted_append_slash h]

/-- A name without a slash denotes what it denotes in the working directory. -/
theorem denoted_dot_append {path : String} (h : '/' ∉ path.toList) :
    denoted ("." ++ "/" ++ path) = denoted path := by
  have hstart : isAbsolute ("." ++ "/" ++ path) = false := by
    rw [String.append_assoc, isAbsolute_append]
    rfl
  have hdot : segments "." = [] := by decide
  rw [denoted, denoted, hstart, isAbsolute_of_not_mem h, segments_append_slash_append, hdot,
    List.nil_append]

/-- Cut apart and put together with one slash, a path denotes the same. -/
theorem denoted_splitLast (path : String) :
    denoted (trimEnd (splitLast path).1 ++ "/" ++ (splitLast path).2) = denoted path := by
  obtain ⟨front, file, hpath, -, hsplit⟩ | ⟨hname, hsplit⟩ := exists_splitLast path
  · rw [hsplit, denoted_trimEnd_append (endsWithSlash_append_slash front), ← hpath]
  · have hdot : trimEnd "." = "." := by decide
    rw [hsplit, hdot, denoted_dot_append hname]

/-- The directory in which a path lies. The top is kept as a slash. -/
def directory (path : String) : String :=
  let root := trimEnd (splitLast path).1
  if root = "" then "/" else root

theorem directory_ne_empty (path : String) : directory path ≠ "" := by
  unfold directory
  dsimp only
  split
  case isTrue => simp
  case isFalse hroot => exact hroot

/-- The directory of a path that ends in a slash is the path without its slashes. -/
theorem directory_of_endsWithSlash {path : String} (h : endsWithSlash path = true) :
    directory path = if trimEnd path = "" then "/" else trimEnd path := by
  obtain ⟨front, rfl⟩ := exists_eq_append_slash h
  have hsplit := splitLast_append_slash_append (by simp : '/' ∉ "".toList) front
  rw [String.append_empty] at hsplit
  rw [directory, hsplit]

/-- A path lies behind its directory and at least one slash, or at the top, or it is a name
in the working directory. -/
theorem directory_cases (path : String) :
    (∃ count file, path = directory path ++ slashes count ++ "/" ++ file ∧ '/' ∉ file.toList) ∨
      (∃ count file, directory path = "/" ∧ path = slashes count ++ "/" ++ file ∧
        '/' ∉ file.toList) ∨
      directory path = "." ∧ '/' ∉ path.toList := by
  obtain ⟨front, file, hpath, hfile, hsplit⟩ | ⟨hpath, hsplit⟩ := exists_splitLast path
  · obtain ⟨count, hroot⟩ := exists_eq_trimEnd_append_slash (endsWithSlash_append_slash front)
    unfold directory
    rw [hsplit]
    dsimp only
    split
    case isTrue hempty =>
      rw [hroot, hempty, String.empty_append] at hpath
      exact .inr (.inl ⟨count, file, rfl, hpath, hfile⟩)
    case isFalse =>
      rw [hroot] at hpath
      exact .inl ⟨count, file, hpath, hfile⟩
  · have hdirectory : directory path = directory "." := by
      unfold directory
      rw [hsplit]
      rfl
    exact .inr (.inr ⟨hdirectory.trans (by decide), hpath⟩)

/-- The directory in which a path lies is where its root leads. -/
theorem denoted_directory (path : String) :
    denoted (directory path) = denoted (trimEnd (splitLast path).1 ++ "/") := by
  unfold directory
  dsimp only
  split
  case isTrue hroot => rw [hroot, String.empty_append]
  case isFalse hroot => rw [denoted_append_slash hroot]

/-- A path lies under its directory, at its file name. -/
theorem denoted_eq_under (path : String) :
    denoted path = (denoted (directory path)).under (splitLast path).2 := by
  rw [denoted_directory, ← denoted_append_slash_append, denoted_splitLast]

/-- A path without a file name is its own directory. -/
theorem denoted_directory_of_unnamed {path : String} (h : (splitLast path).2 = "") :
    denoted (directory path) = denoted path := by
  rw [denoted_eq_under path, h, Denoted.under_empty]

/-- The directory of a path with a file name is left when the last segment is taken off. -/
theorem denoted_directory_of_name {path : String} (hempty : (splitLast path).2 ≠ "")
    (hdot : (splitLast path).2 ≠ ".") :
    denoted (directory path) = ⟨isAbsolute path, (segments path).dropLast⟩ := by
  have hname := segments_of_name (not_mem_splitLast path) hempty hdot
  have hunder := denoted_eq_under path
  rw [denoted, denoted, Denoted.under, Denoted.mk.injEq, hname] at hunder
  obtain ⟨hstart, hsegments⟩ := hunder
  rw [denoted, hstart, hsegments, List.dropLast_concat]

theorem splitLast_fst_ne_empty (path : String) : (splitLast path).1 ≠ "" := by
  obtain ⟨front, file, -, -, hsplit⟩ | ⟨-, hsplit⟩ := exists_splitLast path
  · rw [hsplit]
    simp
  · rw [hsplit]
    exact (by decide : "." ≠ "")

end ResourceAssembler.Paths
