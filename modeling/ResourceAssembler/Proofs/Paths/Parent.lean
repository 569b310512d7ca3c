import ResourceAssembler.Proofs.Paths.Splitting

/-!
# The directory above a path

The directory above a path with a file name is the path without that name, and without the idle
pieces that come to stand at the end then. What is left is tidy: it ends in its last segment, if
there is one, so that its ending is told from its segments.
-/

namespace ResourceAssembler.Paths

/-! ## Pieces -/

theorem not_mem_of_mem_splitPieces {text piece : List Char} (h : piece ∈ splitPieces text) :
    '/' ∉ piece := by
  induction text generalizing piece with
  | nil =>
      rw [List.mem_singleton.mp h]
      exact List.not_mem_nil
  | cons c rest ih =>
      by_cases hc : c = '/'
      · subst hc
        obtain rfl | hrest := List.mem_cons.mp h
        · exact List.not_mem_nil
        · exact ih hrest
      · obtain ⟨first, pieces, hp⟩ := List.exists_cons_of_ne_nil (splitPieces_ne_nil rest)
        rw [splitPieces_cons_of_ne hc hp] at h
        rw [hp] at ih
        obtain rfl | hrest := List.mem_cons.mp h
        · exact List.not_mem_cons_of_ne_of_not_mem (Ne.symm hc) (ih List.mem_cons_self)
        · exact ih (List.mem_cons_of_mem _ hrest)

/-- Pieces are found again between the slashes that join them. -/
theorem splitPieces_intercalate {pieces : List (List Char)} (hne : pieces ≠ [])
    (h : ∀ piece ∈ pieces, '/' ∉ piece) : splitPieces (['/'].intercalate pieces) = pieces := by
  induction pieces with
  | nil => exact absurd rfl hne
  | cons piece rest ih =>
      have hpiece := splitPieces_of_not_mem (h piece List.mem_cons_self)
      cases rest with
      | nil =>
          rw [List.intercalate_singleton]
          exact hpiece
      | cons next rest =>
          have hrest := ih (List.cons_ne_nil _ _) fun p hp => h p (List.mem_cons_of_mem _ hp)
          rw [List.intercalate_cons_of_ne_nil (List.cons_ne_nil _ _)]
          rw [List.append_assoc, List.singleton_append, splitPieces_append_slash, hpiece, hrest]
          rfl

/-- The file name of a path is its last piece. -/
theorem exists_splitPieces_eq (path : String) :
    ∃ above, splitPieces path.toList = above ++ [(splitLast path).2.toList] := by
  obtain ⟨front, file, rfl, hfile, hsplit⟩ | ⟨hname, hsplit⟩ := exists_splitLast path
  · have htext : (front ++ "/" ++ file).toList = front.toList ++ '/' :: file.toList := by simp
    refine ⟨splitPieces front.toList, ?_⟩
    rw [hsplit, htext, splitPieces_append_slash, splitPieces_of_not_mem hfile]
  · refine ⟨[], ?_⟩
    rw [hsplit, splitPieces_of_not_mem hname]
    rfl

/-! ## Tidy paths -/

/-- A path that ends in its last segment. A path without segments ends in an idle piece. -/
def Tidy (path : String) : Prop :=
  (segments path).getLast? = some (splitLast path).2 ∨
    segments path = [] ∧ ((splitLast path).2 = "" ∨ (splitLast path).2 = ".")

/-- The ending of a tidy path is the ending of its last segment. -/
theorem Tidy.endsWith_eq {path : String} (h : Tidy path) (ending : String)
    (hslash : '/' ∉ ending.toList)
    (hidle : endsWith "" ending = false ∧ endsWith "." ending = false) :
    endsWith path ending = (segments path).getLast?.any (endsWith · ending) := by
  rw [endsWith_splitLast hslash]
  obtain hlast | ⟨hnone, hempty | hdot⟩ := h
  · rw [hlast]
    rfl
  · rw [hempty, hnone, hidle.1]
    rfl
  · rw [hdot, hnone, hidle.2]
    rfl

theorem splitLast_append_slash_append_snd (front back : String) :
    (splitLast (front ++ "/" ++ back)).2 = (splitLast back).2 := by
  obtain ⟨inner, file, rfl, hfile, hsplit⟩ | ⟨hname, hsplit⟩ := exists_splitLast back
  · have htext : front ++ "/" ++ (inner ++ "/" ++ file) = front ++ "/" ++ inner ++ "/" ++ file := by
      simp only [String.append_assoc]
    rw [hsplit, htext, splitLast_append_slash_append hfile]
  · rw [hsplit, splitLast_append_slash_append hname]

/-- A tidy path is still tidy behind a directory that has no segments. -/
theorem Tidy.behind {front back : String} (h : Tidy back) (hfront : segments front = []) :
    Tidy (front ++ "/" ++ back) := by
  unfold Tidy
  rw [segments_append_slash_append, hfront, List.nil_append, splitLast_append_slash_append_snd]
  exact h

/-- The pieces that take the idle ones at their end away, with slashes between them. -/
def tidied (pieces : List (List Char)) : String :=
  String.ofList (['/'].intercalate (pieces.rdropWhile isIdle))

section Tidied

variable {pieces : List (List Char)}

theorem tidied_of_rdropWhile_eq_nil (h : pieces.rdropWhile isIdle = []) : tidied pieces = "" := by
  unfold tidied
  rw [h]
  rfl

/-- The pieces are found again, up to one that is not idle. -/
theorem splitPieces_tidied (hslash : ∀ piece ∈ pieces, '/' ∉ piece)
    (h : pieces.rdropWhile isIdle ≠ []) :
    splitPieces (tidied pieces).toList = pieces.rdropWhile isIdle := by
  unfold tidied
  rw [String.toList_ofList]
  apply splitPieces_intercalate h
  intro piece hpiece
  exact hslash piece ((List.rdropWhile_prefix _ _).subset hpiece)

/-- The pieces that are taken away are idle. -/
theorem filter_rdropWhile_isIdle (pieces : List (List Char)) :
    (pieces.rdropWhile isIdle).filter (!isIdle ·) = pieces.filter (!isIdle ·) := by
  have htaken : (pieces.rtakeWhile isIdle).filter (!isIdle ·) = [] := by
    apply List.filter_eq_nil_iff.mpr
    intro piece hpiece
    simp [List.mem_rtakeWhile_imp hpiece]
  conv_rhs => rw [← List.rdropWhile_append_rtakeWhile (p := isIdle) (l := pieces)]
  rw [List.filter_append, htaken, List.append_nil]

theorem segments_tidied (hslash : ∀ piece ∈ pieces, '/' ∉ piece) :
    segments (tidied pieces) = (pieces.filter (!isIdle ·)).map String.ofList := by
  rw [← filter_rdropWhile_isIdle pieces]
  by_cases hnone : pieces.rdropWhile isIdle = []
  · rw [tidied_of_rdropWhile_eq_nil hnone, hnone, segments_empty]
    rfl
  · rw [segments, splitPieces_tidied hslash hnone]

theorem tidy_tidied (hslash : ∀ piece ∈ pieces, '/' ∉ piece) : Tidy (tidied pieces) := by
  by_cases hnone : pieces.rdropWhile isIdle = []
  · right
    rw [tidied_of_rdropWhile_eq_nil hnone]
    exact ⟨segments_empty, .inl (by decide)⟩
  · left
    obtain ⟨above, habove⟩ := exists_splitPieces_eq (tidied pieces)
    have hpieces := splitPieces_tidied hslash hnone
    have hbusy := List.rdropWhile_last_not isIdle pieces hnone
    simp only [← hpieces, habove, List.getLast_append_singleton] at hbusy
    rw [segments, habove, List.filter_append]
    simp [hbusy]

/-- Behind an idle piece nothing is left, or the piece stands in front of what is left. -/
theorem rdropWhile_cons_of_isIdle {piece : List Char} (h : isIdle piece = true) :
    (piece :: pieces).rdropWhile isIdle =
      if pieces.rdropWhile isIdle = [] then [] else piece :: pieces.rdropWhile isIdle := by
  simp only [List.rdropWhile, List.reverse_cons, List.dropWhile_append, List.reverse_eq_nil_iff,
    List.isEmpty_iff]
  split
  · simp [h]
  · simp

theorem tidied_nil_cons (pieces : List (List Char)) :
    tidied ([] :: pieces) =
      if pieces.rdropWhile isIdle = [] then "" else "/" ++ tidied pieces := by
  have hidle : isIdle [] = true := rfl
  apply String.toList_inj.mp
  unfold tidied
  rw [rdropWhile_cons_of_isIdle hidle]
  split
  case isTrue => rfl
  case isFalse hsome =>
    rw [List.intercalate_cons_of_ne_nil hsome]
    simp

end Tidied

/-! ## The directory above -/

/-- How a path starts, and what stands behind its anchor. -/
theorem anchor_cases (path : String) :
    (∃ back, path = "/" ++ back ∧ anchor path = ['/']) ∨
      (∃ back, path = "." ++ back ∧ anchor path = ['.'] ∧ (back = "" ∨ isAbsolute back = true)) ∨
      (isAbsolute path = false ∧ anchor path = []) := by
  unfold anchor
  split
  case h_1 rest htext =>
    left
    refine ⟨String.ofList rest, ?_, rfl⟩
    apply String.toList_inj.mp
    simp [htext]
  case h_2 htext =>
    right; left
    refine ⟨"", ?_, rfl, .inl rfl⟩
    apply String.toList_inj.mp
    simp [htext]
  case h_3 rest htext =>
    right; left
    refine ⟨"/" ++ String.ofList rest, ?_, rfl, .inr (by simp [isAbsolute])⟩
    apply String.toList_inj.mp
    simp [htext]
  case h_4 hslash _ _ =>
    right; right
    refine ⟨?_, rfl⟩
    apply decide_eq_false
    intro hhead
    obtain ⟨rest, hrest⟩ := List.head?_eq_some_iff.mp hhead
    exact hslash rest hrest

/-- Pieces behind an anchor, the last one first. -/
theorem ofReversed_eq (anchor : List Char) (pieces : List (List Char)) :
    ofReversed anchor pieces = String.ofList anchor ++ tidied pieces.reverse := by
  apply String.toList_inj.mp
  simp [tidied, ofReversed, List.rdropWhile]

/-- The nearest directory above a path is what is left of its pieces without the last one. -/
theorem parent?_of_pieces {path : String} {above : List (List Char)} {name : List Char}
    (hpieces : splitPieces (path.toList.drop (anchor path).length) = above ++ [name])
    (hname : isIdle name = false) :
    parent? path = some (String.ofList (anchor path) ++ tidied above) := by
  unfold parent? ancestors
  dsimp only
  rw [hpieces, List.reverse_append, List.reverse_singleton, List.singleton_append, climb, hname,
    if_neg Bool.false_ne_true, ofReversed_eq, List.reverse_reverse]
  rfl

/-- Without its last piece a path has all its segments but the last. -/
theorem dropLast_segments {path : String} {above : List (List Char)} {name : List Char}
    (hpieces : splitPieces path.toList = above ++ [name]) (hname : isIdle name = false) :
    (segments path).dropLast = (above.filter (!isIdle ·)).map String.ofList := by
  rw [segments, hpieces, List.filter_append]
  simp [hname]

/-- A text with an empty first piece is empty or starts with a slash. -/
theorem head?_of_head?_splitPieces {text : List Char} (h : (splitPieces text).head? = some []) :
    text = [] ∨ text.head? = some '/' := by
  cases text with
  | nil => exact .inl rfl
  | cons c rest =>
      by_cases hc : c = '/'
      · exact .inr (congrArg some hc)
      · obtain ⟨first, pieces, hp⟩ := List.exists_cons_of_ne_nil (splitPieces_ne_nil rest)
        rw [splitPieces_cons_of_ne hc hp] at h
        cases h

/-- What is left of the pieces of a relative path is relative. -/
theorem isAbsolute_tidied {path : String} {above : List (List Char)} {name : List Char}
    (hpieces : splitPieces path.toList = above ++ [name]) (h : isAbsolute path = false) :
    isAbsolute (tidied above) = false := by
  have hslash : ∀ piece ∈ above, '/' ∉ piece := fun piece hpiece =>
    not_mem_of_mem_splitPieces (hpieces ▸ List.mem_append_left _ hpiece)
  rw [Bool.eq_false_iff]
  intro habsolute
  obtain ⟨rest, hrest⟩ := List.head?_eq_some_iff.mp (of_decide_eq_true habsolute)
  have hsome : above.rdropWhile isIdle ≠ [] := by
    intro hnone
    rw [tidied_of_rdropWhile_eq_nil hnone] at hrest
    cases hrest
  -- The first piece is empty, and it is the first piece of the path too.
  have hfirst : above.head? = some [] := by
    obtain ⟨taken, htaken⟩ := List.rdropWhile_prefix isIdle above
    rw [← htaken, ← splitPieces_tidied hslash hsome, hrest]
    rfl
  have hhead : (splitPieces path.toList).head? = some [] := by
    rw [hpieces, List.head?_append, hfirst]
    rfl
  obtain hnone | hstart := head?_of_head?_splitPieces hhead
  · rw [hnone] at hpieces
    have hlength := congrArg List.length hpieces
    have habove : above = [] := by
      apply List.length_eq_zero_iff.mp
      simpa [splitPieces] using hlength
    rw [habove] at hfirst
    cases hfirst
  · rw [isAbsolute, hstart] at h
    cases h

/-- A directory above the last segment of a path: it is tidy, and it denotes
all segments but the last. -/
def Above (path dir : String) : Prop :=
  Tidy dir ∧ denoted dir = ⟨isAbsolute path, (segments path).dropLast⟩

section Above

variable {path back : String} {above : List (List Char)} {name : List Char}

theorem not_mem_of_splitPieces_eq (hpieces : splitPieces back.toList = above ++ [name]) :
    ∀ piece ∈ above, '/' ∉ piece := by
  intro piece hpiece
  have hmem : piece ∈ splitPieces back.toList := by
    rw [hpieces]
    exact List.mem_append_left _ hpiece
  exact not_mem_of_mem_splitPieces hmem

/-- Behind a directory without segments that ends in a slash. -/
theorem above_behind (front : String) (hfront : segments front = [])
    (hpieces : splitPieces back.toList = above ++ [name]) (hname : isIdle name = false) :
    Above (front ++ "/" ++ back) (front ++ "/" ++ tidied above) := by
  have hslash := not_mem_of_splitPieces_eq hpieces
  refine ⟨(tidy_tidied hslash).behind hfront, ?_⟩
  rw [denoted_append_slash_append, Denoted.under, denoted, segments_append_slash, hfront,
    segments_tidied hslash, segments_append_slash_append, hfront, List.nil_append, List.nil_append,
    dropLast_segments hpieces hname]
  have hstart : isAbsolute (front ++ "/" ++ back) = isAbsolute (front ++ "/") := by
    rw [isAbsolute_append, if_neg (by simp)]
  rw [hstart]

/-- The working directory is above a relative path with one segment. -/
theorem above_dot (hrelative : isAbsolute path = false) (h : (segments path).dropLast = []) :
    Above path "." := by
  refine ⟨.inr (by decide), ?_⟩
  rw [hrelative, h]
  decide

theorem above_relative (hrelative : isAbsolute path = false)
    (hpieces : splitPieces path.toList = above ++ [name]) (hname : isIdle name = false) :
    Above path (if tidied above = "" then "." else tidied above) := by
  have hslash := not_mem_of_splitPieces_eq hpieces
  have hsegments : segments (tidied above) = (segments path).dropLast := by
    rw [segments_tidied hslash, dropLast_segments hpieces hname]
  split
  case isTrue hnone =>
    apply above_dot hrelative
    rw [← hsegments, hnone, segments_empty]
  case isFalse =>
    refine ⟨tidy_tidied hslash, ?_⟩
    rw [denoted, isAbsolute_tidied hpieces hrelative, hsegments, hrelative]

/-- In a path that starts with "." the dot is kept. -/
theorem above_dot_behind (hpieces : splitPieces back.toList = above ++ [name])
    (hname : isIdle name = false) : Above ("./" ++ back) ("." ++ tidied ([] :: above)) := by
  rw [tidied_nil_cons]
  split
  case isTrue hnone =>
    rw [String.append_empty]
    apply above_dot
    · simp [isAbsolute]
    · have hdots : segments ("./" ++ back) = segments back :=
        segments_append_slash_append "." back
      rw [hdots, dropLast_segments hpieces hname, ← filter_rdropWhile_isIdle, hnone]
      rfl
  case isFalse =>
    rw [← String.append_assoc]
    exact above_behind "." (by decide) hpieces hname

end Above

/-- A path with a file name has a directory above it. The empty path stands
for the working directory. -/
theorem exists_parent? {path : String} (hempty : (splitLast path).2 ≠ "")
    (hdot : (splitLast path).2 ≠ ".") :
    ∃ parent, parent? path = some parent ∧ Above path (if parent = "" then "." else parent) := by
  have hname : isIdle (splitLast path).2.toList = false := by
    have hsingle : (splitLast path).2.toList ≠ ['.'] :=
      fun hsame => hdot (String.toList_inj.mp hsame)
    simp [isIdle, hempty, hsingle]
  obtain ⟨back, rfl, hanchor⟩ | ⟨back, rfl, hanchor, hback⟩ | ⟨hrelative, hanchor⟩ :=
    anchor_cases path
  · obtain ⟨above, hpieces⟩ := exists_splitPieces_eq back
    have hlast : (splitLast ("/" ++ back)).2 = (splitLast back).2 :=
      splitLast_append_slash_append_snd "" back
    rw [hlast] at hname
    have hdropped : splitPieces (("/" ++ back).toList.drop (anchor ("/" ++ back)).length) =
        above ++ [(splitLast back).2.toList] := by
      rw [hanchor, ← hpieces]
      simp
    refine ⟨_, parent?_of_pieces hdropped hname, ?_⟩
    rw [hanchor, if_neg (by simp)]
    exact above_behind "" segments_empty hpieces hname
  · obtain rfl | habsolute := hback
    · exact absurd (by decide) hdot
    · obtain ⟨back, rfl⟩ := exists_eq_slash_append habsolute
      rw [← String.append_assoc] at hdot hempty hname hanchor ⊢
      have hlast : (splitLast ("." ++ "/" ++ back)).2 = (splitLast back).2 :=
        splitLast_append_slash_append_snd "." back
      obtain ⟨above, hpieces⟩ := exists_splitPieces_eq back
      rw [hlast] at hname
      have hdropped : splitPieces (("." ++ "/" ++ back).toList.drop
          (anchor ("." ++ "/" ++ back)).length) = ([] :: above) ++ [(splitLast back).2.toList] := by
        rw [hanchor, List.cons_append, ← hpieces]
        simp [splitPieces]
      refine ⟨_, parent?_of_pieces hdropped hname, ?_⟩
      rw [hanchor, if_neg (by simp)]
      exact above_dot_behind hpieces hname
  · obtain ⟨above, hpieces⟩ := exists_splitPieces_eq path
    have hdropped : splitPieces (path.toList.drop (anchor path).length) =
        above ++ [(splitLast path).2.toList] := by
      rw [hanchor, ← hpieces]
      rfl
    refine ⟨_, parent?_of_pieces hdropped hname, ?_⟩
    rw [hanchor]
    have hleft : String.ofList [] ++ tidied above = tidied above := String.empty_append
    rw [hleft]
    exact above_relative hrelative hpieces hname

end ResourceAssembler.Paths
