import ResourceAssembler.Paths.Text

/-!
# What joined paths denote

A slash ends a piece wherever it stands, so the segments of two paths with a slash between them are
the segments of both, one after the other. What is put behind a path does not change where the path
starts, unless nothing stands in front of it.
-/

namespace ResourceAssembler.Paths

/-- What a path leads to from a directory, whether or not the path starts at the top. -/
def Denoted.under (directory : Denoted) (path : String) : Denoted :=
  ⟨directory.absolute, directory.segments ++ Paths.segments path⟩

theorem splitPieces_ne_nil (text : List Char) : splitPieces text ≠ [] := by
  fun_cases splitPieces text <;> simp_all

/-- A character other than a slash belongs to the first piece of what follows it. -/
theorem splitPieces_cons_of_ne {c : Char} (h : c ≠ '/') {text piece : List Char}
    {pieces : List (List Char)} (hp : splitPieces text = piece :: pieces) :
    splitPieces (c :: text) = (c :: piece) :: pieces := by
  rw [splitPieces, hp]
  exact h

/-- The pieces in front of a slash end there. -/
theorem splitPieces_append_slash (front back : List Char) :
    splitPieces (front ++ '/' :: back) = splitPieces front ++ splitPieces back := by
  induction front with
  | nil => rfl
  | cons c rest ih =>
      by_cases h : c = '/'
      · subst h
        simp [splitPieces, ih]
      · obtain ⟨piece, pieces, hp⟩ := List.exists_cons_of_ne_nil (splitPieces_ne_nil rest)
        rw [hp, List.cons_append] at ih
        rw [List.cons_append, splitPieces_cons_of_ne h ih, splitPieces_cons_of_ne h hp,
          List.cons_append]

@[simp] theorem segments_empty : segments "" = [] := by
  simp [segments, splitPieces, isIdle]

theorem Denoted.under_empty (place : Denoted) : place.under "" = place := by
  rw [under, segments_empty, List.append_nil]

/-- The segments in front of a slash and the segments behind it make up the segments of a path. -/
theorem segments_append_slash_append (base path : String) :
    segments (base ++ "/" ++ path) = segments base ++ segments path := by
  have htext : (base ++ "/" ++ path).toList = base.toList ++ '/' :: path.toList := by simp
  rw [segments, htext, splitPieces_append_slash]
  simp [segments]

/-- A slash at the end names nothing. -/
theorem segments_append_slash (base : String) : segments (base ++ "/") = segments base := by
  have h := segments_append_slash_append base ""
  rwa [String.append_empty, segments_empty, List.append_nil] at h

theorem isAbsolute_append (front back : String) :
    isAbsolute (front ++ back) = if front = "" then isAbsolute back else isAbsolute front := by
  by_cases h : front = ""
  · simp [h]
  · have hne : front.toList ≠ [] := by simpa using h
    obtain ⟨c, rest, hc⟩ := List.exists_cons_of_ne_nil hne
    simp [isAbsolute, h, hc]

/-- With a slash between them a path leads from what the base denotes to its own segments. -/
theorem denoted_append_slash_append (base path : String) :
    denoted (base ++ "/" ++ path) = (denoted (base ++ "/")).under path := by
  have hstart : isAbsolute (base ++ "/" ++ path) = isAbsolute (base ++ "/") := by
    rw [isAbsolute_append, if_neg (by simp)]
  rw [denoted, hstart, segments_append_slash_append, ← segments_append_slash]
  rfl

theorem endsWithSlash_append_slash (path : String) : endsWithSlash (path ++ "/") = true := by
  simp [endsWithSlash]

/-- A path that ends in a slash is a path with a slash behind it. -/
theorem exists_eq_append_slash {path : String} (h : endsWithSlash path = true) :
    ∃ front, path = front ++ "/" := by
  obtain ⟨front, hfront⟩ := List.getLast?_eq_some_iff.mp (of_decide_eq_true h)
  refine ⟨String.ofList front, ?_⟩
  apply String.toList_inj.mp
  simp [hfront]

/-- A path from the top is a slash with a path behind it. -/
theorem exists_eq_slash_append {path : String} (h : isAbsolute path = true) :
    ∃ rest, path = "/" ++ rest := by
  obtain ⟨rest, hrest⟩ := List.head?_eq_some_iff.mp (of_decide_eq_true h)
  refine ⟨String.ofList rest, ?_⟩
  apply String.toList_inj.mp
  simp [hrest]

/-- A relative path taken from a base names the segments of both. -/
theorem segments_join {path : String} (h : isAbsolute path = false) (base : String) :
    segments (join base path) = segments base ++ segments path := by
  by_cases hempty : base = ""
  · simp [join, h, hempty]
  · by_cases hslash : endsWithSlash base = true
    · obtain ⟨front, rfl⟩ := exists_eq_append_slash hslash
      simp only [join, h, hslash, Bool.or_true, if_true, segments_append_slash_append,
        segments_append_slash, Bool.false_eq_true, if_false]
    · simp [join, h, hempty, hslash, segments_append_slash_append]

/-- A relative path taken from a base starts where the base does. -/
theorem isAbsolute_join {path : String} (h : isAbsolute path = false) (base : String) :
    isAbsolute (join base path) = isAbsolute base := by
  by_cases hempty : base = ""
  · subst hempty
    have hjoin : join "" path = path := by simp [join, h]
    rw [hjoin, h]
    rfl
  · simp only [join, h, Bool.false_eq_true, if_false]
    split
    · rw [isAbsolute_append, if_neg hempty]
    · rw [String.append_assoc, isAbsolute_append, if_neg hempty]

/-- A relative path taken from a base leads from what the base denotes to its own segments. -/
theorem denoted_join {path : String} (h : isAbsolute path = false) (base : String) :
    denoted (join base path) = (denoted base).under path := by
  rw [denoted, isAbsolute_join h, segments_join h]
  rfl

end ResourceAssembler.Paths
