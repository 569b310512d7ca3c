import ResourceAssembler.Proofs.Paths.Splitting

/-!
# Paths at the home directory

A path starts at the home directory if it is "~" or goes on with a slash behind "~". These
are the paths in which the home directory takes the place of "~". Whether slashes at the end
are taken off before or after the home directory is put in makes a difference only to the
home directory's own slashes.
-/

namespace ResourceAssembler.Paths

/-- Whether a path starts at the home directory. -/
def startsAtHome (path : String) : Bool :=
  path = "~" || startsWith path "~/"

/-- A path at the home directory is "~" with nothing or with a slash behind it. -/
theorem startsAtHome_iff {path : String} :
    startsAtHome path = true ↔
      ∃ rest, path = "~" ++ rest ∧ (rest = "" ∨ isAbsolute rest = true) := by
  constructor
  · intro h
    obtain hhome | hbelow : path = "~" ∨ startsWith path "~/" = true := by
      simpa [startsAtHome] using h
    · exact ⟨"", by rw [hhome, String.append_empty], .inl rfl⟩
    · obtain ⟨rest, hrest⟩ := List.isPrefixOf_iff_prefix.mp hbelow
      refine ⟨"/" ++ String.ofList rest, ?_, .inr (by simp [isAbsolute])⟩
      apply String.toList_inj.mp
      simp [← hrest]
  · rintro ⟨rest, rfl, rfl | habsolute⟩
    · rfl
    · obtain ⟨rest, rfl⟩ := exists_eq_slash_append habsolute
      simp [startsAtHome, startsWith]

/-- The home directory takes the place of "~". -/
theorem expandTilde_append (home : String) {rest : String}
    (h : rest = "" ∨ isAbsolute rest = true) :
    expandTilde (some home) ("~" ++ rest) = home ++ rest := by
  obtain rfl | habsolute := h
  · simp [expandTilde]
  · obtain ⟨rest, rfl⟩ := exists_eq_slash_append habsolute
    simp [expandTilde]

theorem expandTilde_tilde (home : String) : expandTilde (some home) "~" = home := by
  have h := expandTilde_append home (.inl rfl : "" = "" ∨ isAbsolute "" = true)
  rwa [String.append_empty, String.append_empty] at h

/-- No other path is changed. -/
theorem expandTilde_of_startsAtHome_eq_false {path : String} (h : startsAtHome path = false)
    (home : Option String) : expandTilde home path = path := by
  unfold expandTilde
  split
  case h_1 htext =>
    have hpath : path = "~" := String.toList_inj.mp htext
    rw [hpath] at h
    cases h
  case h_2 htext =>
    simp [startsAtHome, startsWith, htext] at h
  case h_3 => rfl

theorem startsAtHome_of_isAbsolute {path : String} (h : isAbsolute path = true) :
    startsAtHome path = false := by
  rw [Bool.eq_false_iff]
  intro hhome
  obtain ⟨rest, rfl, -⟩ := startsAtHome_iff.mp hhome
  simp [isAbsolute] at h

/-- A path from the top starts at the top still, unless nothing is kept of it. -/
theorem isAbsolute_trimEnd {path : String} (h : isAbsolute path = true) :
    trimEnd path = "" ∨ isAbsolute (trimEnd path) = true := by
  obtain ⟨count, hpath⟩ := exists_eq_trimEnd_append_slashes path
  by_cases hempty : trimEnd path = ""
  · exact .inl hempty
  · rw [hpath, isAbsolute_append, if_neg hempty] at h
    exact .inr h

theorem isAbsolute_append_of_isAbsolute {front : String} (h : isAbsolute front = true)
    (back : String) : isAbsolute (front ++ back) = true := by
  rw [isAbsolute_append, if_neg, h]
  rintro rfl
  cases h

theorem expandTilde_none (path : String) : expandTilde none path = path := by
  unfold expandTilde
  split
  case h_1 hnone => cases hnone
  case h_2 hnone => cases hnone
  case h_3 => rfl

/-- A text is empty or starts with a slash whether or not there are slashes at its end. -/
theorem empty_or_isAbsolute_append_slashes (text : String) (count : Nat) :
    (text ++ slashes count = "" ∨ isAbsolute (text ++ slashes count) = true) ↔
      (text = "" ∨ isAbsolute text = true) := by
  by_cases hempty : text = ""
  · subst hempty
    rw [String.empty_append]
    cases count with
    | zero => exact iff_of_true (.inl rfl) (.inl rfl)
    | succ count =>
        have habsolute : isAbsolute (slashes (count + 1)) = true := by
          simp [isAbsolute, slashes, List.replicate_succ]
        exact iff_of_true (.inr habsolute) (.inl rfl)
  · simp [isAbsolute_append, hempty]

/-- Slashes at the end of a path do not make it start at the home directory. -/
theorem startsAtHome_append_slashes {path : String} (h : startsAtHome path = false) (count : Nat) :
    startsAtHome (path ++ slashes count) = false := by
  rw [Bool.eq_false_iff]
  intro hhome
  obtain ⟨rest, hpath, hrest⟩ := startsAtHome_iff.mp hhome
  have htext : path.toList ++ List.replicate count '/' = '~' :: rest.toList := by
    have hlist := congrArg String.toList hpath
    simpa [slashes] using hlist
  obtain ⟨hnone, hslashes⟩ | ⟨back, hback, hcut⟩ := List.append_eq_cons_iff.mp htext
  · have htilde : '~' ∈ List.replicate count '/' := hslashes ▸ List.mem_cons_self
    exact absurd (List.eq_of_mem_replicate htilde) (by decide)
  · have hkept : path = "~" ++ String.ofList back := by
      apply String.toList_inj.mp
      simp [hback]
    have hbehind : rest = String.ofList back ++ slashes count := by
      apply String.toList_inj.mp
      simp [hcut, slashes]
    rw [hbehind, empty_or_isAbsolute_append_slashes] at hrest
    have hstart : startsAtHome path = true := startsAtHome_iff.mpr ⟨_, hkept, hrest⟩
    rw [h] at hstart
    cases hstart

/-- Slashes at the end of a path are still there when the home directory is put in. -/
theorem expandTilde_append_slashes (home : Option String) (path : String) (count : Nat) :
    expandTilde home (path ++ slashes count) = expandTilde home path ++ slashes count := by
  cases home with
  | none => rw [expandTilde_none, expandTilde_none]
  | some dir =>
      cases hhome : startsAtHome path with
      | false =>
          rw [expandTilde_of_startsAtHome_eq_false hhome,
            expandTilde_of_startsAtHome_eq_false (startsAtHome_append_slashes hhome count)]
      | true =>
          obtain ⟨rest, rfl, hrest⟩ := startsAtHome_iff.mp hhome
          have hslashes := (empty_or_isAbsolute_append_slashes rest count).mpr hrest
          rw [String.append_assoc, expandTilde_append dir hslashes, expandTilde_append dir hrest,
            String.append_assoc]

/-- The home directory leaves no path empty. -/
theorem expandTilde_ne_empty {home : Option String} {path : String}
    (absolute : ∀ dir ∈ home, isAbsolute dir = true) (h : path ≠ "") :
    expandTilde home path ≠ "" := by
  cases home with
  | none => rwa [expandTilde_none]
  | some dir =>
      cases hhome : startsAtHome path with
      | false => rwa [expandTilde_of_startsAtHome_eq_false hhome]
      | true =>
          obtain ⟨rest, rfl, hrest⟩ := startsAtHome_iff.mp hhome
          have hdir := isAbsolute_append_of_isAbsolute (absolute dir rfl) rest
          rw [expandTilde_append dir hrest]
          intro hnone
          rw [hnone] at hdir
          cases hdir

/-- A path that is cut before the home directory is put in leads as far as one that is cut before
and after it. Only the home directory itself may be left with more slashes, its own. -/
theorem expandTilde_trimEnd {home : String} (h : isAbsolute home = true) (path : String) :
    let once := expandTilde (some home) (trimEnd path)
    ∃ count, once = expandTilde (some home) (trimEnd (expandTilde (some home) path)) ++
        slashes count ∧
      (count ≠ 0 → trimEnd path = "~" ∧ endsWithSlash home = true) := by
  intro once
  obtain ⟨taken, hpath⟩ := exists_eq_trimEnd_append_slashes path
  have hwhole : expandTilde (some home) path = once ++ slashes taken := by
    rw [← expandTilde_append_slashes, ← hpath]
  have htwice : trimEnd (expandTilde (some home) path) = trimEnd once := by
    rw [hwhole, trimEnd_append, if_pos (trimEnd_slashes taken)]
  rw [htwice]
  cases hhome : startsAtHome (trimEnd path) with
  | false =>
      have honce : once = trimEnd path := expandTilde_of_startsAtHome_eq_false hhome _
      have hcut : trimEnd once = once := by
        rw [honce, trimEnd_of_endsWithSlash_eq_false (endsWithSlash_trimEnd path)]
      refine ⟨0, ?_, fun hne => absurd rfl hne⟩
      rw [hcut, honce, expandTilde_of_startsAtHome_eq_false hhome]
      exact String.append_empty.symm
  | true =>
      obtain ⟨rest, hkept, hrest⟩ := startsAtHome_iff.mp hhome
      have honce : once = home ++ rest := by
        rw [← expandTilde_append home hrest, ← hkept]
      have habsolute : isAbsolute once = true := honce ▸ isAbsolute_append_of_isAbsolute h rest
      have hfixed : expandTilde (some home) (trimEnd once) = trimEnd once := by
        apply expandTilde_of_startsAtHome_eq_false
        obtain hnone | hstart := isAbsolute_trimEnd habsolute
        · rw [hnone]
          rfl
        · exact startsAtHome_of_isAbsolute hstart
      obtain ⟨count, hslashes⟩ := exists_eq_trimEnd_append_slashes once
      refine ⟨count, hfixed.symm ▸ hslashes, fun hne => ?_⟩
      have hending : endsWithSlash once = true := by
        obtain ⟨fewer, rfl⟩ := Nat.exists_eq_succ_of_ne_zero hne
        rw [hslashes, slashes_succ, ← String.append_assoc]
        exact endsWithSlash_append_slash _
      -- The path has been cut, so slashes at the end can only be the home directory's own.
      obtain rfl | hbelow := hrest
      · exact ⟨hkept, by rwa [honce, String.append_empty] at hending⟩
      · obtain ⟨below, rfl⟩ := exists_eq_slash_append hbelow
        have hcut := endsWithSlash_trimEnd path
        rw [hkept, ← String.append_assoc, endsWithSlash_append_slash_append] at hcut
        rw [honce, ← String.append_assoc, endsWithSlash_append_slash_append, hcut] at hending
        cases hending

end ResourceAssembler.Paths
