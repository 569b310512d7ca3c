import ResourceAssembler.Proofs.Host.Chart
import ResourceAssembler.Proofs.Target.Destination

/-!
# A destination after a save

A save changes what is found at its destination: the root may have been created, and the artifact is
there. But a created root does not lie below the destination, and the artifact lies below the root.
So the destination is taken apart in the same way once more, and nothing is left to be created.
-/

namespace ResourceAssembler

open Paths

/-! ## Places -/

namespace Paths.Denoted

variable {path : String}

theorem absolute_under (place : Denoted) (path : String) :
    (place.under path).absolute = place.absolute := rfl

theorem under_ne (h : Paths.segments path ≠ []) (place : Denoted) : place.under path ≠ place := by
  intro hsame
  have hsegments : place.segments ++ Paths.segments path = place.segments :=
    congrArg segments hsame
  exact h (List.append_right_eq_self.mp hsegments)

theorem not_under_prefix (h : Paths.segments path ≠ []) (place : Denoted) :
    ¬(place.under path).segments <+: place.segments := by
  intro hprefix
  have hlength : place.segments.length + (Paths.segments path).length ≤ place.segments.length := by
    rw [← List.length_append]
    exact hprefix.length_le
  have hpositive := List.length_pos_iff.mpr h
  omega

theorem descends_under {place : Denoted} :
    (place.under path).Descends ↔ place.Descends ∧ ".." ∉ Paths.segments path := by
  rw [Descends, under, List.mem_append, not_or, Descends]

end Paths.Denoted

theorem absolute_eq_absolute_under (path name : String) :
    (denoted path).absolute = ((denoted (directory path)).under name).absolute := by
  rw [denoted_eq_under path, Denoted.absolute_under, Denoted.absolute_under]

theorem descends_directory {path : String} (h : (denoted path).Descends) :
    (denoted (directory path)).Descends := by
  rw [denoted_eq_under] at h
  exact ( Denoted.descends_under.mp h).1

/-- The name of an artifact is a file name with an ending, which is more than a step up. -/
theorem exists_segments_artifactName (file : String) (format : Format) :
    ∃ above last, segments (file ++ "." ++ format.extension) = above ++ [last] ∧
      above ⊆ segments file ∧ last ≠ ".." := by
  have hending : 3 ≤ format.extension.length := by cases format <;> decide
  -- A text that is longer than ".." is neither idle nor a step up.
  have hname : ∀ name : String, '/' ∉ name.toList →
      segments (name ++ "." ++ format.extension) = [name ++ "." ++ format.extension] ∧
        name ++ "." ++ format.extension ≠ ".." := by
    intro name hslash
    have hlong : ∀ other : String, other.length ≤ 2 → name ++ "." ++ format.extension ≠ other := by
      rintro _ hshort rfl
      simp only [String.length_append] at hshort
      omega
    exact ⟨segments_of_name (not_mem_artifactName hslash format) (hlong "" (by decide))
      (hlong "." (by decide)), hlong ".." (by decide)⟩
  obtain ⟨front, name, hfile, hslash, -⟩ | ⟨hslash, -⟩ := exists_splitLast file
  · obtain ⟨hsegments, hup⟩ := hname name hslash
    refine ⟨segments front, _, ?_, ?_, hup⟩
    · rw [hfile, ← hsegments, ← segments_append_slash_append]
      simp only [String.append_assoc]
    · rw [hfile, segments_append_slash_append]
      exact List.subset_append_left _ _
  · obtain ⟨hsegments, hup⟩ := hname file hslash
    exact ⟨[], _, hsegments, List.nil_subset _, hup⟩

theorem denoted_artifactPath {root : String} (h : endsWithSlash root = false) (file : String)
    (format : Format) :
    denoted (artifactPath root file format) =
      (denoted (root ++ "/")).under (file ++ "." ++ format.extension) := by
  rw [artifactPath_eq h, denoted_append_slash_append]

/-! ## Charts before and after a save -/

namespace Chart

/-- What is left once a destination is prepared: a root that is there, or one that was asked for. -/
inductive Prepared (paths : TargetPaths) (before : Chart) : Chart → Prop where
  | asIs (there : paths.createDestination = true → before.look paths.destinationRoot = .dir) :
      Prepared paths before before
  | made {ready : Chart} (asked : paths.createDestination = true)
      (made : before.DirMade ready (denoted paths.destinationRoot)) : Prepared paths before ready

variable {paths : TargetPaths} {before ready after : Chart} {place other : Denoted}

theorem Prepared.eq_of_not_asked (h : Prepared paths before ready)
    (hasked : paths.createDestination = false) : ready = before := by
  cases h with
  | asIs there => rfl
  | made asked made =>
      rw [hasked] at asked
      cases asked

/-- A file that was there is still there, written or not. -/
theorem FileWritten.file (h : before.FileWritten after place)
    (start : other.absolute = place.absolute) (descends : other.Descends)
    (hfile : before other = .file) : after other = .file := by
  by_cases hother : other = place
  · rw [hother] at hfile ⊢
    rw [h.written, hfile]
    rfl
  · rw [h.kept start descends hother, hfile]

/-- Nothing turns into a directory by being written. -/
theorem FileWritten.not_dir (h : before.FileWritten after place)
    (start : other.absolute = place.absolute) (descends : other.Descends)
    (hfile : before other ≠ .dir) : after other ≠ .dir := by
  by_cases hother : other = place
  · rw [hother] at hfile ⊢
    rw [h.written, if_neg hfile]
    exact fun hdir => by cases hdir
  · rw [h.kept start descends hother]
    exact hfile

/-- The directory in which the file lies is left alone. -/
theorem FileWritten.directory {name : String} (h : before.FileWritten after (place.under name))
    (descends : place.Descends) (hname : segments name ≠ []) : after place = before place :=
  h.kept rfl descends ( Denoted.under_ne hname place).symm

end Chart

/-! ## The destination again -/

namespace TargetPaths

variable {before ready after : Chart} {paths : TargetPaths} {path name : String}

/-- The directory of a missing destination is there once the destination is prepared. -/
theorem directory_prepared (top : before.look "/" = .dir) (hmissing : before.look path = .absent)
    (h : Chart.Prepared (paths.setDestination before.look path) before ready) :
    ready (denoted (directory path)) = .dir := by
  cases h with
  | asIs there =>
      by_cases hdirectory : before.look (directory path) = .dir
      · exact (Chart.look_eq_dir_iff.mp hdirectory).2
      · have hcreate := (createDestination_iff paths before.look path).mpr ⟨hmissing, hdirectory⟩
        have hroot := there hcreate
        rw [destinationRoot_of_createDestination top hcreate] at hroot
        exact absurd hroot hdirectory
  | made asked made =>
      rw [destinationRoot_of_createDestination top asked] at made
      exact made.made

/-- A missing destination with a file name is not there either once it is prepared. -/
theorem destination_prepared (top : before.look "/" = .dir) (descends : (denoted path).Descends)
    (hname : segments (splitLast path).2 ≠ []) (hfree : before (denoted path) ≠ .dir)
    (h : Chart.Prepared (paths.setDestination before.look path) before ready) :
    ready (denoted path) ≠ .dir := by
  cases h with
  | asIs there => exact hfree
  | made asked made =>
      rw [destinationRoot_of_createDestination top asked] at made
      rw [denoted_eq_under] at descends hfree ⊢
      have hstart := (denoted (directory path)).absolute_under (splitLast path).2
      obtain hkept | ⟨-, habove⟩ := made.kept hstart descends
      · rw [hkept]
        exact hfree
      · exact absurd habove ( Denoted.not_under_prefix hname _)

/-- The root of a destination that is no directory is the directory in
which the destination lies. -/
theorem denoted_destinationRoot {look : Look} (h : look path ≠ .dir) (paths : TargetPaths) :
    denoted ((paths.setDestination look path).destinationRoot ++ "/") =
      denoted (directory path) := by
  rw [denoted_directory]
  cases hfound : look path with
  | file => rw [setDestination_of_file hfound]
  | dir => exact absurd hfound h
  | absent => rw [setDestination_of_absent hfound]

/-- The root of a destination that is a directory is the destination. -/
theorem denoted_destinationRoot_of_dir (h : before.look path = .dir) (paths : TargetPaths) :
    denoted ((paths.setDestination before.look path).destinationRoot ++ "/") =
      denoted path := by
  rw [setDestination_of_dir h]
  exact denoted_trimEnd_append_slash (Chart.look_eq_dir_iff.mp h).1

theorem descends_destinationRoot (descends : (denoted path).Descends) (paths : TargetPaths) :
    (denoted
      ((paths.setDestination before.look path).destinationRoot ++ "/")).Descends := by
  by_cases hdir : before.look path = .dir
  · rw [denoted_destinationRoot_of_dir hdir]
    exact descends
  · rw [denoted_destinationRoot hdir]
    exact descends_directory descends

section Saved

variable (top : before.look "/" = .dir) (descends : (denoted path).Descends)
  (hname : segments name ≠ [])
  (prepared : Chart.Prepared (paths.setDestination before.look path) before ready)
  (written : ready.FileWritten after
    ((denoted ((paths.setDestination before.look path).destinationRoot ++ "/")).under name))

include descends prepared written

theorem look_saved_of_file (hfound : before.look path = .file) : after.look path = .file := by
  obtain ⟨hthere, hfile, hslash⟩ := Chart.look_eq_file_iff.mp hfound
  have hasked : (paths.setDestination before.look path).createDestination = false := by
    rw [setDestination_of_file hfound]
  obtain rfl := prepared.eq_of_not_asked hasked
  rw [denoted_destinationRoot (by simp [hfound])] at written
  have hsaved := written.file (absolute_eq_absolute_under path name) descends hfile
  exact Chart.look_eq_file_iff.mpr ⟨hthere, hsaved, hslash⟩

include hname in
theorem look_saved_of_dir (hfound : before.look path = .dir) : after.look path = .dir := by
  obtain ⟨hthere, hdir⟩ := Chart.look_eq_dir_iff.mp hfound
  have hasked : (paths.setDestination before.look path).createDestination = false := by
    rw [setDestination_of_dir hfound]
  obtain rfl := prepared.eq_of_not_asked hasked
  rw [denoted_destinationRoot_of_dir hfound] at written
  exact Chart.look_eq_dir_iff.mpr ⟨hthere, (written.directory descends hname).trans hdir⟩

include top hname in
/-- The directory of a destination that was missing is there. -/
theorem look_directory_saved (hfound : before.look path = .absent) :
    after.look (directory path) = .dir := by
  rw [denoted_destinationRoot (by simp [hfound])] at written
  have hkept := written.directory (descends_directory descends) hname
  exact Chart.look_eq_dir_iff.mpr
    ⟨directory_ne_empty path, hkept.trans (directory_prepared top hfound prepared)⟩

include top in
/-- A destination that was missing and has a file name is no directory. -/
theorem look_saved_ne_dir (hfound : before.look path = .absent)
    (hfile : segments (splitLast path).2 ≠ []) : after.look path ≠ .dir := by
  have hthere : path ≠ "" := by
    rintro rfl
    exact hfile rfl
  have hfree : before (denoted path) ≠ .dir := by
    intro hdir
    rw [Chart.look_eq_dir_iff.mpr ⟨hthere, hdir⟩] at hfound
    cases hfound
  rw [denoted_destinationRoot (by simp [hfound])] at written
  have hready := destination_prepared top descends hfile hfree prepared
  have hsaved := written.not_dir (absolute_eq_absolute_under path name) descends hready
  exact fun hdir => hsaved (Chart.look_eq_dir_iff.mp hdir).2

include top hname in
/-- A destination that was missing and names a directory is that directory. -/
theorem look_saved_of_unnamed (hfound : before.look path = .absent)
    (hslash : endsWithSlash path = true) (hfile : (splitLast path).2 = "") :
    after.look path = .dir := by
  have hdirectory := look_directory_saved top descends hname prepared written hfound
  have hthere : path ≠ "" := by
    rintro rfl
    cases hslash
  apply Chart.look_eq_dir_iff.mpr ⟨hthere, ?_⟩
  rw [← denoted_directory_of_unnamed hfile]
  exact (Chart.look_eq_dir_iff.mp hdirectory).2

include top hname in
/-- Once it is prepared and a file is written under its root, a destination is taken apart as
before. Only the root is there now. -/
theorem setDestination_saved (named : (splitLast path).2 ≠ ".") (again : TargetPaths) :
    again.setDestination after.look path =
      { again with
        destinationRoot := (paths.setDestination before.look path).destinationRoot
        destinationFile := (paths.setDestination before.look path).destinationFile
        createDestination := false } := by
  cases hfound : before.look path with
  | file =>
      have hsaved := look_saved_of_file descends prepared written hfound
      rw [setDestination_of_file hfound, setDestination_of_file hsaved]
  | dir =>
      have hsaved := look_saved_of_dir descends hname prepared written hfound
      rw [setDestination_of_dir hfound, setDestination_of_dir hsaved]
  | absent =>
      have hdirectory := look_directory_saved top descends hname prepared written hfound
      have hcreate : decide (after.look (directory path) ≠ .dir) = false := by
        rw [hdirectory]
        rfl
      by_cases hfile : (splitLast path).2 = ""
      · obtain rfl | ⟨hwhole, hslash⟩ := splitLast_of_snd_eq_empty hfile
        · have hsaved : after.look "" = .absent := rfl
          rw [setDestination_of_absent hfound, setDestination_of_absent hsaved, hcreate]
        · have hsaved :=
            look_saved_of_unnamed top descends hname prepared written hfound hslash hfile
          rw [setDestination_of_absent hfound, setDestination_of_dir hsaved, hwhole, if_pos hfile]
      · have hsegments : segments (splitLast path).2 ≠ [] := by
          rw [segments_of_name (not_mem_splitLast path) hfile named]
          exact List.cons_ne_nil _ _
        have hnodir := look_saved_ne_dir top descends prepared written hfound hsegments
        rw [setDestination_of_absent hfound, if_neg hfile]
        cases hsaved : after.look path with
        | file => rw [setDestination_of_file hsaved]
        | dir => exact absurd hsaved hnodir
        | absent => rw [setDestination_of_absent hsaved, if_neg hfile, hcreate]

end Saved

/-- The file name of a destination that does not step up is no step up. -/
theorem descends_destinationFile (descends : (denoted path).Descends) (paths : TargetPaths)
    (look : Look) : ".." ∉ segments (paths.setDestination look path).destinationFile := by
  have hdefault : ".." ∉ segments defaultFile := by decide
  have hname : ".." ∉ segments (splitLast path).2 := by
    rw [denoted_eq_under] at descends
    exact ( Denoted.descends_under.mp descends).2
  cases hfound : look path with
  | file =>
      rw [setDestination_of_file hfound]
      exact hname
  | dir =>
      rw [setDestination_of_dir hfound]
      exact hdefault
  | absent =>
      rw [setDestination_of_absent hfound]
      dsimp only
      split
      · exact hdefault
      · exact hname

end TargetPaths

end ResourceAssembler
