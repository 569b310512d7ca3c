import ResourceAssembler.Host.Disk
import ResourceAssembler.Proofs.Outcome
import ResourceAssembler.Proofs.Paths.Splitting

/-!
# The way along a path on a disk

A path that a disk follows is walked name by name from where it starts, and every step is made from
a directory. So the way to the directory in which a path lies is the way along the path but for its
last name, and whatever a path leads to lies in a directory.
-/

namespace ResourceAssembler.Disk

open Outcome Paths

variable {disk : Disk} {path : String}

/-- The names on the way along a path. -/
def names (path : String) : List String :=
  ((splitPieces path.toList).filter (· ≠ [])).map String.ofList

/-- Where a path starts on a disk. -/
def origin (disk : Disk) (path : String) : List String :=
  if isAbsolute path then [] else disk.workingPlace

/-- Paths that a disk follows. -/
def Routable (path : String) : Prop :=
  '\x00' ∉ path.toList ∧ path ≠ "" ∧ path.utf8ByteSize < pathLimit

theorem route_eq (disk : Disk) (path : String) :
    disk.route path =
      if path.toList.contains '\x00' then .error .zeroInName
      else if path.isEmpty then .error .notFound
      else if path.utf8ByteSize ≥ pathLimit then .error .nameTooLong
      else .ok (disk.origin path, names path) := rfl

theorem route_eq_ok_iff {found : List String × List String} :
    disk.route path = .ok found ↔ Routable path ∧ found = (disk.origin path, names path) := by
  rw [route_eq]
  split
  case isTrue hzero => simp_all [Routable]
  case isFalse hzero =>
    split
    case isTrue hempty => simp_all [Routable]
    case isFalse hempty =>
      split
      case isTrue hlong => simp [Routable, Nat.not_lt.mpr hlong]
      case isFalse hshort =>
        have hroutable : Routable path := by
          simpa [Routable] using And.intro hzero (And.intro hempty hshort)
        rw [Except.ok.injEq, eq_comm]
        exact (and_iff_right hroutable).symm

theorem names_append_slash_append (front back : String) :
    names (front ++ "/" ++ back) = names front ++ names back := by
  have htext : (front ++ "/" ++ back).toList = front.toList ++ '/' :: back.toList := by simp
  simp only [names, htext, splitPieces_append_slash, List.filter_append, List.map_append]

theorem names_of_not_mem (h : '/' ∉ path.toList) :
    names path = if path = "" then [] else [path] := by
  rw [names, splitPieces_of_not_mem h]
  by_cases hempty : path = ""
  · simp [hempty]
  · simp [hempty]

theorem names_empty : names "" = [] := rfl

/-- Slashes at the end name nothing. -/
theorem names_append_slashes (path : String) (count : Nat) :
    names (path ++ slashes count) = names path := by
  induction count with
  | zero => exact congrArg names String.append_empty
  | succ count ih =>
      have hlast := names_append_slash_append (path ++ slashes count) ""
      rwa [String.append_empty, String.append_assoc, ← slashes_succ, names_empty, List.append_nil,
        ih] at hlast

/-- A step leads from a directory. -/
theorem find?_of_step {place next : List String} {name : String}
    (h : disk.step place name = .ok next) :
    disk.find? place = some .dir := by
  unfold step at h
  split at h
  case h_1 hdir => exact hdir
  case h_2 => cases h
  case h_3 => cases h

theorem walk_append (start : List String) (front back : List String) :
    disk.walk start (front ++ back) = disk.walk start front >>= (disk.walk · back) :=
  List.foldlM_append

/-- What a path leads to is what stands at the end of its way, which is a directory if
the path ends in a slash. -/
theorem status_eq_ok_iff {place : List String} {entry : Entry} :
    disk.status path = .ok (place, entry) ↔
      Routable path ∧ disk.walk (disk.origin path) (names path) = .ok place ∧
        disk.find? place = some entry ∧ (endsWithSlash path = true → entry = .dir) := by
  unfold status
  simp only [bind_eq_ok_iff, route_eq_ok_iff]
  constructor
  · rintro ⟨found, ⟨hroutable, rfl⟩, reached, hwalk, hentry⟩
    refine ⟨hroutable, ?_⟩
    split at hentry
    case h_1 => exact absurd hentry throw_ne_ok
    case h_2 hdir =>
      cases hentry
      exact ⟨hwalk, hdir, fun _ => rfl⟩
    case h_3 content hfile =>
      split at hentry
      · exact absurd hentry throw_ne_ok
      case isFalse hslash =>
        cases hentry
        exact ⟨hwalk, hfile, fun h => absurd h hslash⟩
  · rintro ⟨hroutable, hwalk, hfound, hslash⟩
    refine ⟨_, ⟨hroutable, rfl⟩, place, hwalk, ?_⟩
    rw [hfound]
    cases entry with
    | dir => rfl
    | file content =>
        have hopen : ¬endsWithSlash path = true := fun h => by cases hslash h
        dsimp only
        rw [if_neg hopen]
        rfl

theorem routable_of_append {front back : String} (h : Routable (front ++ back))
    (hfront : front ≠ "") :
    Routable front := by
  obtain ⟨hzero, -, hshort⟩ := h
  rw [String.toList_append, List.mem_append, not_or] at hzero
  rw [String.utf8ByteSize_append] at hshort
  exact ⟨hzero.1, hfront, by omega⟩

theorem look_eq_dir_iff :
    disk.look path = .dir ↔ ∃ place, disk.status path = .ok (place, .dir) := by
  unfold look
  split
  case h_1 place hstatus => simp [hstatus]
  case h_2 place content hstatus => simp [hstatus]
  case h_3 fault hstatus => simp [hstatus]

/-- The way along a path, up to its last name, is the way to the directory in which it lies. A name
in the working directory has no way before it. -/
theorem way_to_directory (h : Routable path) (disk : Disk) :
    Routable (directory path) ∧ disk.origin (directory path) = disk.origin path ∧
      ((∃ file, '/' ∉ file.toList ∧ (file = "" → endsWithSlash path = true) ∧
          names path = names (directory path) ++ names file) ∨
        directory path = "." ∧ names path = [path]) := by
  obtain ⟨count, file, hpath, hfile⟩ | ⟨count, file, htop, hpath, hfile⟩ | ⟨hhere, hpath⟩ :=
    directory_cases path
  · have hnames : names path = names (directory path) ++ names file := by
      rw [← names_append_slashes (directory path) count, ← names_append_slash_append, ← hpath]
    have hslash : file = "" → endsWithSlash path = true := by
      rintro rfl
      rw [hpath, String.append_empty]
      exact endsWithSlash_append_slash _
    rw [String.append_assoc, String.append_assoc] at hpath
    have hstart : isAbsolute path = isAbsolute (directory path) := by
      refine (congrArg isAbsolute hpath).trans ?_
      rw [isAbsolute_append, if_neg (directory_ne_empty path)]
    refine ⟨?_, by rw [origin, origin, hstart], .inl ⟨file, hfile, hslash, hnames⟩⟩
    rw [hpath] at h
    exact routable_of_append h (directory_ne_empty path)
  · have hnothing : names (slashes count) = names "/" := by
      have hslashes := names_append_slashes "" count
      rwa [String.empty_append] at hslashes
    have hstart : isAbsolute path = isAbsolute "/" := by
      rw [hpath]
      cases count <;> simp [isAbsolute, slashes, List.replicate_succ]
    rw [htop]
    refine ⟨⟨by decide, by decide, by decide⟩, by rw [origin, origin, hstart],
      .inl ⟨file, hfile, ?_, ?_⟩⟩
    · rintro rfl
      rw [hpath, String.append_empty]
      exact endsWithSlash_append_slash _
    · rw [hpath, names_append_slash_append, hnothing]
  · have hstart : isAbsolute path = isAbsolute "." := isAbsolute_of_not_mem hpath
    rw [hhere]
    refine ⟨⟨by decide, by decide, by decide⟩, by rw [origin, origin, hstart], .inr ⟨rfl, ?_⟩⟩
    rw [names_of_not_mem hpath, if_neg h.2.1]

/-- What is there lies in a directory, to which the path leads without its last name. -/
theorem status_directory {place : List String} {entry : Entry}
    (h : disk.status path = .ok (place, entry)) :
    ∃ above, disk.status (directory path) = .ok (above, .dir) := by
  obtain ⟨hroutable, hwalk, hfound, hslash⟩ := status_eq_ok_iff.mp h
  obtain ⟨hdirectory, horigin, ⟨file, hfile, hopen, hnames⟩ | ⟨hhere, hnames⟩⟩ :=
    way_to_directory hroutable disk
  · rw [hnames, walk_append, ← horigin] at hwalk
    obtain ⟨above, hway, hlast⟩ := bind_eq_ok_iff.mp hwalk
    refine ⟨above, status_eq_ok_iff.mpr ⟨hdirectory, hway, ?_, fun _ => rfl⟩⟩
    rw [names_of_not_mem hfile] at hlast
    by_cases hempty : file = ""
    · rw [if_pos hempty] at hlast
      cases hlast
      rw [hfound, hslash (hopen hempty)]
    · rw [if_neg hempty] at hlast
      obtain ⟨next, hstep, -⟩ := bind_eq_ok_iff.mp hlast
      exact find?_of_step hstep
  · rw [hnames] at hwalk
    obtain ⟨next, hstep, -⟩ := bind_eq_ok_iff.mp hwalk
    have hdir := find?_of_step hstep
    refine ⟨disk.origin path, status_eq_ok_iff.mpr ⟨hdirectory, ?_, hdir, fun _ => rfl⟩⟩
    have hstay : disk.step (disk.origin path) "." = .ok (disk.origin path) := by
      simp [step, hdir]
    rw [horigin, hhere]
    exact bind_eq_ok_iff.mpr ⟨_, hstay, rfl⟩

end ResourceAssembler.Disk
