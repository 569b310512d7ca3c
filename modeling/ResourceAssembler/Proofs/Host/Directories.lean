import ResourceAssembler.Proofs.Host.Chart
import ResourceAssembler.Proofs.Host.Disk

/-!
# Worlds that keep directories

What is there lies in a directory, and directories stay: a run creates some and writes files, but no
request of a run takes a directory away. A disk is such a world.
-/

namespace ResourceAssembler

open Outcome Paths

/-! ## What is there lies in a directory -/

/-- Answers of a file system in which every path that is there lies in a directory. So a path that
ends in a slash is there only if it is a directory without the slash. Left out are paths whose last
piece is ".", which stand for what they lie in. -/
def Look.Closed (look : Look) : Prop :=
  ∀ path, (splitLast path).2 ≠ "." → look path ≠ .absent → look (directory path) = .dir

namespace Disk

variable {disk : Disk} {path : String}

/-- A disk answers like this, whatever stands on it. -/
theorem closed_look (disk : Disk) : disk.look.Closed := by
  intro path _ hthere
  unfold look at hthere
  split at hthere
  case h_1 place hstatus => exact look_eq_dir_iff.mpr (status_directory hstatus)
  case h_2 place content hstatus => exact look_eq_dir_iff.mpr (status_directory hstatus)
  case h_3 => exact absurd rfl hthere

end Disk

/-! ## Directories stay -/

/-- Steady worlds in which a directory is there once it was created, and stays whatever
else is created and written. -/
class KeepsDirectories (W : Type) [Host (StateM W)] : Prop extends Steady W where
  createDirAll_makes {path : String} {world after : W} (there : path ≠ "") :
    runOn (Host.createDirAll path) world = (.ok (), after) → seen after path = .dir
  createDirAll_keeps {directory : String} (path : String) {world : W} :
    seen world directory = .dir → seen (runOn (Host.createDirAll path) world).2 directory = .dir
  write_keeps {directory : String} (path : String) (bytes : ByteArray) {world : W} :
    seen world directory = .dir → seen (runOn (Host.write path bytes) world).2 directory = .dir

namespace Disk

/-- A file is written at no directory's place. -/
theorem keepsDirs_write {disk after : Disk} {path : String} {content : ByteArray}
    (h : disk.write path content = .ok after) : KeepsDirs disk after := by
  obtain ⟨place, -, hrest⟩ := bind_eq_ok_iff.mp h
  obtain ⟨-, hput⟩ := guard_eq_ok_iff.mp hrest
  split at hput
  case h_1 => exact absurd hput throw_ne_ok
  case h_2 hfree =>
    obtain rfl : after = disk.insert place (.file content) := pure_eq_ok_iff.mp hput
    have htop : place ≠ [] := by
      rintro rfl
      exact hfree rfl
    refine ⟨rfl, fun {other} hdir => ?_⟩
    have hother : other ≠ place := by
      rintro rfl
      exact hfree hdir
    rw [find?_insert htop, if_neg hother, hdir]

theorem look_of_makeDir {disk after : Disk} {path : String} (h : disk.makeDir path = .ok after) :
    after.look path = .dir := by
  obtain ⟨place, -, -, hstatus⟩ := makeDir_eq_ok h
  exact look_eq_dir_iff.mpr ⟨place, hstatus⟩

/-- A directory that could not be created is there if that is answered to be no fault. -/
theorem look_of_unmade {disk after : Disk} {path : String} {fault : HostFault}
    (h : ((if disk.look path = .dir then .ok () else .error fault : Except HostFault Unit), disk) =
      (.ok (), after)) : after.look path = .dir := by
  split at h
  case isTrue hdir =>
    cases h
    exact hdir
  case isFalse => cases h

/-- A directory that was asked for is there, whether or not it was there before. -/
theorem look_of_makeDirs {disk after : Disk} {path : String} {above : List String}
    (there : path ≠ "")
    (h : disk.makeDirs (path :: above) = (.ok (), after)) : after.look path = .dir := by
  unfold makeDirs at h
  split at h
  case isTrue hempty => exact absurd (String.isEmpty_iff.mp hempty) there
  case isFalse =>
    split at h
    case h_1 made hmake =>
      cases h
      exact look_of_makeDir hmake
    case h_2 =>
      split at h
      case h_1 => cases h
      case h_2 =>
        split at h
        case h_1 made hmake =>
          cases h
          exact look_of_makeDir hmake
        case h_2 => exact look_of_unmade h
    case h_3 => exact look_of_unmade h

instance : KeepsDirectories Disk where
  createDirAll_makes there h := look_of_makeDirs there h
  createDirAll_keeps path disk h := (grown_makeDirs disk _).kept.keepsDirs.look h
  write_keeps {directory} path bytes disk h := by
    have hrun : runOn (Host.write path bytes) disk = match disk.write path bytes with
      | .ok disk => (.ok (), disk)
      | .error fault => (.error fault, disk) := rfl
    rw [hrun]
    cases hwritten : disk.write path bytes with
    | ok after => exact (keepsDirs_write hwritten).look h
    | error fault => exact h

end Disk

end ResourceAssembler
