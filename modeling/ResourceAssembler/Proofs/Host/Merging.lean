import ResourceAssembler.Proofs.Host.Routes
import ResourceAssembler.Proofs.Host.Steady

/-!
# Worlds in which slashes merge

Two slashes in a path lead where one does, as long as the path is not too long for the world. On a
disk a path that is too long leads nowhere.
-/

namespace ResourceAssembler

open Paths

/-- Worlds in which two slashes lead where one does, in all paths that are
shorter than a limit in bytes. -/
class MergesSlashes (W : Type) [Host (StateM W)] where
  limit : Nat
  merges (front back : String) (world : W) :
    (front ++ "//" ++ back).utf8ByteSize < limit →
      seen world (front ++ "//" ++ back) = seen world (front ++ "/" ++ back)

theorem seen_slashes {W : Type} [Host (StateM W)] [MergesSlashes W] (world : W)
    (front back : String) (count : Nat)
    (short : (front ++ slashes count ++ "/" ++ back).utf8ByteSize < MergesSlashes.limit W) :
    seen world (front ++ slashes count ++ "/" ++ back) = seen world (front ++ "/" ++ back) :=
  eq_of_merges (fun front back => MergesSlashes.merges front back world) front back count short

namespace Disk

/-- A path that is too long leads nowhere. -/
theorem seen_of_long {path : String} (h : pathLimit ≤ path.utf8ByteSize) (disk : Disk) :
    seen disk path = .absent := by
  cases hroute : disk.route path with
  | ok found => exact absurd (route_eq_ok_iff.mp hroute).1.2.2 (Nat.not_lt.mpr h)
  | error fault =>
      change disk.look path = .absent
      unfold look status
      rw [hroute]
      rfl

/-- With one slash more a path starts at the same place and names the same on its way. -/
theorem route_merges {front back : String}
    (short : (front ++ "//" ++ back).utf8ByteSize < pathLimit) (disk : Disk) :
    disk.route (front ++ "//" ++ back) = disk.route (front ++ "/" ++ back) := by
  have hzero : (front ++ "//" ++ back).toList.contains '\x00' =
      (front ++ "/" ++ back).toList.contains '\x00' := by simp
  have hstart : disk.origin (front ++ "//" ++ back) = disk.origin (front ++ "/" ++ back) := by
    have habsolute := congrArg Denoted.absolute (denoted_merges front back)
    exact congrArg (fun absolute : Bool => if absolute then [] else disk.workingPlace) habsolute
  have hnames : names (front ++ "//" ++ back) = names (front ++ "/" ++ back) := by
    have hslash := names_append_slashes front 1
    rw [append_two_slashes, names_append_slash_append, names_append_slash_append]
    exact congrArg (· ++ names back) hslash
  have hshort : (front ++ "/" ++ back).utf8ByteSize < pathLimit := by
    have hone : "/".utf8ByteSize < "//".utf8ByteSize := by decide
    simp only [String.utf8ByteSize_append] at short ⊢
    omega
  rw [route_eq, route_eq, hzero, if_neg (by simp : ¬(front ++ "//" ++ back).isEmpty = true),
    if_neg (by simp : ¬(front ++ "/" ++ back).isEmpty = true), if_neg (Nat.not_le.mpr short),
    if_neg (Nat.not_le.mpr hshort), hstart, hnames]

instance : MergesSlashes Disk where
  limit := pathLimit
  merges front back disk short := by
    change disk.look (front ++ "//" ++ back) = disk.look (front ++ "/" ++ back)
    unfold look status
    rw [route_merges short, append_two_slashes, endsWithSlash_append_slash_append,
      endsWithSlash_append_slash_append]

end Disk

end ResourceAssembler
