import ResourceAssembler.Proofs.Command.Keeping

/-!
# Steady worlds

A steady world is one that nothing but the requests of a run changes. Questions and readings leave
it as it is, and a question about a path has one answer, whatever else is asked along with it. So
all that is decided on answers is decided on what is seen of the world. To say what is demanded of a
world, its changes are noted down.
-/

namespace ResourceAssembler

/-- Worlds that only the requests of a run change, and whose top is a directory. -/
class Steady (W : Type) [Host (StateM W)] : Prop where
  look_keeps (paths : List String) (world : W) : (runOn (Host.look paths) world).2 = world
  read_keeps (paths : List String) (world : W) : (runOn (Host.read paths) world).2 = world
  look_agrees {path : String} {paths others : List String} (world : W) :
    path ∈ paths → path ∈ others →
      (runOn (Host.look paths) world).1 path = (runOn (Host.look others) world).1 path
  top_is_dir (world : W) : (runOn (Host.look ["/"]) world).1 "/" = .dir

variable {W : Type} [Host (StateM W)]

/-- What the paths of a world lead to. -/
def seen (world : W) : Look :=
  fun path => (runOn (Host.look [path]) world).1 path

section Steady

variable [Steady W]

theorem seen_top (world : W) : seen world "/" = .dir :=
  Steady.top_is_dir world

/-- An answer is what is seen, for the paths that are asked about. -/
theorem look_eq_seen {path : String} {paths : List String} (h : path ∈ paths) (world : W) :
    (runOn (Host.look paths) world).1 path = seen world path :=
  Steady.look_agrees world h (List.mem_singleton_self path)

theorem lasting_eq (world : W) : Lasting (· = world) where
  look paths {_} h := h ▸ Steady.look_keeps paths _
  read paths {_} h := h ▸ Steady.read_keeps paths _

end Steady

instance : Steady Disk where
  look_keeps _ _ := rfl
  read_keeps _ _ := rfl
  look_agrees _ _ _ := rfl
  top_is_dir _ := rfl

/-! ## Demands -/

/-- A change that is demanded of a world. -/
inductive Demand where
  | createDirAll (path : String)
  | write (path : String) (bytes : ByteArray)

/-- A world with the changes that were demanded of it, in order, whether or not they were made. -/
structure Attended (W : Type) where
  world : W
  demands : List Demand := []

namespace Attended

instance : Host (StateM (Attended W)) where
  look paths := fun attended =>
    let (look, world) := runOn (Host.look paths) attended.world
    (look, { attended with world })
  read paths := fun attended =>
    let (read, world) := runOn (Host.read paths) attended.world
    (read, { attended with world })
  createDirAll path := fun attended =>
    let (result, world) := runOn (Host.createDirAll path) attended.world
    (result, ⟨world, attended.demands ++ [.createDirAll path]⟩)
  write path bytes := fun attended =>
    let (result, world) := runOn (Host.write path bytes) attended.world
    (result, ⟨world, attended.demands ++ [.write path bytes]⟩)

theorem demands_createDirAll (path : String) (attended : Attended W) :
    (runOn (Host.createDirAll path) attended).2.demands =
      attended.demands ++ [.createDirAll path] := rfl

theorem demands_write (path : String) (bytes : ByteArray) (attended : Attended W) :
    (runOn (Host.write path bytes) attended).2.demands =
      attended.demands ++ [.write path bytes] := rfl

instance [Steady W] : Steady (Attended W) where
  look_keeps paths attended :=
    congrArg (Attended.mk · attended.demands) (Steady.look_keeps paths attended.world)
  read_keeps paths attended :=
    congrArg (Attended.mk · attended.demands) (Steady.read_keeps paths attended.world)
  look_agrees attended := Steady.look_agrees attended.world
  top_is_dir attended := Steady.top_is_dir attended.world

end Attended

end ResourceAssembler
