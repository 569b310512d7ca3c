import ResourceAssembler.Host.Disk
import ResourceAssembler.Proofs.World

/-!
# Worlds with a tree of files

A tree says what stands at which place and to which place a path leads. A world has a tree if its
operations treat the tree as a file system does: questions leave it alone, and so does a write that
is refused, and creating a directory adds directories only, on the way to the one asked for. Which
operations fail is up to the world.
-/

namespace ResourceAssembler

/-- What stands where, and where paths lead. -/
structure Tree (Place : Type) where
  entry : Place → Option Disk.Entry
  place? : String → Option Place

namespace Tree

variable {Place : Type} {before after : Tree Place} {paths more : List String}

/-- The second tree is the first with directories added, to each of which one of the paths leads. -/
def DirsAdded (before after : Tree Place) (paths : List String) : Prop :=
  ∀ place, after.entry place = before.entry place ∨
    before.entry place = none ∧ after.entry place = some .dir ∧
      ∃ path ∈ paths, after.place? path = some place

theorem DirsAdded.refl (tree : Tree Place) (paths : List String) : DirsAdded tree tree paths :=
  fun _ => .inl rfl

theorem DirsAdded.mono (h : DirsAdded before after paths) (hsub : paths ⊆ more) :
    DirsAdded before after more := by
  intro place
  obtain hsame | ⟨hfree, hdir, path, hpath, hplace⟩ := h place
  · exact .inl hsame
  · exact .inr ⟨hfree, hdir, path, hsub hpath, hplace⟩

/-- Added directories neither add a file nor change or remove one. -/
theorem DirsAdded.file_iff (h : DirsAdded before after paths) (place : Place)
    (content : ByteArray) :
    after.entry place = some (.file content) ↔ before.entry place = some (.file content) := by
  obtain hsame | ⟨hfree, hdir, -⟩ := h place
  · rw [hsame]
  · rw [hfree, hdir]
    simp

end Tree

/-- What the operations of a host do to the tree of a world. -/
class FileTree (W : Type) [Host (StateM W)] where
  Place : Type
  tree : W → Tree Place
  look_keeps (paths : List String) (world : W) :
    tree (runOn (Host.look paths) world).2 = tree world
  read_keeps (paths : List String) (world : W) :
    tree (runOn (Host.read paths) world).2 = tree world
  /-- A write that is refused changes nothing. -/
  write_refused {path : String} {bytes : ByteArray} {world after : W} {fault : HostFault} :
    runOn (Host.write path bytes) world = (.error fault, after) → tree after = tree world
  /-- Creating a directory adds that one and those above it, as far as it gets. -/
  createDirAll_adds (path : String) (world : W) :
    Tree.DirsAdded (tree world) (tree (runOn (Host.createDirAll path) world).2)
      (Paths.ancestors path)

end ResourceAssembler
