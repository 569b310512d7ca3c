import ResourceAssembler.Proofs.Container.Placement
import Mathlib.Data.List.Forall2

/-!
# Regions of bytes

What a container says of where its parts are comes down to regions of its bytes. Regions tile a
stretch if each of them starts where the one before ends: then no byte of the stretch is left out,
and none belongs to two of them.
-/

namespace ResourceAssembler.Container

/-- Some bytes of a container, by where they start and where they end. -/
structure Region where
  start : Nat
  stop : Nat
deriving DecidableEq, Repr

def Region.length (region : Region) : Nat :=
  region.stop - region.start

/-- The place lies in the region. -/
def Region.Has (region : Region) (place : Nat) : Prop :=
  region.start ≤ place ∧ place < region.stop

/-- The block is what stands in the region. -/
structure Region.Contains (bytes : List UInt8) (region : Region) (block : List UInt8) : Prop where
  stop : region.stop = region.start + block.length
  holds : Holds bytes region.start block

/-- The regions follow one another from the start of a stretch to its end. -/
def Tiles : (start stop : Nat) → List Region → Prop
  | start, stop, [] => start = stop
  | start, stop, region :: rest =>
    region.start = start ∧ start ≤ region.stop ∧ Tiles region.stop stop rest

/-- A row of regions tiles a stretch if its parts tile the two sides of some place in it. -/
theorem tiles_append {start stop : Nat} {first second : List Region} :
    Tiles start stop (first ++ second) ↔
      ∃ middle, Tiles start middle first ∧ Tiles middle stop second := by
  induction first generalizing start with
  | nil =>
      constructor
      · intro h
        exact ⟨start, rfl, h⟩
      · rintro ⟨middle, rfl, h⟩
        exact h
  | cons region rest ih =>
      rw [List.cons_append, Tiles, ih]
      constructor
      · rintro ⟨hstart, hle, middle, hrest, hsecond⟩
        exact ⟨middle, ⟨hstart, hle, hrest⟩, hsecond⟩
      · rintro ⟨middle, ⟨hstart, hle, hrest⟩, hsecond⟩
        exact ⟨hstart, hle, middle, hrest, hsecond⟩

theorem Tiles.le_start {start stop : Nat} {regions : List Region} (h : Tiles start stop regions) :
    ∀ region ∈ regions, start ≤ region.start := by
  induction regions generalizing start with
  | nil => exact fun region hregion => absurd hregion List.not_mem_nil
  | cons first rest ih =>
      obtain ⟨hstart, hle, hrest⟩ := h
      rw [List.forall_mem_cons]
      exact ⟨Nat.le_of_eq hstart.symm,
        fun region hregion => Nat.le_trans hle (ih hrest region hregion)⟩

/-- A place in a tiled stretch lies in exactly one of the regions. -/
theorem Tiles.existsUnique {start stop place : Nat} {regions : List Region}
    (h : Tiles start stop regions) (hstart : start ≤ place) (hstop : place < stop) :
    ∃! region, region ∈ regions ∧ region.Has place := by
  induction regions generalizing start with
  | nil => exact absurd (Nat.lt_of_le_of_lt hstart hstop) (Nat.ne_of_lt · h)
  | cons first rest ih =>
      obtain ⟨rfl, -, hrest⟩ := h
      by_cases hplace : place < first.stop
      · refine ⟨first, ⟨List.mem_cons_self, hstart, hplace⟩, ?_⟩
        rintro other ⟨hother, hle, -⟩
        -- The regions behind the first one start where it ends or later.
        rcases List.mem_cons.mp hother with rfl | hother
        · rfl
        · have hlater := hrest.le_start other hother
          omega
      · obtain ⟨region, ⟨hregion, hhas⟩, hunique⟩ := ih hrest (Nat.le_of_not_lt hplace)
        refine ⟨region, ⟨List.mem_cons_of_mem first hregion, hhas⟩, ?_⟩
        rintro other ⟨hother, hotherHas⟩
        rcases List.mem_cons.mp hother with rfl | hother
        · exact absurd hotherHas.2 hplace
        · exact hunique other ⟨hother, hotherHas⟩

/-- Regions of the given lengths, the first of which starts at `start`. -/
def regionsFrom (start : Nat) : List Nat → List Region
  | [] => []
  | length :: rest => ⟨start, start + length⟩ :: regionsFrom (start + length) rest

theorem tiles_regionsFrom (start : Nat) (lengths : List Nat) :
    Tiles start (start + total id lengths) (regionsFrom start lengths) := by
  induction lengths generalizing start with
  | nil => rfl
  | cons length rest ih =>
      have hrest := ih (start + length)
      rw [Nat.add_assoc] at hrest
      exact ⟨rfl, Nat.le_add_right start length, hrest⟩

/-- Blocks that stand one behind the other leave nothing out of the stretch they take up. -/
theorem tiles_blocks (start : Nat) (blocks : List (List UInt8)) :
    Tiles start (start + blocks.flatten.length) (regionsFrom start (blocks.map (·.length))) := by
  have hlength : total id (blocks.map (·.length)) = blocks.flatten.length := by
    rw [total_map, List.flatten_eq_flatMap, ← total_length]
    rfl
  rw [← hlength]
  exact tiles_regionsFrom start (blocks.map (·.length))

theorem map_length_regionsFrom (start : Nat) (lengths : List Nat) :
    (regionsFrom start lengths).map (·.length) = lengths := by
  induction lengths generalizing start with
  | nil => rfl
  | cons length rest ih =>
      rw [regionsFrom, List.map_cons, ih, Region.length, Nat.add_sub_cancel_left]

@[simp] theorem length_regionsFrom (start : Nat) (lengths : List Nat) :
    (regionsFrom start lengths).length = lengths.length := by
  rw [← List.length_map (·.length), map_length_regionsFrom]

/-- Blocks that stand one behind the other stand in the regions of their lengths. -/
theorem contains_regionsFrom {bytes : List UInt8} {start : Nat} {blocks : List (List UInt8)}
    (h : Holds bytes start blocks.flatten) :
    List.Forall₂ (Region.Contains bytes) (regionsFrom start (blocks.map (·.length))) blocks := by
  induction blocks generalizing start with
  | nil => exact .nil
  | cons block rest ih =>
      rw [List.flatten_cons, holds_append] at h
      exact .cons ⟨rfl, h.1⟩ (ih h.2)

end ResourceAssembler.Container
