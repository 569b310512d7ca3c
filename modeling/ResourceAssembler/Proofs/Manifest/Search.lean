import Mathlib.Data.List.Find
import ResourceAssembler.Manifest
import ResourceAssembler.Proofs.Host.Steady
import ResourceAssembler.Proofs.Paths.Ancestors

/-!
# The nearest manifest

The manifest for a directory is looked for in the directory itself and then upwards.
The first directory that holds one settles what is found, be it a manifest or a
failure, and nothing further up is read.
-/

namespace ResourceAssembler.Manifest

open Paths

variable {W : Type} [Host (StateM W)]

/-- A directory holds a manifest if a regular file stands in it under the name of manifests. -/
def HeldIn (world : W) (dir : String) : Prop :=
  seen world (pathIn dir) = .file

/-- What comes of the manifest that a directory holds: its content, with the
directory, or why there is none. -/
def outcomeIn (world : W) (dir : String) : Except Failure (Option (Manifest × String)) :=
  match (runOn (Host.read [pathIn dir]) world).1.text (pathIn dir) with
  | .error fault => .error { contexts := [s!"reading {pathIn dir}"], cause := .host fault }
  | .ok text =>
    match parse? text with
    | none => .error { contexts := [s!"parsing {pathIn dir}"], cause := .toml }
    | some manifest => .ok (some (manifest, dir))

/-- A directory that holds a manifest does not pass for one that holds none. -/
theorem outcomeIn_ne_none (world : W) (dir : String) : outcomeIn world dir ≠ .ok none := by
  unfold outcomeIn
  intro h
  split at h
  · cases h
  · split at h <;> cases h

/-- A manifest is loaded from the file that stands in the directory under the name of manifests. -/
theorem map_load (world : W) (dir : String) :
    (load (runOn (Host.read [pathIn dir]) world).1 (pathIn dir)).map
      (fun manifest => some (manifest, dir)) = outcomeIn world dir := by
  unfold load outcomeIn
  cases (runOn (Host.read [pathIn dir]) world).1.text (pathIn dir) with
  | error fault => rfl
  | ok text =>
      rw [Cause.raise, Failure.inContext, Outcome.mapError_ok, Outcome.mapError_ok]
      change (pure text >>= _ : Except Failure Manifest).map _ = _
      rw [pure_bind]
      dsimp only
      cases hparsed : parse? text with
      | none => rfl
      | some manifest => rfl

variable {world : W} {start dir : String}

theorem locate?_eq_none_iff :
    locate? (seen world) start = none ↔ ∀ dir ∈ candidates start, ¬HeldIn world dir := by
  simp [locate?, HeldIn, List.find?_eq_none]

theorem locate?_eq_some_iff :
    locate? (seen world) start = some dir ↔ HeldIn world dir ∧ ∃ nearer further,
      candidates start = nearer ++ dir :: further ∧ ∀ other ∈ nearer, ¬HeldIn world other := by
  simp [locate?, HeldIn, List.find?_eq_some_iff_append]

variable [Steady W]

theorem locate?_look (start : String) (world : W) :
    locate? (runOn (Host.look ((candidates start).map pathIn)) world).1 start =
      locate? (seen world) start := by
  apply List.find?_congr
  intro dir hdir
  rw [look_eq_seen (List.mem_map_of_mem hdir)]

theorem runOn_find_of_none (h : locate? (seen world) start = none) :
    runOn (find start) world = (.ok none, world) := by
  unfold find
  rw [runOn_bind, locate?_look, Steady.look_keeps, h]
  rfl

theorem runOn_find_of_some (h : locate? (seen world) start = some dir) :
    runOn (find start) world = (outcomeIn world dir, world) := by
  unfold find
  rw [runOn_bind, locate?_look, Steady.look_keeps, h]
  dsimp only
  rw [runOn_bind, runOn_pure, Steady.read_keeps, map_load]

/-- The search from every absolute directory, in every steady world. It goes through that directory
and those above it, the nearest first, which are as many as the path has segments, up to the top.
Nothing is found exactly if no regular file is the manifest of one of them. Otherwise the nearest
one that holds such a file settles the outcome, whatever stands in those further up; those nearer
may hold a directory of that name. -/
theorem nearest_manifest_decides (start : String) (habsolute : isAbsolute start = true)
    (world : W) :
    ((candidates start).head? = some start ∧
      (candidates start).map denoted = placesUpwards (segments start)) ∧
    (runOn (find start) world = (.ok none, world) ↔
      ∀ dir ∈ candidates start, ¬HeldIn world dir) ∧
    ∀ nearer dir further, candidates start = nearer ++ dir :: further →
      (∀ other ∈ nearer, ¬HeldIn world other) → HeldIn world dir →
        runOn (find start) world = (outcomeIn world dir, world) := by
  refine ⟨⟨rfl, map_denoted_ancestors habsolute⟩, ?nothing, ?nearest⟩
  case nothing =>
    rw [← locate?_eq_none_iff]
    refine ⟨fun hnothing => ?_, runOn_find_of_none⟩
    cases hlocated : locate? (seen world) start with
    | none => rfl
    | some dir =>
        rw [runOn_find_of_some hlocated] at hnothing
        exact absurd (Prod.mk.inj hnothing).1 (outcomeIn_ne_none world dir)
  case nearest =>
    intro nearer dir further hsplit hnearer hheld
    exact runOn_find_of_some (locate?_eq_some_iff.mpr ⟨hheld, nearer, further, hsplit, hnearer⟩)

/-- A manifest that is none is not replaced by the one above it, and a directory
of its name is passed over. -/
def yard : Disk :=
  { entries := [(["kdl.toml"], .file "[project]\nname = \"yard\"\n".toUTF8),
      (["dock"], .dir), (["dock", "kdl.toml"], .file "=".toUTF8),
      (["dock", "hull"], .dir), (["dock", "hull", "kdl.toml"], .dir)] }

theorem nearest_manifest_decides_in_yard :
    isAbsolute "/dock/hull" = true ∧
      candidates "/dock/hull" = ["/dock/hull"] ++ "/dock" :: ["/"] ∧
      ¬HeldIn yard "/dock/hull" ∧ HeldIn yard "/dock" ∧ HeldIn yard "/" ∧
      runOn (find "/dock/hull") yard =
        (.error { contexts := ["parsing /dock/kdl.toml"], cause := .toml }, yard) := by
  have habsolute : isAbsolute "/dock/hull" = true := by decide
  have hsplit : candidates "/dock/hull" = ["/dock/hull"] ++ "/dock" :: ["/"] := by decide
  have hhull : ¬HeldIn yard "/dock/hull" := by unfold HeldIn; decide
  have hdock : HeldIn yard "/dock" := by unfold HeldIn; decide
  have htop : HeldIn yard "/" := by unfold HeldIn; decide
  have hnearer : ∀ other ∈ ["/dock/hull"], ¬HeldIn yard other := by
    intro other hother
    rwa [List.mem_singleton.mp hother]
  have hfound := (nearest_manifest_decides "/dock/hull" habsolute yard).2.2 _ _ _ hsplit hnearer
    hdock
  have htext : (runOn (Host.read [pathIn "/dock"]) yard).1.text (pathIn "/dock") = .ok "=" := by
    decide +kernel
  have hparsed : parse? "=" = none := by decide +kernel
  refine ⟨habsolute, hsplit, hhull, hdock, htop, hfound.trans ?_⟩
  rw [outcomeIn, htext]
  dsimp only
  rw [hparsed]
  rfl

end ResourceAssembler.Manifest
