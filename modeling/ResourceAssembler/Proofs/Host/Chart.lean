import ResourceAssembler.Host.Sketch
import ResourceAssembler.Proofs.Host.Steady

/-!
# Worlds with a chart

A chart says what stands at each place, where places are what paths denote. In a world with a chart,
a directory that is created stands at its place, where a directory above it may have been created as
well, and a file that is written stands at its place. The names ".." in a path are left out: what
they lead to is up to the world.
-/

namespace ResourceAssembler

open Paths

/-- No name on the way to the place leads up. -/
def Paths.Denoted.Descends (place : Denoted) : Prop :=
  ".." ∉ place.segments

instance (place : Denoted) : Decidable place.Descends :=
  inferInstanceAs (Decidable (".." ∉ place.segments))

/-- What stands at the places that paths denote. -/
abbrev Chart := Denoted → Presence

namespace Chart

/-- What a path leads to by a chart. The empty path leads nowhere, and a file is not found under a
path that ends in a slash. -/
def look (chart : Chart) : Look := fun path =>
  if path = "" then .absent
  else if chart (denoted path) = .file ∧ endsWithSlash path = true then .absent
  else chart (denoted path)

theorem look_eq_iff {chart : Chart} {path : String} {found : Presence} (h : found ≠ .absent) :
    chart.look path = found ↔ path ≠ "" ∧ chart (denoted path) = found ∧
      (found = .file → endsWithSlash path = false) := by
  unfold look
  by_cases hempty : path = ""
  · simp [hempty, h.symm]
  · by_cases hfile : chart (denoted path) = .file
    · by_cases hslash : endsWithSlash path = true
      · simp only [hempty, hfile, hslash, and_self, if_true, if_false]
        constructor
        · exact fun hfound => absurd hfound.symm h
        · rintro ⟨-, rfl, hopen⟩
          exact absurd (hopen rfl) (by simp)
      · simp [hempty, hfile, hslash]
    · simp only [hempty, hfile, false_and, if_false, ne_eq, not_false_eq_true, true_and]
      constructor
      · rintro rfl
        exact ⟨rfl, fun hfound => absurd hfound hfile⟩
      · exact And.left

theorem look_eq_dir_iff {chart : Chart} {path : String} :
    chart.look path = .dir ↔ path ≠ "" ∧ chart (denoted path) = .dir := by
  have hthere : Presence.dir ≠ .absent := by decide
  simp [look_eq_iff hthere]

theorem look_eq_file_iff {chart : Chart} {path : String} :
    chart.look path = .file ↔
      path ≠ "" ∧ chart (denoted path) = .file ∧ endsWithSlash path = false := by
  have hthere : Presence.file ≠ .absent := by decide
  simp [look_eq_iff hthere]

/-- The later chart has a directory at the place. Apart from that there are at most new directories
above it. -/
structure DirMade (before after : Chart) (place : Denoted) : Prop where
  made : after place = .dir
  kept {other : Denoted} (start : other.absolute = place.absolute) (descends : other.Descends) :
    after other = before other ∨ after other = .dir ∧ other.segments <+: place.segments

/-- The later chart has a file at the place, unless a directory stands there. Apart from
that nothing has changed. -/
structure FileWritten (before after : Chart) (place : Denoted) : Prop where
  written : after place = if before place = .dir then .dir else .file
  kept {other : Denoted} (start : other.absolute = place.absolute) (descends : other.Descends)
    (elsewhere : other ≠ place) : after other = before other

end Chart

/-- Steady worlds in which a chart tells what paths lead to. It is changed by
the requests that succeed. -/
class Charted (W : Type) [Host (StateM W)] extends Steady W where
  chart : W → Chart
  seen_eq {path : String} (descends : (denoted path).Descends) (world : W) :
    seen world path = (chart world).look path
  createDirAll_makes {path : String} {world after : W} (descends : (denoted path).Descends)
    (there : path ≠ "") : runOn (Host.createDirAll path) world = (.ok (), after) →
      (chart world).DirMade (chart after) (denoted path)
  write_writes {path : String} {bytes : ByteArray} {world after : W}
    (descends : (denoted path).Descends) (there : path ≠ "") :
    runOn (Host.write path bytes) world = (.ok (), after) →
      (chart world).FileWritten (chart after) (denoted path)

section Attended

variable {W : Type} [Host (StateM W)] {attended after : Attended W} {path : String}
  {result : Except HostFault Unit}

theorem Attended.runOn_createDirAll
    (h : runOn (Host.createDirAll path) attended = (result, after)) :
    runOn (Host.createDirAll path) attended.world = (result, after.world) := by
  have hresult : (runOn (Host.createDirAll path) attended).1 = result := congrArg Prod.fst h
  have hworld : (runOn (Host.createDirAll path) attended).2.world = after.world :=
    congrArg (fun ran => ran.2.world) h
  exact Prod.ext hresult hworld

theorem Attended.runOn_write {bytes : ByteArray}
    (h : runOn (Host.write path bytes) attended = (result, after)) :
    runOn (Host.write path bytes) attended.world = (result, after.world) := by
  have hresult : (runOn (Host.write path bytes) attended).1 = result := congrArg Prod.fst h
  have hworld : (runOn (Host.write path bytes) attended).2.world = after.world :=
    congrArg (fun ran => ran.2.world) h
  exact Prod.ext hresult hworld

/-- The demands on a world have no part in its chart. -/
instance [Charted W] : Charted (Attended W) where
  chart attended := Charted.chart attended.world
  seen_eq descends attended := Charted.seen_eq descends attended.world
  createDirAll_makes descends there h :=
    Charted.createDirAll_makes descends there (Attended.runOn_createDirAll h)
  write_writes descends there h :=
    Charted.write_writes descends there (Attended.runOn_write h)

end Attended

namespace Sketch

/-- The chart of a sketch. -/
def chart (sketch : Sketch) : Chart := fun place =>
  if place ∈ fixedDirs ++ sketch.dirs then .dir
  else if place ∈ sketch.files then .file
  else .absent

theorem key?_of_ne {path : String} (h : path ≠ "") : key? path = some (denoted path) := by
  simp [key?, h]

theorem look_eq (sketch : Sketch) (path : String) : sketch.look path = sketch.chart.look path := by
  unfold look Chart.look
  by_cases hempty : path = ""
  · simp [key?, hempty]
  · rw [key?_of_ne hempty, if_neg hempty]
    unfold chart
    dsimp only
    by_cases hdir : denoted path ∈ fixedDirs ++ sketch.dirs
    · simp [hdir]
    · by_cases hfile : denoted path ∈ sketch.files
      · cases hslash : endsWithSlash path <;> simp [hdir, hfile]
      · simp [hdir, hfile]

theorem dirMade_createDirAll {path : String} (there : path ≠ "") {sketch after : Sketch}
    (h : sketch.createDirAll path = (.ok (), after)) :
    sketch.chart.DirMade after.chart (denoted path) := by
  unfold createDirAll at h
  cases hfault : sketch.createFault with
  | some fault =>
      simp only [hfault] at h
      cases h
  | none =>
      simp only [hfault, key?_of_ne there, Prod.mk.injEq, true_and] at h
      subst h
      constructor
      · simp [chart]
      · intro other _ _
        by_cases hother : other = denoted path
        · right
          subst hother
          exact ⟨by simp [chart], List.prefix_rfl⟩
        · left
          simp [chart, hother]

theorem fileWritten_write {path : String} (there : path ≠ "") (sketch : Sketch) :
    sketch.chart.FileWritten (sketch.write path).chart (denoted path) := by
  constructor
  · by_cases hdir : denoted path ∈ fixedDirs ++ sketch.dirs
    · have h : denoted path ∈ fixedDirs ++ (sketch.write path).dirs := hdir
      simp only [chart, if_pos hdir, if_pos h, if_true]
    · have h : denoted path ∉ fixedDirs ++ (sketch.write path).dirs := hdir
      have hplace : denoted path ∈ (sketch.write path).files := by
        simp [write, key?_of_ne there]
      simp only [chart, if_neg hdir, if_neg h, if_pos hplace]
      split <;> simp
  · intro other _ _ helsewhere
    simp [chart, write, key?_of_ne there, helsewhere]

instance : Charted Sketch where
  look_keeps _ _ := rfl
  read_keeps _ _ := rfl
  look_agrees _ _ _ := rfl
  top_is_dir _ := rfl
  chart := chart
  seen_eq _ sketch := sketch.look_eq _
  createDirAll_makes _ there h := dirMade_createDirAll there h
  write_writes {path bytes sketch after} _ there h := by
    obtain rfl : sketch.write path = after := congrArg Prod.snd h
    exact sketch.fileWritten_write there

end Sketch

end ResourceAssembler
