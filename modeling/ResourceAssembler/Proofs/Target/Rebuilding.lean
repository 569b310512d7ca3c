import ResourceAssembler.Proofs.Settings.Seen
import ResourceAssembler.Proofs.Target.Demands
import ResourceAssembler.Proofs.Target.SavedDestination

/-!
# Building to the same destination again

The first save may have to create the directory of its artifact. Every later save to the same
destination finds it, and goes to the same path without asking for anything else.
-/

namespace ResourceAssembler

open Paths

namespace BuildTarget

/-- Resolves a destination and saves the target there. -/
def saveTo {m : Type → Type} [Monad m] [Host m] (path : String) (target : BuildTarget) :
    m (BuildTarget × Except TargetError String) := do
  let paths ← target.paths.resolveDestination path
  save ResourceFile.writeToHost { target with paths }

/-- The target with a destination, given what paths lead to. -/
def destined (look : Look) (path : String) (target : BuildTarget) : BuildTarget :=
  { target with paths := target.paths.setDestination look path }

theorem descends_outputFile {target : BuildTarget} {path : String}
    (descends : (denoted path).Descends)
    (output : ∀ name, target.outputName = some name → ".." ∉ segments name) (look : Look) :
    ".." ∉ segments (target.destined look path).outputFile := by
  cases hname : target.outputName with
  | some name =>
      have hfile : (target.destined look path).outputFile = name := by
        simp [outputFile, destined, hname]
      rw [hfile]
      exact output name hname
  | none =>
      have hfile : (target.destined look path).outputFile =
          (target.paths.setDestination look path).destinationFile := by
        simp [outputFile, destined, hname]
      rw [hfile]
      exact TargetPaths.descends_destinationFile descends target.paths look

/-- Targets of one format and output name have the same artifact at a destination that is
taken apart in the same way. -/
theorem artifact_destined_congr {target again : BuildTarget} {look other : Look} {path : String}
    (hroot : (again.paths.setDestination other path).destinationRoot =
      (target.paths.setDestination look path).destinationRoot)
    (hfile : (again.paths.setDestination other path).destinationFile =
      (target.paths.setDestination look path).destinationFile)
    (hformat : again.format = target.format) (hname : again.outputName = target.outputName) :
    (again.destined other path).artifact = (target.destined look path).artifact := by
  simp only [artifact, outputFile, destined, hroot, hfile, hformat, hname]

/-- An artifact lies under its root, at a name that is no step up. -/
theorem exists_artifact_under {target : BuildTarget} {look : Look} {path : String}
    (output : ".." ∉ segments (target.destined look path).outputFile) :
    ∃ name, segments name ≠ [] ∧ ".." ∉ segments name ∧
      denoted (target.destined look path).artifact =
        (denoted ((target.destined look path).paths.destinationRoot ++ "/")).under name := by
  obtain ⟨above, last, hsegments, habove, hlast⟩ :=
    exists_segments_artifactName (target.destined look path).outputFile
      (target.destined look path).format
  refine ⟨_, ?_, ?_, denoted_artifactPath
    (TargetPaths.endsWithSlash_destinationRoot target.paths look path) _ _⟩
  · rw [hsegments]
    exact List.append_ne_nil_of_right_ne_nil _ (List.cons_ne_nil _ _)
  · rw [hsegments, List.mem_append, List.mem_singleton, not_or]
    exact ⟨fun hup => output (habove hup), hlast.symm⟩

section Charted

variable {W : Type} [Host (StateM W)] [Charted W] {target : BuildTarget} {path artifact : String}
  {world ready after : W}

theorem chart_top (world : W) : (Charted.chart world).look "/" = .dir := by
  rw [← Charted.seen_eq (by decide : (denoted "/").Descends), seen_top]

/-- A destination is resolved by the chart. -/
theorem runOn_resolveDestination_chart (descends : (denoted path).Descends) (world : W)
    (paths : TargetPaths) :
    runOn (paths.resolveDestination path) world =
      (paths.setDestination (Charted.chart world).look path, world) := by
  rw [TargetPaths.runOn_resolveDestination]
  congr 1
  apply TargetPaths.setDestination_congr
  intro probe hprobe
  apply Charted.seen_eq
  rw [TargetPaths.destinationProbes, TargetPaths.rootToProbe_splitLast] at hprobe
  obtain rfl | hdirectory := List.mem_cons.mp hprobe
  · exact descends
  · rw [List.mem_singleton.mp hdirectory]
    exact descends_directory descends

theorem runOn_saveTo (descends : (denoted path).Descends) (target : BuildTarget) (world : W) :
    runOn (target.saveTo path) world =
      runOn (save ResourceFile.writeToHost (target.destined (Charted.chart world).look path))
        world := by
  rw [saveTo, runOn_bind, runOn_resolveDestination_chart descends]
  rfl

/-- A destination that is prepared in a world is prepared by the chart. -/
theorem prepared_of_preparation
    (asked : target.paths.createDestination = true →
      (denoted target.paths.destinationRoot).Descends ∧ target.paths.destinationRoot ≠ "")
    (h : target.preparation world = (.ok (), ready)) :
    Chart.Prepared target.paths (Charted.chart world) (Charted.chart ready) := by
  rw [preparation_eq] at h
  split at h
  case isTrue hasked =>
    obtain rfl : world = ready := congrArg Prod.snd h
    apply Chart.Prepared.asIs
    intro hcreate
    rw [hasked] at hcreate
    cases hcreate
  case isFalse hasked =>
    have hcreate : target.paths.createDestination = true := by simpa using hasked
    obtain ⟨descends, hthere⟩ := asked hcreate
    dsimp only at h
    rw [Steady.look_keeps] at h
    split at h
    case isTrue hdir =>
      obtain rfl : world = ready := congrArg Prod.snd h
      have hseen : seen world target.paths.destinationRoot = .dir := hdir
      rw [Charted.seen_eq descends] at hseen
      exact .asIs fun _ => hseen
    case isFalse =>
      obtain ⟨hmade, hready⟩ := Prod.mk.inj h
      have hran : runOn (Host.createDirAll target.paths.destinationRoot) world = (.ok (), ready) :=
        Prod.ext (Outcome.mapError_eq_ok_iff.mp hmade) hready
      exact .made hcreate (Charted.createDirAll_makes descends hthere hran)

/-- Once a target is saved to a destination, the destination is taken apart as before. -/
theorem setDestination_after_save (named : (splitLast path).2 ≠ ".")
    (descends : (denoted path).Descends)
    (output : ∀ name, target.outputName = some name → ".." ∉ segments name)
    (h : (target.destined (Charted.chart world).look path).SaveOutcome ResourceFile.writeToHost
      world (.ok artifact) after)
    (again : TargetPaths) :
    let first := target.paths.setDestination (Charted.chart world).look path
    again.setDestination (Charted.chart after).look path =
      { again with
        destinationRoot := first.destinationRoot
        destinationFile := first.destinationFile
        createDestination := false } := by
  have top := chart_top world
  obtain ⟨name, hname, hdescends, hartifact⟩ :=
    exists_artifact_under (descends_outputFile descends output (Charted.chart world).look)
  have hroot : (denoted (target.destined (Charted.chart world).look path).artifact).Descends := by
    rw [hartifact]
    exact Denoted.descends_under.mpr
      ⟨TargetPaths.descends_destinationRoot descends target.paths, hdescends⟩
  have hthere : (target.destined (Charted.chart world).look path).artifact ≠ "" := by
    intro hnone
    rw [hnone] at hartifact
    have hsegments := congrArg Denoted.segments hartifact
    exact hname (List.append_eq_nil_iff.mp hsegments.symm).2
  cases h with
  | accepted prepared written =>
      obtain ⟨bytes, -, hran⟩ := ResourceFile.writeToHost_accepted written
      have hwritten := Charted.write_writes hroot hthere hran
      rw [hartifact] at hwritten
      refine TargetPaths.setDestination_saved top descends hname
        (prepared_of_preparation ?_ prepared) hwritten named again
      intro hcreate
      have hdirectory := TargetPaths.destinationRoot_of_createDestination top hcreate
      rw [destined, hdirectory]
      exact ⟨descends_directory descends, directory_ne_empty path⟩

/-- A root that is to be created is not found in the world that it was resolved in. -/
theorem missing_destined (descends : (denoted path).Descends) (world : W)
    (hcreate : (target.destined (Charted.chart world).look path).paths.createDestination = true) :
    seen world (target.destined (Charted.chart world).look path).paths.destinationRoot ≠ .dir := by
  have hdirectory := TargetPaths.destinationRoot_of_createDestination (chart_top world) hcreate
  have hmissing := ((TargetPaths.createDestination_iff _ _ _).mp hcreate).2
  rw [destined, hdirectory, Charted.seen_eq (descends_directory descends)]
  exact hmissing

/-- Resolving a destination and saving there, in a world with a chart, with any format and any file
name that do not step up. If the artifact is written, the directory that was to be created and the
artifact are all that was demanded. From then on the destination is resolved to the same root and
file name, and no directory is to be created. Whatever is saved to it in the same format goes to the
same path, and nothing but its artifact is demanded. A destination whose last piece is "." is left
out: its root is another text once it is there. -/
theorem rebuilding_writes_same_artifact (target : BuildTarget) (attended : Attended W)
    (named : (splitLast path).2 ≠ ".") (descends : ".." ∉ segments path)
    (output : ∀ name, target.outputName = some name → ".." ∉ segments name)
    (saved : (runOn (target.saveTo path) attended).1.2 = .ok artifact) :
    let first := (runOn (target.paths.resolveDestination path) attended).1
    let left := (runOn (target.saveTo path) attended).2
    (∃ bytes, left.demands = attended.demands ++ (first.creations ++ [.write artifact bytes])) ∧
      (∀ again : TargetPaths, runOn (again.resolveDestination path) left =
        ({ again with
           destinationRoot := first.destinationRoot
           destinationFile := first.destinationFile
           createDestination := false }, left)) ∧
      ∀ again : BuildTarget, again.format = target.format → again.outputName = target.outputName →
        let rebuilt := runOn (again.saveTo path) left
        (rebuilt.1.2 = .ok artifact ∨ ∃ cause, rebuilt.1.2 = .error (.write artifact cause)) ∧
          ∃ writes, rebuilt.2.demands = left.demands ++ writes ∧
            (writes = [] ∨ ∃ bytes, writes = [.write artifact bytes]) ∧
            (rebuilt.1.2 = .ok artifact → writes ≠ []) := by
  intro first left
  have hfirst : first = (target.destined (Charted.chart attended).look path).paths :=
    congrArg Prod.fst (runOn_resolveDestination_chart descends attended target.paths)
  have hleft : left = (runOn (save ResourceFile.writeToHost
      (target.destined (Charted.chart attended).look path)) attended).2 :=
    congrArg Prod.snd (runOn_saveTo descends target attended)
  have houtcome := (save_outcome ResourceFile.writeToHost
    (target.destined (Charted.chart attended).look path) attended).2.2
  rw [runOn_saveTo descends] at saved
  rw [saved, ← hleft] at houtcome
  have hagain := setDestination_after_save named descends output houtcome
  obtain ⟨writes, hdemands, -, hwrites⟩ := houtcome.demands (missing_destined descends attended)
  obtain ⟨hartifact, bytes, rfl⟩ := hwrites artifact rfl
  refine ⟨⟨bytes, by rw [hdemands, hfirst]⟩, ?_, ?_⟩
  · intro again
    rw [runOn_resolveDestination_chart descends, hagain again, hfirst]
    rfl
  · intro again hformat hname rebuilt
    have hpaths := hagain again.paths
    have hasked : (again.destined (Charted.chart left).look path).paths.createDestination = false :=
      congrArg (·.createDestination) hpaths
    have hsame : (again.destined (Charted.chart left).look path).artifact = artifact := by
      rw [hartifact]
      apply artifact_destined_congr _ _ hformat hname
      · rw [hpaths]
      · rw [hpaths]
    have hrebuilt := demands_save_of_not_asked hasked left
    rw [← runOn_saveTo descends, hsame] at hrebuilt
    exact hrebuilt

end Charted

/-- A world without the directory "build". -/
def unprepared : Attended Sketch :=
  { world := {} }

/-- The first save creates the directory, and the next one does not ask for it. -/
theorem rebuilding_writes_same_artifact_unprepared :
    (splitLast "build/").2 ≠ "." ∧ ".." ∉ segments "build/" ∧
      (runOn (({} : BuildTarget).saveTo "build/") unprepared).1.2 = .ok "build/result.ndat" ∧
      ∃ left bytes more, (runOn (({} : BuildTarget).saveTo "build/") unprepared).2 = left ∧
        left.demands = [.createDirAll "build", .write "build/result.ndat" bytes] ∧
        runOn (({} : TargetPaths).resolveDestination "build/") left =
          ({ destinationRoot := "build", destinationFile := "result" }, left) ∧
        (runOn (({} : BuildTarget).saveTo "build/") left).2.demands =
          left.demands ++ [.write "build/result.ndat" more] := by
  have hnamed : (splitLast "build/").2 ≠ "." := by decide
  have hdescends : ".." ∉ segments "build/" := by decide
  have hsaved : (runOn (({} : BuildTarget).saveTo "build/") unprepared).1.2 =
      .ok "build/result.ndat" := Outcome.eq_ok_of_toOption (by decide +kernel)
  have hrebuilt : (runOn (({} : BuildTarget).saveTo "build/")
      (runOn (({} : BuildTarget).saveTo "build/") unprepared).2).1.2 = .ok "build/result.ndat" :=
    Outcome.eq_ok_of_toOption (by decide +kernel)
  have hfirst : (runOn (({} : TargetPaths).resolveDestination "build/") unprepared).1 =
      { destinationRoot := "build", destinationFile := "result", createDestination := true } := by
    decide +kernel
  obtain ⟨⟨bytes, hdemands⟩, hresolved, hagain⟩ := rebuilding_writes_same_artifact {} unprepared
    hnamed hdescends (fun _ hname => by cases hname) hsaved
  obtain ⟨-, writes, hmore, hkind, hwrites⟩ := hagain {} rfl rfl
  obtain ⟨more, rfl⟩ := hkind.resolve_left (hwrites hrebuilt)
  have hpaths := hresolved {}
  rw [hfirst] at hdemands hpaths
  exact ⟨hnamed, hdescends, hsaved, _, bytes, more, rfl, hdemands, hpaths, hmore⟩

end BuildTarget

end ResourceAssembler
