import ResourceAssembler.Proofs.Host.Steady
import ResourceAssembler.Proofs.Target.Destination
import ResourceAssembler.Settings

/-!
# Settings on a steady world

On a steady world the paths of a build are those that its settings give for what is seen there. What
a build has to do is settled in the same way with and without a scenario, and a directory that has
to be created is then known not to be there.
-/

namespace ResourceAssembler

variable {W : Type} [Host (StateM W)] [Steady W]

namespace TargetPaths

/-- The destination is decided on the answers for the probes. -/
theorem setDestination_congr {look other : Look} {path : String}
    (h : ∀ probe ∈ destinationProbes path, look probe = other probe) (paths : TargetPaths) :
    paths.setDestination look path = paths.setDestination other path := by
  have hpath : look path = other path := h path (by simp [destinationProbes])
  have hroot : look (rootToProbe (Paths.splitLast path).1) =
      other (rootToProbe (Paths.splitLast path).1) := h _ (by simp [destinationProbes])
  unfold setDestination
  rw [hpath]
  dsimp only
  rw [hroot]

theorem runOn_resolveDestination (paths : TargetPaths) (path : String) (world : W) :
    runOn (paths.resolveDestination path) world =
      (paths.setDestination (seen world) path, world) := by
  unfold resolveDestination
  rw [runOn_bind, runOn_pure, Steady.look_keeps,
    setDestination_congr fun _ hprobe => look_eq_seen hprobe world]

/-- The manifest of a scenario is decided on the answers for the probes. -/
theorem scenarioManifest_congr {look other : Look} {paths : TargetPaths} {home : Option String}
    {name : String} (h : ∀ probe ∈ paths.scenarioProbes home name, look probe = other probe) :
    paths.scenarioManifest home look name = paths.scenarioManifest home other name := by
  have hdir := h (paths.scenarioDir home name) (by simp [scenarioProbes])
  have hfile := h (paths.scenarioFile home name) (by simp [scenarioProbes])
  unfold scenarioManifest
  rw [hdir, hfile]

theorem runOn_locateScenario (paths : TargetPaths) (home : Option String) (name : String)
    (world : W) :
    runOn (paths.locateScenario home name) world =
      (paths.scenarioManifest home (seen world) name, world) := by
  unfold locateScenario
  rw [runOn_bind, runOn_pure, Steady.look_keeps,
    scenarioManifest_congr fun _ hprobe => look_eq_seen hprobe world]

/-- A destination root that is to be created leads to no directory, as the text that it is kept as.
The text of the top directory is the empty one, but the top is never created. -/
theorem setDestination_createDestination {paths : TargetPaths} {look : Look} {path : String}
    (top : look "/" = .dir)
    (h : (paths.setDestination look path).createDestination = true) :
    look (paths.setDestination look path).destinationRoot ≠ .dir := by
  rw [destinationRoot_of_createDestination top h]
  exact ((createDestination_iff paths look path).mp h).2

end TargetPaths

namespace BuildSettings

/-- The paths of a build, given what paths lead to. -/
def pathsSeen (settings : BuildSettings) (look : Look) : TargetPaths :=
  let paths := ({} : TargetPaths).setSourceRoot settings.sourcePath
  let paths := match settings.output with
    | some output => paths.setDestination look output
    | none => paths
  match settings.scenarios with
  | some root => paths.setScenarioRoot root
  | none => paths

theorem runOn_targetPaths (settings : BuildSettings) (world : W) :
    ∃ notices, runOn settings.targetPaths world =
      ((settings.pathsSeen (seen world), notices), world) := by
  unfold targetPaths pathsSeen
  cases settings.output with
  | none => exact ⟨[], rfl⟩
  | some output =>
      rw [runOn_bind]
      dsimp only
      rw [runOn_bind, TargetPaths.runOn_resolveDestination]
      exact ⟨_, rfl⟩

theorem pathsSeen_createDestination {settings : BuildSettings} {look : Look}
    (top : look "/" = .dir) (h : (settings.pathsSeen look).createDestination = true) :
    look (settings.pathsSeen look).destinationRoot ≠ .dir := by
  obtain ⟨input, output, format, scenarios, scenario⟩ := settings
  cases output with
  | none => cases scenarios <;> cases h
  | some output =>
      cases scenarios with
      | none => exact TargetPaths.setDestination_createDestination top h
      | some root => exact TargetPaths.setDestination_createDestination top h

/-- The scenario root is the one of the settings, and otherwise the working directory. -/
theorem scenarioRoot_pathsSeen (settings : BuildSettings) (look : Look) :
    (settings.pathsSeen look).scenarioRoot = Paths.trimEnd (settings.scenarios.getD ".") := by
  obtain ⟨input, output, format, scenarios, scenario⟩ := settings
  cases scenarios with
  | some root => rfl
  | none =>
      have hkept : Paths.trimEnd "." = "." := by decide
      dsimp only [Option.getD_none]
      rw [hkept]
      cases output with
      | none => rfl
      | some output =>
          unfold pathsSeen TargetPaths.setDestination
          dsimp only
          split <;> rfl

/-- The scenario of the options has a say in the scenario of the settings only. -/
theorem resolve_scenario (home : Option String) (options : BuildOptions)
    (manifest : Option Manifest) (projectDir : String) (scenario : Option String) :
    resolve home { options with scenario } manifest projectDir =
      (resolve home options manifest projectDir).map fun settings =>
        { settings with
          scenario := scenario.or ((manifest.map Manifest.build).getD {}).scenario } := by
  unfold resolve
  dsimp only
  generalize (options.input.map (Paths.expandTilde home)).or _ = input
  cases input with
  | none => rfl
  | some input => rfl

end BuildSettings

end ResourceAssembler
