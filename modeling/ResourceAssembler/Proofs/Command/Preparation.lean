import ResourceAssembler.Proofs.Command.Keeping
import ResourceAssembler.Proofs.Listing.Frame
import ResourceAssembler.Proofs.Settings.Seen

/-!
# What a build does before it saves

Before its save a build asks and reads, and nothing else. So it upholds whatever lasts. When all is
assembled, the build target has the paths that the settings give, and the format and the file name
that it was set up with. On a steady world these steps can be told from what is seen there.
-/

namespace ResourceAssembler

variable {W : Type} [Host (StateM W)] {fixed : W → Prop}

theorem TargetPaths.maintains_resolveDestination (lasting : Lasting fixed) (paths : TargetPaths)
    (path : String) : Maintains fixed (paths.resolveDestination path) fun _ => True :=
  (lasting.maintains_look _).bind fun _ _ => maintains_pure trivial

theorem TargetPaths.maintains_locateScenario (lasting : Lasting fixed) (paths : TargetPaths)
    (home : Option String) (name : String) :
    Maintains fixed (paths.locateScenario home name) fun _ => True :=
  (lasting.maintains_look _).bind fun _ _ => maintains_pure trivial

theorem BuildSettings.maintains_targetPaths (lasting : Lasting fixed) (settings : BuildSettings) :
    Maintains fixed settings.targetPaths fun _ => True := by
  intro world hfixed
  refine ⟨?_, trivial⟩
  unfold targetPaths
  cases settings.output with
  | none => exact hfixed
  | some output =>
      let started := ({} : TargetPaths).setSourceRoot settings.sourcePath
      exact (started.maintains_resolveDestination lasting output world hfixed).1

/-- Assembling a listing only reads, and leaves the setting of the target alone. -/
theorem BuildTarget.maintains_assemble (lasting : Lasting fixed) (path : String)
    (target : BuildTarget) :
    Maintains fixed (target.assemble path) fun assembled =>
      assembled.2.setting = target.setting := by
  intro world hfixed
  refine ⟨?_, target.setting_assemble path world⟩
  unfold assemble
  rw [runOn_bind]
  have hread := lasting.read [path] hfixed
  cases hload : Listing.load (runOn (Host.read [path]) world).1 path with
  | error failure => exact hread
  | ok loaded => exact lasting.read _ hread

theorem Manifest.maintains_find (lasting : Lasting fixed) (start : String) :
    Maintains fixed (find start) fun _ => True := by
  refine (lasting.maintains_look _).bind fun look _ => ?_
  split
  case h_1 => exact maintains_pure trivial
  case h_2 => exact (lasting.maintains_read _).bind fun _ _ => maintains_pure trivial

namespace Command

theorem upholds_project (lasting : Lasting fixed) (place : Surroundings) :
    Upholds fixed (project place) fun _ => True := by
  refine (upholds_lift (Manifest.maintains_find lasting _)).bind fun _ _ => ?_
  refine (upholds_settle fun _ _ => trivial).bind fun _ _ => ?_
  exact upholds_pure trivial

theorem upholds_requireInput (lasting : Lasting fixed) (settings : BuildSettings) :
    Upholds fixed (requireInput settings) fun _ => True := by
  refine (upholds_lift (lasting.maintains_look [settings.input])).bind fun look _ => ?_
  split
  · exact upholds_refuse _
  · exact upholds_pure trivial

/-- The paths are those that the settings give on the world as it is. -/
theorem upholds_paths (lasting : Lasting fixed) (settings : BuildSettings) :
    Upholds fixed (paths settings) fun found =>
      ∃ settled, fixed settled ∧ found = (runOn settings.targetPaths settled).1.1 := by
  refine (upholds_lift (settings.maintains_targetPaths lasting).of_run).bind fun found hfound => ?_
  obtain ⟨settled, hsettled, rfl⟩ := hfound
  exact (upholds_report _).bind fun _ _ => upholds_pure ⟨settled, hsettled, rfl⟩

theorem upholds_scenarioManifest (lasting : Lasting fixed) (place : Surroundings)
    (paths : TargetPaths) (name : String) :
    Upholds fixed (scenarioManifest place paths name) fun _ => True :=
  (upholds_lift (paths.maintains_locateScenario lasting place.home name)).bind fun _ _ =>
    (upholds_settle fun _ _ => trivial).bind fun _ _ =>
      (upholds_report _).bind fun _ _ => upholds_pure trivial

theorem upholds_assembleScenario (lasting : Lasting fixed) (place : Surroundings)
    (settings : BuildSettings) (target : BuildTarget) :
    Upholds fixed (assembleScenario place settings target) fun assembled =>
      assembled.2.setting = target.setting := by
  unfold assembleScenario
  cases settings.scenario with
  | none => exact upholds_pure rfl
  | some name =>
      refine (upholds_scenarioManifest lasting place target.paths name).bind fun manifest _ => ?_
      refine upholds_onTarget (fun assembled => assembled.setting = target.setting) ?_
      exact (target.maintains_assemble lasting manifest).bind fun _ hsetting =>
        maintains_pure hsetting

/-- What is to be saved is set up with the paths that the settings give. -/
theorem upholds_prepare (lasting : Lasting fixed) (place : Surroundings)
    (settings : BuildSettings) :
    Upholds fixed (prepare place settings) fun prepared =>
      ∃ settled, fixed settled ∧ prepared.2.setting =
        { paths := (runOn settings.targetPaths settled).1.1, format := settings.format } := by
  refine (upholds_requireInput lasting settings).bind fun _ _ => ?_
  refine (upholds_paths lasting settings).bind fun paths hpaths => ?_
  obtain ⟨settled, hsettled, hpaths⟩ := hpaths
  refine (upholds_assembleScenario lasting place settings _).bind fun first hfirst => ?_
  refine (upholds_onTarget (fun target => target.setting = first.2.setting)
    (first.2.maintains_assemble lasting settings.input)).bind fun second hsecond => ?_
  refine upholds_pure ⟨settled, hsettled, ?_⟩
  calc
    second.2.setting = first.2.setting := hsecond
    _ = ({ paths, format := settings.format } : BuildTarget).setting := hfirst
    _ = { paths := (runOn settings.targetPaths settled).1.1, format := settings.format } := by
      rw [hpaths]
      rfl

/-! ## On a steady world -/

section Steady

variable [Steady W]

/-- Looking for a project leaves the world alone and prints nothing. -/
theorem runIn_project (place : Surroundings) (transcript : Transcript) (world : W) :
    ∃ found noted, noted.output = transcript.output ∧
      runIn (project place) transcript world = ((found, noted), world) := by
  obtain ⟨hkept, hsilent, -⟩ := upholds_project (lasting_eq world) place transcript world rfl
  rcases hproject : runIn (project place) transcript world with ⟨⟨found, noted⟩, after⟩
  rw [hproject] at hkept hsilent
  obtain rfl : after = world := hkept
  exact ⟨found, noted, hsilent, rfl⟩

theorem runIn_requireInput {settings : BuildSettings} {world : W}
    (h : seen world settings.input = .file) (transcript : Transcript) :
    runIn (requireInput settings) transcript world = ((.ok (), transcript), world) := by
  have hlooked : (runOn (Host.look [settings.input]) world).1 settings.input = .file := h
  unfold requireInput
  rw [runIn_bind, runIn_lift]
  dsimp only
  rw [hlooked, Steady.look_keeps]
  rfl

theorem runIn_paths (settings : BuildSettings) (transcript : Transcript) (world : W) :
    ∃ journal, runIn (paths settings) transcript world =
      ((.ok (settings.pathsSeen (seen world)), { transcript with journal }), world) := by
  obtain ⟨notices, hpaths⟩ := settings.runOn_targetPaths world
  refine ⟨transcript.journal ++ notices, ?_⟩
  unfold paths
  rw [runIn_bind, runIn_lift, hpaths]
  rfl

theorem runIn_scenarioManifest (place : Surroundings) (paths : TargetPaths) (name : String)
    (transcript : Transcript) (world : W) :
    ∃ journal, runIn (scenarioManifest place paths name) transcript world =
      ((Cause.raise .target (paths.scenarioManifest place.home (seen world) name),
        { transcript with journal }), world) := by
  unfold scenarioManifest
  rw [runIn_bind, runIn_lift, TargetPaths.runOn_locateScenario]
  dsimp only
  rw [runIn_bind, runIn_settle]
  cases paths.scenarioManifest place.home (seen world) name with
  | error e => exact ⟨transcript.journal, rfl⟩
  | ok manifest => exact ⟨transcript.journal ++ [Notice.scenarioFound name manifest], rfl⟩

end Steady

end Command

end ResourceAssembler
