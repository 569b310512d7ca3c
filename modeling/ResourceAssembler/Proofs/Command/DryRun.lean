import ResourceAssembler.Command.Run
import ResourceAssembler.Proofs.Command.Preparation
import ResourceAssembler.Proofs.Outcome
import ResourceAssembler.Proofs.Settings.Seen
import ResourceAssembler.Proofs.Target.Demands

/-!
# What a dry run foretells

A dry run and a build settle the same things from the same options, and on a steady world they see
the same. So the artifact that the dry run names is the one that the build writes and reports, and
the build demands the directory that the dry run says will be created, and no other.
-/

namespace ResourceAssembler

variable {W : Type} [Host (StateM W)]

/-! ## Descriptions -/

/-- What a dry run prints of a description. -/
def TargetDescription.printed (description : TargetDescription) (asJson : Bool) : String :=
  if asJson then description.toJson.render 0 ++ "\n"
  else
    description.artifact ++ "\n" ++
      if description.paths.createDestination then
        s!"  (directory {description.paths.destinationRoot} will be created)" ++ "\n"
      else ""

/-- Where the artifact of a build goes, given what paths lead to. -/
def BuildSettings.described (settings : BuildSettings) (look : Look) : TargetDescription where
  artifact := settings.artifact (settings.pathsSeen look)
  format := settings.format
  paths := settings.pathsSeen look

namespace Command

/-- A dry run leaves the world alone and prints its description. -/
theorem runIn_describe [Steady W] (settings : BuildSettings) (asJson : Bool)
    (transcript : Transcript) (world : W) :
    ∃ journal, runIn (describe settings asJson) transcript world =
      ((.ok (settings.described (seen world)),
        ⟨transcript.output ++ (settings.described (seen world)).printed asJson, journal⟩),
        world) := by
  obtain ⟨journal, hpaths⟩ := runIn_paths settings transcript world
  refine ⟨journal, ?_⟩
  unfold describe
  rw [runIn_bind, hpaths]
  dsimp only
  unfold TargetDescription.printed BuildSettings.described
  cases asJson with
  | true =>
      simp only [if_true]
      rw [runIn_bind, runIn_print]
      simp [runIn_pure, String.append_assoc]
  | false =>
      simp only [Bool.false_eq_true, if_false]
      rw [runIn_bind, runIn_print]
      dsimp only
      cases hcreate : (settings.pathsSeen (seen world)).createDestination with
      | true =>
          simp only [if_true]
          rw [runIn_bind, runIn_print]
          simp [runIn_pure, String.append_assoc]
      | false => simp [runIn_pure, String.append_assoc]

/-- What a build demands once all is assembled, and what it reports if it succeeds. -/
theorem demands_finish [Steady W] {settings : BuildSettings} {summary : AssemblySummary}
    {target : BuildTarget} {transcript noted : Transcript} {attended after : Attended W}
    {result : Except Failure BuildReport}
    (h : runIn (finish settings summary target) transcript attended = ((result, noted), after))
    (missing : target.paths.createDestination = true →
      seen attended target.paths.destinationRoot ≠ .dir) :
    ∃ writes, after.demands = attended.demands ++ (target.paths.creations ++ writes) ∧
      (writes = [] ∨ ∃ bytes, writes = [.write target.artifact bytes]) ∧
      ∀ report, result = .ok report →
        report.artifact = target.artifact ∧
        noted.output = transcript.output ++ reportLine report settings.format ++ "\n" ∧
        ∃ bytes, writes = [.write target.artifact bytes] := by
  have houtcome := (BuildTarget.save_outcome ResourceFile.writeToHost target attended).2.2
  obtain ⟨writes, hdemands, hwrites, hwritten⟩ := houtcome.demands missing
  rw [runIn_finish] at h
  dsimp only at h
  cases hsaved : (runOn (target.save ResourceFile.writeToHost) attended).1.2 with
  | error e =>
      rw [hsaved] at h
      cases h
      exact ⟨writes, hdemands, hwrites, nofun⟩
  | ok artifact =>
      obtain ⟨rfl, bytes, rfl⟩ := hwritten artifact hsaved
      rw [hsaved] at h
      cases h
      refine ⟨_, hdemands, hwrites, ?_⟩
      intro report hreport
      cases hreport
      exact ⟨rfl, rfl, bytes, rfl⟩

/-- What a build on a steady world demands, and what it reports if it succeeds. -/
theorem demands_build [Steady W] {place : Surroundings} {settings : BuildSettings}
    {transcript noted : Transcript} {attended after : Attended W}
    {result : Except Failure BuildReport}
    (h : runIn (build place settings) transcript attended = ((result, noted), after)) :
    let description := settings.described (seen attended)
    ∃ asked, after.demands = attended.demands ++ asked ∧
      (asked = [] ∨ ∃ writes, asked = description.paths.creations ++ writes ∧
        (writes = [] ∨ ∃ bytes, writes = [.write description.artifact bytes])) ∧
      ∀ report, result = .ok report →
        report.artifact = description.artifact ∧
        noted.output = transcript.output ++ reportLine report description.format ++ "\n" ∧
        ∃ bytes, asked = description.paths.creations ++ [.write description.artifact bytes] := by
  intro description
  obtain ⟨hkept, hsilent, hprepared⟩ :=
    upholds_prepare (lasting_eq attended) place settings transcript attended rfl
  rw [build_eq, runIn_bind] at h
  rcases hprepare : runIn (prepare place settings) transcript attended with
    ⟨⟨prepared, begun⟩, ready⟩
  rw [hprepare] at h hkept hsilent hprepared
  obtain rfl : ready = attended := hkept
  cases prepared with
  | error failure =>
      cases h
      exact ⟨[], (List.append_nil _).symm, .inl rfl, nofun⟩
  | ok prepared =>
      -- The world is the same when the paths are settled and when they are saved to.
      obtain ⟨summary, target⟩ := prepared
      obtain ⟨settled, rfl, hsetting⟩ := hprepared _ rfl
      obtain ⟨notices, hsettled⟩ := settings.runOn_targetPaths settled
      rw [hsettled] at hsetting
      have hpaths : target.paths = description.paths := (congrArg BuildTarget.paths hsetting :)
      have hartifact : target.artifact = description.artifact :=
        (congrArg BuildTarget.artifact hsetting :)
      have hmissing : target.paths.createDestination = true →
          seen settled target.paths.destinationRoot ≠ .dir := by
        rw [hpaths]
        exact BuildSettings.pathsSeen_createDestination (seen_top settled)
      have houtput : begun.output = transcript.output := hsilent
      obtain ⟨writes, hdemands, hwrites, hreported⟩ := demands_finish h hmissing
      rw [hpaths] at hdemands
      rw [hartifact] at hwrites hreported
      rw [houtput] at hreported
      refine ⟨description.paths.creations ++ writes, hdemands, .inr ⟨writes, rfl, hwrites⟩, ?_⟩
      intro report hreport
      obtain ⟨hsame, hprinted, bytes, rfl⟩ := hreported report hreport
      exact ⟨hsame, hprinted, bytes, rfl⟩

/-! ## The same options -/

/-- With and without a scenario among the options, the settings are resolved in the same way up to
the scenario, on a world that is left alone. -/
theorem runIn_settings_scenario [Steady W] (place : Surroundings) (options : BuildOptions)
    (scenario : Option String) (transcript : Transcript) (world : W) :
    ∃ (outcome : Except Failure BuildSettings) (settled : Option String) (noted : Transcript),
      noted.output = transcript.output ∧
      runIn (settings place options) transcript world = ((outcome, noted), world) ∧
      runIn (settings place { options with scenario }) transcript world =
        ((outcome.map fun settings => { settings with scenario := settled }, noted), world) := by
  obtain ⟨found, noted, hsilent, hproject⟩ := runIn_project place transcript world
  rw [runIn_settings, runIn_settings, hproject]
  cases found with
  | error failure => exact ⟨.error failure, none, noted, hsilent, rfl, rfl⟩
  | ok found =>
      obtain ⟨manifest, dir⟩ := found
      refine ⟨BuildSettings.resolve place.home options manifest dir,
        scenario.or ((manifest.map Manifest.build).getD {}).scenario, noted, hsilent, rfl, ?_⟩
      dsimp only
      rw [BuildSettings.resolve_scenario]

/-- With its settings resolved, a dry run describes what they lead to. -/
theorem runIn_targetCommand [Steady W] {place : Surroundings} {options : BuildOptions}
    {resolved : BuildSettings} {transcript noted : Transcript} {world : W}
    (h : runIn (settings place options) transcript world = ((.ok resolved, noted), world))
    (asJson : Bool) :
    ∃ journal, runIn (CommandLine.command place (.target options asJson)) transcript world =
      ((.ok (), ⟨noted.output ++ (resolved.described (seen world)).printed asJson, journal⟩),
        world) := by
  obtain ⟨journal, hdescribe⟩ := runIn_describe resolved asJson noted world
  refine ⟨journal, ?_⟩
  change runIn (settings place options >>= fun settings => discard (describe settings asJson))
    _ _ = _
  rw [runIn_bind, h]
  dsimp only
  rw [runIn_discard, hdescribe]
  rfl

/-- With its settings resolved, a build on the command line is the build with these settings. -/
theorem runIn_buildCommand {place : Surroundings} {options : BuildOptions}
    {resolved : BuildSettings} {transcript noted : Transcript} {world : W}
    (h : runIn (settings place options) transcript world = ((.ok resolved, noted), world)) :
    runIn (CommandLine.command place (.build options)) transcript world =
      let built := runIn (build place resolved) noted world
      ((built.1.1.map fun _ => (), built.1.2), built.2) := by
  change runIn (settings place options >>= fun settings => discard (build place settings)) _ _ = _
  rw [runIn_bind, h]
  dsimp only
  rw [runIn_discard]

/-- A dry run foretells the build with the same options, on every steady world. Their settings
fail to resolve with the same failures, and a dry run fails for no other reason. If they are
resolved, the dry run prints a description and leaves the world alone. Whatever becomes of the
build then, it demands no directory but the one that is described as to be created. If it
succeeds, it writes the artifact that is described and reports it, and it demands the directory
exactly if it is described as to be created. -/
theorem dry_run_foretells_build [Steady W] (place : Surroundings) (options : BuildOptions)
    (asJson : Bool) (world : Attended W) :
    let dry : BuildOptions := { options with scenario := none }
    let settled (options : BuildOptions) := (runOn (settings place options).execute world).1.1
    let foretold := runOn (CommandLine.command place (.target dry asJson)).execute world
    let built := runOn (CommandLine.command place (.build options)).execute world
    (∀ failure, settled options = .error failure ↔ settled dry = .error failure) ∧
      (∀ failure, foretold.1.1 = .error failure ↔ settled dry = .error failure) ∧
      ∀ resolved, settled options = .ok resolved →
        let description := resolved.described (seen world)
        foretold.1.1 = .ok () ∧ foretold.1.2.output = description.printed asJson ∧
        foretold.2 = world ∧
        ∃ asked, built.2.demands = world.demands ++ asked ∧
          (∀ path, .createDirAll path ∈ asked →
            description.paths.createDestination = true ∧
              path = description.paths.destinationRoot) ∧
          (built.1.1 = .ok () →
            (∃ report : BuildReport, report.artifact = description.artifact ∧
              built.1.2.output = reportLine report description.format ++ "\n") ∧
            ∃ bytes, asked =
              description.paths.creations ++ [.write description.artifact bytes]) := by
  intro dry settled foretold built
  obtain ⟨outcome, inherited, noted, hsilent, hsettings, hdry⟩ :=
    runIn_settings_scenario place options none {} world
  have hsettled : settled options = outcome := congrArg (·.1.1) hsettings
  have hsettledDry : settled dry = outcome.map fun settings =>
      { settings with scenario := inherited } := congrArg (·.1.1) hdry
  cases outcome with
  | error failure =>
      have hforetold : foretold = ((.error failure, noted), world) := by
        change runIn (settings place dry >>= _) {} world = _
        rw [runIn_bind, hdry]
        rfl
      rw [hsettled, hsettledDry, hforetold]
      refine ⟨fun other => Iff.rfl, ?_, nofun⟩
      intro other
      constructor <;> intro h <;> cases h <;> rfl
  | ok resolved =>
      let description := resolved.described (seen world)
      obtain ⟨journal, htarget⟩ := runIn_targetCommand hdry asJson
      have hforetold : foretold =
          ((.ok (), ⟨noted.output ++ description.printed asJson, journal⟩), world) := htarget
      rcases hbuild : runIn (build place resolved) noted world with ⟨⟨result, ended⟩, after⟩
      have hbuilt : built = ((result.map fun _ => (), ended), after) := by
        have hcommand := runIn_buildCommand hsettings
        rw [hbuild] at hcommand
        exact hcommand
      obtain ⟨asked, hdemands, hform, hreported⟩ := demands_build hbuild
      rw [hsettled, hsettledDry, hforetold, hbuilt]
      refine ⟨fun failure => ⟨nofun, nofun⟩, fun failure => ⟨nofun, nofun⟩, ?_⟩
      rintro _ ⟨⟩
      refine ⟨rfl, ?_, rfl, asked, hdemands, ?_, ?_⟩
      · rw [hsilent]
        exact String.empty_append
      · intro path hpath
        obtain rfl | ⟨writes, rfl, rfl | ⟨bytes, rfl⟩⟩ := hform
        · cases hpath
        · simpa [TargetPaths.createDirAll_mem_creations] using hpath
        · simpa [TargetPaths.createDirAll_mem_creations] using hpath
      · intro hresult
        cases result with
        | error failure => cases hresult
        | ok report =>
            obtain ⟨hartifact, houtput, hasked⟩ := hreported report rfl
            refine ⟨⟨report, hartifact, ?_⟩, hasked⟩
            rw [houtput, hsilent, String.append_assoc]
            exact String.empty_append

/-- A disk with a listing and without the directory for its artifact. -/
def unbuilt : Disk where
  workingPlace := ["w"]
  entries := [(["w"], .dir),
    (["w", "main.kdl"], .file ("[[type]]\nname=\"Text\"\ncode=\"TEXT\"\n" ++
      "[[resource]]\ntype=\"Text\"\nid=128").toUTF8)]

/-- The dry run says that the directory will be created, and the build creates it. -/
theorem dry_run_foretells_new_directory :
    let place : Surroundings := { home := none, workingDir := "/w" }
    let options : BuildOptions := { input := some "main.kdl", output := some "out/game" }
    let world : Attended Disk := { world := unbuilt }
    (runOn (CommandLine.command place (.target options false)).execute world).1.2.output =
        "out/game.ndat\n  (directory out will be created)\n" ∧
      (runOn (CommandLine.command place (.build options)).execute world).1.1 = .ok () ∧
      ∃ bytes, (runOn (CommandLine.command place (.build options)).execute world).2.demands =
        [.createDirAll "out", .write "out/game.ndat" bytes] := by
  intro place options world
  let resolved : BuildSettings := { input := "main.kdl", output := some "out/game" }
  have hbuilt : (runOn (CommandLine.command place (.build options)).execute world).1.1 = .ok () :=
    Outcome.eq_ok_of_toOption (by decide +kernel)
  have hresolved : (runOn (settings place options).execute world).1.1 = .ok resolved :=
    Outcome.eq_ok_of_toOption (by decide +kernel)
  have hdescribed : resolved.described (seen world) =
      { artifact := "out/game.ndat", format := .classic
        paths :=
          { destinationRoot := "out", destinationFile := "game", createDestination := true } } := by
    decide +kernel
  obtain ⟨-, -, -, asked, hdemands, -, hsucceeded⟩ :=
    (dry_run_foretells_build place options false world).2.2 resolved hresolved
  rw [hdescribed] at hsucceeded
  obtain ⟨-, bytes, rfl⟩ := hsucceeded hbuilt
  exact ⟨by decide +kernel, hbuilt, bytes, hdemands⟩

end Command

end ResourceAssembler
