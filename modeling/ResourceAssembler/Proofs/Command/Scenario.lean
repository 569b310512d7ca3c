import ResourceAssembler.Command.Run
import ResourceAssembler.Proofs.Command.Preparation
import ResourceAssembler.Proofs.Paths.Home
import ResourceAssembler.Proofs.Settings.ManifestPath
import ResourceAssembler.Proofs.Target.Scenario

/-!
# Looking a scenario up by itself and in a build

A scenario is looked up under the root that is given, else under that of the manifest. By itself,
the home directory is put into the given root when the slashes at its end are off. In a build it
is put in before that as well. Only when the given root is the home directory itself this leaves
other slashes, those at the end of the home directory. The two lookups end alike, unless these
slashes make a path too long.
-/

namespace ResourceAssembler.Command

open Paths

variable {W : Type} [Host (StateM W)]

/-! ## The lookup of a build -/

/-- What a build does once the manifest of its scenario is found. -/
def buildWith {m : Type → Type} [Monad m] [Host m] (settings : BuildSettings)
    (paths : TargetPaths) (name manifest : String) : Command m BuildReport := do
  let (first, target) ← onTarget { paths, format := settings.format } fun target => do
    let (result, target) ← target.assemble manifest
    return (Failure.inContext s!"assembling scenario '{name}'" result, target)
  let (second, target) ← onTarget target (·.assemble settings.input)
  finish settings (first.add second) target

/-- A build with a scenario looks the scenario up once its input is there
and its paths are settled. -/
theorem build_eq_of_scenario {m : Type → Type} [Monad m] [LawfulMonad m] [Host m]
    {settings : BuildSettings} {name : String} (h : settings.scenario = some name)
    (place : Surroundings) :
    (build place settings : Command m BuildReport) = (do
      requireInput settings
      let paths ← paths settings
      let manifest ← scenarioManifest place paths name
      buildWith settings paths name manifest) := by
  rw [build_eq]
  unfold prepare assembleScenario buildWith
  simp only [h, bind_assoc, pure_bind]

/-! ## On a steady world -/

section Steady

variable [Steady W]

/-- A build with a scenario goes on with the manifest that is found, and fails if none is found. -/
theorem runIn_build_of_scenario {settings : BuildSettings} {name : String}
    (h : settings.scenario = some name) (place : Surroundings) {world : W}
    (input : seen world settings.input = .file) (transcript : Transcript) :
    let paths := settings.pathsSeen (seen world)
    let looked := paths.scenarioManifest place.home (seen world) name
    ∃ noted, runIn (build place settings) transcript world =
      runIn (settle (Cause.raise .target looked) >>= buildWith settings paths name) noted
        world := by
  intro paths looked
  obtain ⟨journal, hpaths⟩ := runIn_paths settings transcript world
  obtain ⟨journal', hmanifest⟩ :=
    runIn_scenarioManifest place paths name { transcript with journal } world
  refine ⟨{ transcript with journal := journal' }, ?_⟩
  rw [build_eq_of_scenario h, runIn_bind, runIn_requireInput input]
  dsimp only
  rw [runIn_bind, hpaths]
  dsimp only
  rw [runIn_bind, hmanifest, runIn_bind, runIn_settle]

/-- What a lookup prints. -/
def printedManifest : Except TargetError String → String
  | .ok manifest => manifest ++ "\n"
  | .error _ => ""

/-- The manifest of a scenario is printed if it is found. -/
theorem runIn_scenario (place : Surroundings) (root name : String) (transcript : Transcript)
    (world : W) :
    let found :=
      (({} : TargetPaths).setScenarioRoot root).scenarioManifest place.home (seen world) name
    ∃ journal, runIn (scenario place root name) transcript world =
      ((Cause.raise .target found, ⟨transcript.output ++ printedManifest found, journal⟩),
        world) := by
  intro found
  let paths := ({} : TargetPaths).setScenarioRoot root
  obtain ⟨journal, hmanifest⟩ : ∃ journal,
      runIn (scenarioManifest place paths name) transcript world =
        ((Cause.raise .target found, { transcript with journal }), world) :=
    runIn_scenarioManifest place paths name transcript world
  refine ⟨journal, ?_⟩
  unfold scenario
  rw [runIn_bind, hmanifest]
  clear_value found
  cases found with
  | error e =>
      rw [printedManifest, String.append_empty]
      rfl
  | ok manifest =>
      rw [printedManifest, ← String.append_assoc]
      rfl

/-- By itself a scenario is looked up under the root that is given, or else that of the manifest. -/
theorem runIn_scenarioCommand {place : Surroundings} {transcript noted : Transcript} {world : W}
    {manifest : Option Manifest} {dir : String}
    (found : runIn (project place) transcript world = ((.ok (manifest, dir), noted), world))
    (root : Option String) (name : String) :
    let default := (manifest.bind (·.build.scenarios)).map (projectRelative place.home dir)
    let paths := ({} : TargetPaths).setScenarioRoot ((root.or default).getD ".")
    let found := paths.scenarioManifest place.home (seen world) name
    ∃ journal, runIn (CommandLine.command place (.scenario name root)) transcript world =
      (((Cause.raise .target found).map fun _ => (),
        ⟨noted.output ++ printedManifest found, journal⟩), world) := by
  intro default paths looked
  obtain ⟨journal, hscenario⟩ :=
    runIn_scenario place ((root.or default).getD ".") name noted world
  refine ⟨journal, ?_⟩
  unfold CommandLine.command scenarioRoot
  dsimp only
  rw [runIn_bind, runIn_bind, found]
  dsimp only
  rw [runIn_pure]
  dsimp only
  rw [runIn_discard, hscenario]

/-- The roots of the two lookups differ in no more than the slashes at the end of the home
directory, and only if the home directory is the root that is given. -/
theorem roots_of_resolve {home : String} (absolute : isAbsolute home = true)
    {options : BuildOptions} {manifest : Option Manifest} {dir : String}
    {settings : BuildSettings}
    (resolved : BuildSettings.resolve (some home) options manifest dir = .ok settings) :
    let default := (manifest.bind (·.build.scenarios)).map (projectRelative (some home) dir)
    let once := expandTilde (some home) (trimEnd ((options.scenarios.or default).getD "."))
    ∃ count, once = expandTilde (some home) (trimEnd (settings.scenarios.getD ".")) ++
        slashes count ∧
      (count ≠ 0 → ∃ root, options.scenarios = some root ∧ trimEnd root = "~" ∧
        endsWithSlash home = true) := by
  intro default once
  have hdefault : ((manifest.map Manifest.build).getD {}).scenarios =
      manifest.bind (·.build.scenarios) := by
    cases manifest with
    | none => rfl
    | some manifest => rfl
  have hsettled : settings.scenarios =
      (options.scenarios.map (expandTilde (some home))).or default := by
    have h := BuildSettings.settled_of_resolve resolved .scenarios
    dsimp only [PathSetting.settled, PathSetting.asked] at h
    rw [h, hdefault]
  cases hroot : options.scenarios with
  | none =>
      refine ⟨0, ?_, fun hne => absurd rfl hne⟩
      rw [hsettled]
      simp only [once, hroot, Option.map_none, Option.none_or]
      exact String.append_empty.symm
  | some root =>
      obtain ⟨count, honce, hcount⟩ := expandTilde_trimEnd absolute root
      refine ⟨count, ?_, fun hne => ⟨root, rfl, hcount hne⟩⟩
      rw [hsettled]
      simp only [once, hroot, Option.map_some, Option.some_or, Option.getD_some]
      exact honce

/-- A scenario is found alike by itself and in a build, on every steady world where slashes merge.
For every home directory from the top, every scenario and every root, both lookups find manifests
that are denoted in the same way, or fail for the same reason about paths that denote the same. What
is found by itself is printed, and what a build finds it assembles; a build looks for its scenario
once its settings are resolved and its input is there. Only if the home directory is the root that
is given, and has slashes at its end, the path of the manifest must not be too long with them. -/
theorem scenario_found_alike [MergesSlashes W] {home workingDir : String}
    (absolute : isAbsolute home = true) {options : BuildOptions} {name : String}
    (asked : options.scenario = some name) {world : W} {resolved : BuildSettings}
    (settled : (runOn (settings ⟨some home, workingDir⟩ options).execute world).1.1 = .ok resolved)
    (input : seen world resolved.input = .file)
    (short : ∀ root, options.scenarios = some root → trimEnd root = "~" →
      endsWithSlash home = true →
        (home ++ "/" ++ name ++ "/" ++ TargetPaths.scenarioManifestFile).utf8ByteSize <
          MergesSlashes.limit W) :
    let place : Surroundings := ⟨some home, workingDir⟩
    let paths := resolved.pathsSeen (seen world)
    let looked := paths.scenarioManifest place.home (seen world) name
    ∃ found, TargetPaths.SameOutcome found looked ∧
      (∃ journal, runOn (CommandLine.command place (.scenario name options.scenarios)).execute
          world =
        (((Cause.raise .target found).map fun _ => (), ⟨printedManifest found, journal⟩),
          world)) ∧
      ∃ noted, runOn (build place resolved).execute world =
        runIn (settle (Cause.raise .target looked) >>= buildWith resolved paths name) noted
          world := by
  intro place paths looked
  obtain ⟨result, noted, hsilent, hproject⟩ := runIn_project place {} world
  rw [runOn_execute, runIn_settings, hproject] at settled
  cases result with
  | error failure => cases settled
  | ok found =>
      obtain ⟨manifest, dir⟩ := found
      have hresolved : BuildSettings.resolve (some home) options manifest dir = .ok resolved :=
        settled
      have hscenario : resolved.scenario = some name := by
        have h := BuildSettings.resolve_scenario (some home) options manifest dir options.scenario
        rw [hresolved, asked] at h
        exact congrArg BuildSettings.scenario (Except.ok.inj h)
      obtain ⟨count, hroots, hcount⟩ := roots_of_resolve absolute hresolved
      obtain ⟨journal, hfound⟩ := runIn_scenarioCommand hproject options.scenarios name
      obtain ⟨begun, hlooked⟩ := runIn_build_of_scenario hscenario place input {}
      have hnothing : noted.output = "" := hsilent
      rw [hnothing, String.empty_append] at hfound
      refine ⟨_, ?_, ⟨journal, hfound⟩, begun, hlooked⟩
      apply TargetPaths.sameOutcome_scenarioManifest
      · rw [BuildSettings.scenarioRoot_pathsSeen]
        exact hroots
      · by_cases hcount0 : count = 0
        · exact .inl hcount0
        · obtain ⟨root, hroot, htilde, hslash⟩ := hcount hcount0
          have honce : expandTilde (some home) (({} : TargetPaths).setScenarioRoot
              ((options.scenarios.or ((manifest.bind (·.build.scenarios)).map
                (projectRelative (some home) dir))).getD ".")).scenarioRoot = home := by
            rw [hroot, Option.some_or, Option.getD_some, TargetPaths.setScenarioRoot, htilde,
              expandTilde_tilde]
          right
          rw [honce]
          exact short root hroot htilde hslash

end Steady

/-! ## At the home directory -/

/-- A disk with a scenario in the home directory and a listing elsewhere. -/
def homestead : Disk where
  workingPlace := ["w"]
  entries := [(["w"], .dir), (["w", "main.kdl"], .file ⟨#[]⟩), (["h"], .dir),
    (["h", "space"], .dir), (["h", "space", "manifest.kdl"], .file ⟨#[]⟩)]

def residence (home : String) : Surroundings :=
  { home := some home, workingDir := "/w" }

/-- A build with a scenario that is looked up in the home directory. -/
def homeward : BuildOptions :=
  { input := some "main.kdl", scenarios := some "~", scenario := some "space" }

def homewardSettings (home : String) : BuildSettings :=
  { input := "main.kdl", scenarios := some home, scenario := some "space" }

theorem runIn_project_residence (home : String) :
    runIn (project (residence home)) {} homestead = ((.ok (none, "/w"), {}), homestead) := by
  have hlocate : Manifest.locate?
      (runOn (Host.look ((Manifest.candidates "/w").map Manifest.pathIn)) homestead).1 "/w" =
        none := by decide +kernel
  have hfind : runOn (Manifest.find "/w") homestead = (.ok none, homestead) := by
    unfold Manifest.find
    rw [runOn_bind, hlocate]
    rfl
  unfold project residence
  rw [runIn_bind, runIn_lift, hfind]
  rfl

theorem settings_homeward (home : String) :
    (runOn (settings (residence home) homeward).execute homestead).1.1 =
      .ok (homewardSettings home) := by
  have hinput : expandTilde (some home) "main.kdl" = "main.kdl" :=
    expandTilde_of_startsAtHome_eq_false (by decide) (some home)
  rw [runOn_execute, runIn_settings, runIn_project_residence]
  simp only [BuildSettings.resolve, residence, homeward, Option.map_some, Option.map_none, hinput,
    expandTilde_tilde]
  rfl

/-- With a slash at its end, the home directory leads to the scenario all the same. -/
theorem scenario_found_alike_at_home :
    isAbsolute "/h/" = true ∧ homeward.scenario = some "space" ∧
    (runOn (settings (residence "/h/") homeward).execute homestead).1.1 =
      .ok (homewardSettings "/h/") ∧
    seen homestead (homewardSettings "/h/").input = .file ∧
    ("/h/" ++ "/" ++ "space" ++ "/" ++ TargetPaths.scenarioManifestFile).utf8ByteSize <
      MergesSlashes.limit Disk ∧
    let paths := (homewardSettings "/h/").pathsSeen (seen homestead)
    let looked := paths.scenarioManifest (some "/h/") (seen homestead) "space"
    ∃ found, TargetPaths.SameOutcome found looked ∧
      printedManifest found = "/h//space/manifest.kdl\n" ∧
      (∃ journal, runOn (CommandLine.command (residence "/h/")
          (.scenario "space" (some "~"))).execute homestead =
        (((Cause.raise .target found).map fun _ => (), ⟨printedManifest found, journal⟩),
          homestead)) ∧
      ∃ noted, runOn (build (residence "/h/") (homewardSettings "/h/")).execute homestead =
        runIn (settle (Cause.raise .target looked) >>=
          buildWith (homewardSettings "/h/") paths "space") noted homestead := by
  have absolute : isAbsolute "/h/" = true := by decide
  have input : seen homestead (homewardSettings "/h/").input = .file := by decide +kernel
  have short : ("/h/" ++ "/" ++ "space" ++ "/" ++ TargetPaths.scenarioManifestFile).utf8ByteSize <
      MergesSlashes.limit Disk := by decide
  obtain ⟨found, hsame, ⟨journal, hfound⟩, hlooked⟩ :=
    scenario_found_alike absolute (rfl : homeward.scenario = some "space")
      (settings_homeward "/h/") input fun _ _ _ _ => short
  have hprinted : (runOn (CommandLine.command (residence "/h/")
      (.scenario "space" (some "~"))).execute homestead).1.2.output =
        "/h//space/manifest.kdl\n" := by
    decide +kernel
  refine ⟨absolute, rfl, settings_homeward "/h/", input, short, found, hsame, ?_,
    ⟨journal, hfound⟩, hlooked⟩
  rw [residence, show (some "~" : Option String) = homeward.scenarios from rfl, hfound] at hprinted
  exact hprinted

/-- A scenario that a build finds in the home directory is missed by itself, when the home directory
is given with so many slashes at its end that no path with them is allowed. -/
theorem scenario_missed_at_long_home :
    let home := "/h" ++ slashes Disk.pathLimit
    let paths := (homewardSettings home).pathsSeen (seen homestead)
    isAbsolute home = true ∧
      (runOn (CommandLine.command (residence home) (.scenario "space" (some "~"))).execute
        homestead).1.1 =
          .error { cause := .target (.scenarioNotFound "space" (home ++ "/" ++ "space")) } ∧
      (runOn (settings (residence home) homeward).execute homestead).1.1 =
        .ok (homewardSettings home) ∧
      ∃ noted, runOn (build (residence home) (homewardSettings home)).execute homestead =
        runIn (buildWith (homewardSettings home) paths "space" "/h/space/manifest.kdl") noted
          homestead := by
  intro home paths
  have hlong : Disk.pathLimit ≤ (home ++ "/" ++ "space").utf8ByteSize := by
    simp only [home, String.utf8ByteSize_append, utf8ByteSize_slashes]
    omega
  -- By itself the lookup has the slashes in the paths that it asks about. A
  -- build has taken them off.
  have hmissed : (({} : TargetPaths).setScenarioRoot "~").scenarioManifest (some home)
      (seen homestead) "space" = .error (.scenarioNotFound "space" (home ++ "/" ++ "space")) := by
    have hroot : (({} : TargetPaths).setScenarioRoot "~").scenarioRoot = "~" := by decide
    have habsent : seen homestead (home ++ "/" ++ "space") = .absent :=
      Disk.seen_of_long hlong homestead
    unfold TargetPaths.scenarioManifest TargetPaths.scenarioDir
    rw [hroot, expandTilde_tilde, habsent]
    rfl
  have hfound : paths.scenarioManifest (some home) (seen homestead) "space" =
      .ok "/h/space/manifest.kdl" := by
    have hroot : expandTilde (some home) paths.scenarioRoot = "/h" := by
      have htrim : trimEnd home = "/h" := by
        rw [trimEnd_append, if_pos (trimEnd_slashes Disk.pathLimit)]
        decide
      rw [BuildSettings.scenarioRoot_pathsSeen, homewardSettings, Option.getD_some, htrim]
      exact expandTilde_of_startsAtHome_eq_false (by decide) _
    have hdir : seen homestead ("/h" ++ "/" ++ "space") = .dir := by decide +kernel
    have hfile : join ("/h" ++ "/" ++ "space") TargetPaths.scenarioManifestFile =
        "/h/space/manifest.kdl" := by decide
    have hthere : seen homestead "/h/space/manifest.kdl" = .file := by decide +kernel
    unfold TargetPaths.scenarioManifest TargetPaths.scenarioFile TargetPaths.scenarioDir
    rw [hroot, hdir, hfile, hthere]
    rfl
  refine ⟨isAbsolute_append_of_isAbsolute (by decide) _, ?_, settings_homeward home, ?_⟩
  · obtain ⟨journal, hran⟩ :=
      runIn_scenarioCommand (runIn_project_residence home) (some "~") "space"
    dsimp only [residence, Option.some_or, Option.getD_some] at hran
    rw [hmissed] at hran
    rw [runOn_execute, residence, hran]
    rfl
  · have hinput : seen homestead "main.kdl" = .file := by decide +kernel
    obtain ⟨noted, hran⟩ := runIn_build_of_scenario
      (rfl : (homewardSettings home).scenario = some "space") (residence home) hinput {}
    refine ⟨noted, ?_⟩
    rw [runOn_execute, hran]
    change runIn (settle (Cause.raise .target (paths.scenarioManifest (some home) _ _)) >>= _)
      _ _ = _
    rw [hfound, runIn_bind, runIn_settle]
    rfl

end ResourceAssembler.Command
