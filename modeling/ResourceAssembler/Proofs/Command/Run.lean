import ResourceAssembler.Command.Build
import ResourceAssembler.Proofs.Target.Save

/-!
# Runs of commands

A run of a command starts from a transcript and a world. It ends with a result, with the
transcript as far as it was written, and with the world that is left. These equations take a run
apart into the runs of its steps.
-/

namespace ResourceAssembler.Command

variable {W α β : Type}

def runIn (command : Command (StateM W) α) (transcript : Transcript) (world : W) :
    (Except Failure α × Transcript) × W :=
  runOn (command.run.run transcript) world

theorem runOn_execute (command : Command (StateM W) α) (world : W) :
    runOn command.execute world = command.runIn {} world := rfl

/-! ## Steps -/

theorem runIn_pure (a : α) (transcript : Transcript) (world : W) :
    runIn (pure a) transcript world = ((.ok a, transcript), world) := rfl

/-- A command goes on only with a result, and stops with a failure where it arises. -/
theorem runIn_bind (command : Command (StateM W) α) (next : α → Command (StateM W) β)
    (transcript : Transcript) (world : W) :
    runIn (command >>= next) transcript world = match runIn command transcript world with
      | ((.ok a, noted), after) => runIn (next a) noted after
      | ((.error failure, noted), after) => ((.error failure, noted), after) := by
  unfold runIn
  rw [ExceptT.run_bind, StateT.run_bind, runOn_bind]
  rcases runOn (command.run.run transcript) world with ⟨⟨result, noted⟩, after⟩
  cases result with
  | ok a => rfl
  | error failure => rfl

theorem runIn_lift (work : StateM W α) (transcript : Transcript) (world : W) :
    runIn (liftM work) transcript world =
      ((.ok (runOn work world).1, transcript), (runOn work world).2) := rfl

theorem runIn_settle (result : Except Failure α) (transcript : Transcript) (world : W) :
    runIn (settle result) transcript world = ((result, transcript), world) := by
  cases result with
  | ok a => rfl
  | error failure => rfl

theorem runIn_refuse (message : String) (transcript : Transcript) (world : W) :
    runIn (refuse message : Command (StateM W) α) transcript world =
      ((.error { cause := .plain message }, transcript), world) := rfl

theorem runIn_report (notices : List Notice) (transcript : Transcript) (world : W) :
    runIn (report notices) transcript world =
      ((.ok (), { transcript with journal := transcript.journal ++ notices }), world) := rfl

/-- Work on a target leaves its world, its result and, emptied of notices, its target. -/
theorem runIn_onTarget {target worked : BuildTarget}
    {work : BuildTarget → StateM W (Except Failure α × BuildTarget)} {world after : W}
    {result : Except Failure α} (h : runOn (work target) world = ((result, worked), after))
    (transcript : Transcript) :
    runIn (onTarget target work) transcript world =
      ((result.map fun a => (a, { worked with journal := #[] }),
        { transcript with journal := transcript.journal ++ worked.journal.toList }), after) := by
  unfold onTarget
  rw [runIn_bind, runIn_lift, h]
  dsimp only
  rw [runIn_bind, runIn_report]
  dsimp only
  rw [runIn_bind, runIn_settle]
  cases result with
  | ok a => rfl
  | error failure => rfl

/-- A command whose result does not matter. -/
theorem runIn_discard (command : Command (StateM W) α) (transcript : Transcript) (world : W) :
    runIn (discard command) transcript world =
      let ran := runIn command transcript world
      ((ran.1.1.map fun _ => (), ran.1.2), ran.2) := by
  change runIn (command >>= fun _ => pure ()) transcript world = _
  rw [runIn_bind]
  rcases runIn command transcript world with ⟨⟨result, noted⟩, after⟩
  cases result with
  | ok a => rfl
  | error failure => rfl

/-- Printing adds a line. -/
theorem runIn_print (line : String) (transcript : Transcript) (world : W) :
    runIn (print line) transcript world =
      ((.ok (), { transcript with output := transcript.output ++ line ++ "\n" }), world) := rfl

/-- Settings are resolved for the project that is found, with what has to be reported about it. -/
theorem runIn_settings [Host (StateM W)] (place : Surroundings) (options : BuildOptions)
    (transcript : Transcript) (world : W) :
    runIn (settings place options) transcript world =
      match runIn (project place) transcript world with
      | ((.ok (manifest, dir), noted), after) =>
        ((BuildSettings.resolve place.home options manifest dir, noted), after)
      | ((.error failure, noted), after) => ((.error failure, noted), after) := by
  unfold settings
  rw [runIn_bind]
  rcases runIn (project place) transcript world with ⟨⟨result, noted⟩, after⟩
  cases result with
  | error failure => rfl
  | ok found => exact runIn_settle _ noted after

/-! ## The steps of a build -/

/-- The line that a build prints about what it produced. -/
def reportLine (report : BuildReport) (format : Format) : String :=
  s!"Wrote {report.resources} resources ({report.types} types, {format}) to " ++ report.artifact

variable {m : Type → Type} [Monad m] [Host m]

/-- Asks for the input. -/
def requireInput (settings : BuildSettings) : Command m Unit := do
  let look ← (Host.look [settings.input] : m _)
  if look settings.input ≠ .file then refuse s!"input file not found: {settings.input}"

/-- What a build does before it saves. The input has to be there; then the paths are settled, and
the scenario and the input are assembled. -/
def prepare (place : Surroundings) (settings : BuildSettings) :
    Command m (AssemblySummary × BuildTarget) := do
  requireInput settings
  let paths ← paths settings
  let (first, target) ← assembleScenario place settings { paths, format := settings.format }
  let (second, target) ← onTarget target (·.assemble settings.input)
  return (first.add second, target)

/-- What a build does once all is assembled. -/
def finish (settings : BuildSettings) (summary : AssemblySummary) (target : BuildTarget) :
    Command m BuildReport := do
  let artifact ← save target
  print (s!"Wrote {summary.resources} resources ({summary.types} types, {settings.format}) to " ++
    artifact)
  return { artifact, types := summary.types, resources := summary.resources }

theorem build_eq [LawfulMonad m] (place : Surroundings) (settings : BuildSettings) :
    (build place settings : Command m BuildReport) = prepare place settings >>= fun prepared =>
      finish settings prepared.1 prepared.2 := by
  unfold build prepare requireInput finish
  simp only [bind_assoc, pure_bind]
  congr 1
  funext look
  split
  · rfl
  · simp only [pure_bind]

/-- A command that saves ends as the save does. -/
theorem runIn_save [Host (StateM W)] (target : BuildTarget) (transcript : Transcript) (world : W) :
    let saved := runOn (target.save ResourceFile.writeToHost) world
    runIn (save target) transcript world =
      ((Cause.raise .target saved.1.2,
        { transcript with journal := transcript.journal ++ saved.1.1.journal.toList }),
        saved.2) := by
  intro saved
  change runIn (onTarget target (fun target =>
    target.save ResourceFile.writeToHost >>= fun saved =>
      pure (Cause.raise .target saved.2, saved.1)) >>= fun saved => pure saved.1)
    transcript world = _
  have hsaved : runOn (target.save ResourceFile.writeToHost >>= fun saved =>
      pure (Cause.raise .target saved.2, saved.1)) world =
      ((Cause.raise .target saved.1.2, saved.1.1), saved.2) := rfl
  rw [runIn_bind, runIn_onTarget hsaved]
  cases saved.1.2 with
  | ok artifact => rfl
  | error e => rfl

/-- What is done once all is assembled ends as the save does, with a line about an artifact that was
written. -/
theorem runIn_finish [Host (StateM W)] (settings : BuildSettings) (summary : AssemblySummary)
    (target : BuildTarget) (transcript : Transcript) (world : W) :
    let saved := runOn (target.save ResourceFile.writeToHost) world
    let journal := transcript.journal ++ saved.1.1.journal.toList
    runIn (finish settings summary target) transcript world =
      match saved.1.2 with
      | .ok artifact =>
        let report : BuildReport :=
          { artifact, types := summary.types, resources := summary.resources }
        ((.ok report, ⟨transcript.output ++ reportLine report settings.format ++ "\n", journal⟩),
          saved.2)
      | .error e => ((.error { cause := .target e }, { transcript with journal }), saved.2) := by
  intro saved journal
  change runIn (save target >>= fun artifact => print _ >>= fun _ => pure _) transcript world = _
  rw [runIn_bind, runIn_save]
  cases saved.1.2 with
  | ok artifact => rfl
  | error e => rfl

/-- It fails only as the save does. -/
theorem runIn_finish_error [Host (StateM W)] {settings : BuildSettings} {summary : AssemblySummary}
    {target : BuildTarget} {transcript noted : Transcript} {world after : W} {failure : Failure}
    (h : runIn (finish settings summary target) transcript world =
      ((.error failure, noted), after)) :
    ∃ e, failure = { cause := .target e } ∧
      target.SaveOutcome ResourceFile.writeToHost world (.error e) after := by
  have houtcome := (BuildTarget.save_outcome ResourceFile.writeToHost target world).2.2
  rw [runIn_finish] at h
  dsimp only at h
  cases hresult : (runOn (target.save ResourceFile.writeToHost) world).1.2 with
  | ok artifact =>
      rw [hresult] at h
      cases h
  | error e =>
      rw [hresult] at h houtcome
      cases h
      exact ⟨e, rfl, houtcome⟩

end ResourceAssembler.Command
