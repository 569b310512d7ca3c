import ResourceAssembler.Proofs.Outcome
import ResourceAssembler.Proofs.World
import ResourceAssembler.Target.Build

/-!
# What a save does

A save prepares the destination and then hands the resource file to the writer. It fails in the
first of the two steps that fails, and gives the path of the artifact otherwise. Whatever happens, a
save changes the phase and the journal of a build target and nothing else about it.
-/

namespace ResourceAssembler

namespace BuildTarget

variable {W : Type} [Host (StateM W)]

/-- A build target apart from its phase and its journal. -/
def content (target : BuildTarget) : BuildTarget :=
  { target with phase := .configuring, journal := #[] }

/-- The file name of the artifact is part of the content. -/
theorem outputFile_content (target : BuildTarget) :
    target.content.outputFile = target.outputFile := rfl

/-- So is the path of the artifact. -/
theorem artifact_content (target : BuildTarget) : target.content.artifact = target.artifact := rfl

/-! ## The destination -/

/-- A destination that need not be created, or that is a directory by now, is prepared without a
change. Any other one is asked for once. -/
theorem runOn_prepareDestination (target : BuildTarget) (world : W) :
    runOn (prepareDestination target) world =
      if target.paths.createDestination = false then ((target, .ok ()), world)
      else
        let root := target.paths.destinationRoot
        let looked := runOn (Host.look [root]) world
        if looked.1 root = .dir then ((target, .ok ()), looked.2)
        else
          let made := runOn (Host.createDirAll root) looked.2
          ((target.report [.destinationCreated root],
            made.1.mapError (.createDestination root)), made.2) := by
  unfold prepareDestination
  by_cases hcreate : target.paths.createDestination = false
  · simp [hcreate]
  · by_cases hdir : (runOn (Host.look [target.paths.destinationRoot]) world).1
        target.paths.destinationRoot = .dir
    · simp [hcreate, hdir]
    · cases hmade : (runOn (Host.createDirAll target.paths.destinationRoot)
          (runOn (Host.look [target.paths.destinationRoot]) world).2).1 with
      | ok u => simp [hcreate, hdir, hmade, Outcome.mapError_ok]
      | error fault => simp [hcreate, hdir, hmade, Outcome.mapError_error]

/-- The outcome of preparing the destination in a world, and the world after it. -/
def preparation (target : BuildTarget) (world : W) : Except TargetError Unit × W :=
  let prepared := runOn (prepareDestination target) world
  (prepared.1.2, prepared.2)

theorem preparation_eq (target : BuildTarget) (world : W) :
    target.preparation world =
      if target.paths.createDestination = false then (.ok (), world)
      else
        let root := target.paths.destinationRoot
        let looked := runOn (Host.look [root]) world
        if looked.1 root = .dir then (.ok (), looked.2)
        else
          let made := runOn (Host.createDirAll root) looked.2
          (made.1.mapError (.createDestination root), made.2) := by
  rw [preparation, runOn_prepareDestination]
  split
  · rfl
  · dsimp only
    split <;> rfl

/-- Only a directory that could not be created keeps a destination from being prepared. -/
theorem preparation_error {target : BuildTarget} {world after : W} {e : TargetError}
    (h : target.preparation world = (.error e, after)) :
    ∃ fault, e = .createDestination target.paths.destinationRoot fault := by
  rw [preparation_eq] at h
  split at h
  · cases h
  · dsimp only at h
    split at h
    · cases h
    · cases hmade : (runOn (Host.createDirAll target.paths.destinationRoot)
          (runOn (Host.look [target.paths.destinationRoot]) world).2).1 with
      | ok u =>
          rw [hmade] at h
          cases h
      | error fault =>
          rw [hmade] at h
          cases h
          exact ⟨fault, rfl⟩

theorem content_prepareDestination (target : BuildTarget) (world : W) :
    (runOn (prepareDestination target) world).1.1.content = target.content := by
  rw [runOn_prepareDestination]
  split
  · rfl
  · dsimp only
    split <;> rfl

/-! ## The artifact -/

theorem runOn_emit_of_unprepared {target prepared : BuildTarget} {world after : W} {e : TargetError}
    (h : runOn (prepareDestination target) world = ((prepared, .error e), after))
    (writer : ContainerWriter (StateM W)) (path : String) :
    runOn (emit writer target path) world = ((prepared, .error e), after) :=
  runOn_bind_of h _

theorem runOn_emit_of_refused {target prepared : BuildTarget} {world ready after : W}
    {writer : ContainerWriter (StateM W)} {path : String} {cause : ContainerError}
    (h : runOn (prepareDestination target) world = ((prepared, .ok ()), ready))
    (hwritten : runOn (writer prepared.file prepared.format path) ready = (.error cause, after)) :
    runOn (emit writer target path) world = ((prepared, .error (.write path cause)), after) :=
  (runOn_bind_of h _).trans (runOn_bind_of hwritten _)

theorem runOn_emit_of_accepted {target prepared : BuildTarget} {world ready after : W}
    {writer : ContainerWriter (StateM W)} {path : String} {notices : List Notice}
    (h : runOn (prepareDestination target) world = ((prepared, .ok ()), ready))
    (hwritten : runOn (writer prepared.file prepared.format path) ready = (.ok notices, after)) :
    runOn (emit writer target path) world = ((prepared.report notices, .ok ()), after) :=
  (runOn_bind_of h _).trans (runOn_bind_of hwritten _)

/-! ## The whole save -/

/-- How a save ends: what it returns and the world that it leaves. -/
inductive SaveOutcome (writer : ContainerWriter (StateM W)) (target : BuildTarget) (world : W) :
    Except TargetError String → W → Prop where
  /-- The destination could not be prepared, and the writer was not asked. -/
  | unprepared {e : TargetError} {after : W}
      (prepared : target.preparation world = (.error e, after)) :
      SaveOutcome writer target world (.error e) after
  /-- The writer refused the artifact. -/
  | refused {ready after : W} {cause : ContainerError}
      (prepared : target.preparation world = (.ok (), ready))
      (written : runOn (writer target.file target.format target.artifact) ready =
        (.error cause, after)) :
      SaveOutcome writer target world (.error (.write target.artifact cause)) after
  /-- The writer accepted the artifact. -/
  | accepted {ready after : W} {notices : List Notice}
      (prepared : target.preparation world = (.ok (), ready))
      (written : runOn (writer target.file target.format target.artifact) ready =
        (.ok notices, after)) :
      SaveOutcome writer target world (.ok target.artifact) after

/-- The error of a save says whether the destination or the artifact was the trouble. -/
theorem SaveOutcome.error_eq {writer : ContainerWriter (StateM W)}
    {target : BuildTarget} {world after : W} {e : TargetError}
    (h : target.SaveOutcome writer world (.error e) after) :
    (∃ fault, e = .createDestination target.paths.destinationRoot fault) ∨
      ∃ cause, e = .write target.artifact cause := by
  cases h with
  | unprepared prepared => exact .inl (preparation_error prepared)
  | refused prepared written => exact .inr ⟨_, rfl⟩

/-- Whatever it returns, a save ends with the preparation or with the writer. -/
theorem SaveOutcome.unprepared_or_handed {writer : ContainerWriter (StateM W)}
    {target : BuildTarget} {world after : W} {result : Except TargetError String}
    (h : target.SaveOutcome writer world result after) :
    (∃ e, target.preparation world = (.error e, after)) ∨
      ∃ ready written, target.preparation world = (.ok (), ready) ∧
        runOn (writer target.file target.format target.artifact) ready = (written, after) := by
  cases h with
  | unprepared prepared => exact .inl ⟨_, prepared⟩
  | refused prepared written => exact .inr ⟨_, _, prepared, written⟩
  | accepted prepared written => exact .inr ⟨_, _, prepared, written⟩

/-- The phase of a target after a save with the given result. -/
def phaseAfter : Except TargetError String → Phase
  | .ok _ => .done
  | .error _ => .configuring

/-- A target as a save starts to emit it. -/
def opened (target : BuildTarget) : BuildTarget :=
  { (if target.phase = .done then target.report [.savedAgain target.artifact] else target) with
    phase := .emitting }

theorem content_opened (target : BuildTarget) : target.opened.content = target.content := by
  unfold opened
  split <;> rfl

theorem runOn_save_of_emitted {writer : ContainerWriter (StateM W)} {target emitted : BuildTarget}
    {world after : W} {outcome : Except TargetError Unit}
    (h : runOn (emit writer target.opened target.artifact) world = ((emitted, outcome), after)) :
    let result := outcome.map fun () => target.artifact
    runOn (target.save writer) world =
      (({ emitted with phase := phaseAfter result }, result), after) := by
  cases outcome with
  | ok u => exact runOn_bind_of h _
  | error e => exact runOn_bind_of h _

/-- What every save does to the target, and in which ways it can end. -/
theorem save_outcome (writer : ContainerWriter (StateM W)) (target : BuildTarget) (world : W) :
    let saved := runOn (target.save writer) world
    saved.1.1.content = target.content ∧ saved.1.1.phase = phaseAfter saved.1.2 ∧
      SaveOutcome writer target world saved.1.2 saved.2 := by
  intro saved
  rcases hprepared : runOn (prepareDestination target.opened) world with
    ⟨⟨prepared, outcome⟩, ready⟩
  have hcontent : prepared.content = target.content := by
    have h := content_prepareDestination target.opened world
    rwa [hprepared, content_opened] at h
  have hpreparation : target.preparation world = (outcome, ready) := by
    have h : target.opened.preparation world = (outcome, ready) := by
      rw [preparation, hprepared]
    have hpaths : target.opened.paths = target.paths := congrArg (·.paths) target.content_opened
    rwa [preparation_eq, hpaths, ← preparation_eq] at h
  have hfile : prepared.file = target.file := congrArg (·.file) hcontent
  have hformat : prepared.format = target.format := congrArg (·.format) hcontent
  cases outcome with
  | error e =>
      have h : saved = _ := runOn_save_of_emitted (runOn_emit_of_unprepared hprepared writer _)
      rw [h]
      exact ⟨hcontent, rfl, .unprepared hpreparation⟩
  | ok u =>
      rcases hwritten : runOn (writer target.file target.format target.artifact) ready with
        ⟨written, after⟩
      have hasked : runOn (writer prepared.file prepared.format target.artifact) ready =
          (written, after) := by
        rw [hfile, hformat, hwritten]
      cases written with
      | error cause =>
          have h : saved = _ := runOn_save_of_emitted (runOn_emit_of_refused hprepared hasked)
          rw [h]
          exact ⟨hcontent, rfl, .refused hpreparation hwritten⟩
      | ok notices =>
          have h : saved = _ := runOn_save_of_emitted (runOn_emit_of_accepted hprepared hasked)
          rw [h]
          exact ⟨hcontent, rfl, .accepted hpreparation hwritten⟩

end BuildTarget

/-! ## The file of an artifact -/

namespace ResourceFile

variable {W : Type} [Host (StateM W)] {file : ResourceFile} {format : Format}

/-- A container that is not complete in memory is not written. -/
theorem runOn_writeToHost_of_error {e : ContainerError} (h : file.encode format = .error e)
    (path : String) (world : W) :
    runOn (writeToHost file format path) world = (.error e, world) := by
  unfold writeToHost
  rw [h]
  rfl

/-- A complete container is written at once. -/
theorem runOn_writeToHost_of_ok {bytes : ByteArray} (h : file.encode format = .ok bytes)
    (path : String) (world : W) :
    runOn (writeToHost file format path) world =
      let written := runOn (Host.write path bytes) world
      ((written.1.mapError .host).map fun () =>
        [.containerWritten file.resourceCount bytes.size format path], written.2) := by
  unfold writeToHost
  rw [h]
  rcases hwritten : runOn (Host.write path bytes) world with ⟨done, after⟩
  cases done with
  | ok u => exact runOn_bind_of hwritten _
  | error fault => exact runOn_bind_of hwritten _

/-- A container is accepted when it is complete and the host accepts its bytes. -/
theorem writeToHost_accepted {path : String} {world after : W} {notices : List Notice}
    (h : runOn (writeToHost file format path) world = (.ok notices, after)) :
    ∃ bytes, file.encode format = .ok bytes ∧
      runOn (Host.write path bytes) world = (.ok (), after) := by
  cases hencode : file.encode format with
  | error e =>
      rw [runOn_writeToHost_of_error hencode] at h
      cases h
  | ok bytes =>
      rw [runOn_writeToHost_of_ok hencode] at h
      rcases hwritten : runOn (Host.write path bytes) world with ⟨done, written⟩
      rw [hwritten] at h
      cases done with
      | error fault => cases h
      | ok u =>
          cases h
          exact ⟨bytes, rfl, hwritten⟩

/-- A container is refused when it is not complete, and then no host is asked, or when
the host refuses its bytes. -/
theorem writeToHost_refused {path : String} {world after : W} {cause : ContainerError}
    (h : runOn (writeToHost file format path) world = (.error cause, after)) :
    after = world ∨ ∃ bytes fault, runOn (Host.write path bytes) world = (.error fault, after) := by
  cases hencode : file.encode format with
  | error e =>
      rw [runOn_writeToHost_of_error hencode] at h
      cases h
      exact .inl rfl
  | ok bytes =>
      rw [runOn_writeToHost_of_ok hencode] at h
      rcases hwritten : runOn (Host.write path bytes) world with ⟨done, written⟩
      rw [hwritten] at h
      cases done with
      | ok u => cases h
      | error fault =>
          cases h
          exact .inr ⟨bytes, fault, hwritten⟩

end ResourceFile

end ResourceAssembler
