import ResourceAssembler.Host.Sketch
import ResourceAssembler.Proofs.Target.Save
import Mathlib.Data.List.Induction

/-!
# Sessions with a build target

A front end asks a build target for one operation after another, in any order and number, on a world
in which files and writers may fail at any time. What the target answered is kept, so that its phase
can be told from its saves: it is done exactly when the last save succeeded.
-/

namespace ResourceAssembler

/-- What a front end asks of a build target. -/
inductive Operation where
  | registerType (type : TypeDefinition)
  | findType (name : Lexeme)
  | typeAt (index : Nat)
  | addResource (record : ResourceRecord)
  | setFormat (format : Format)
  | setOutputName (name : String)
  | expandReference (reference : String)
  | findScenario (name : String)
  | save

/-- What a build target answers. -/
inductive Answer where
  | done
  | type (found : Except TargetError TypeDefinition)
  | typeAt (found : Option TypeDefinition)
  | path (text : String)
  | manifest (found : Except TargetError String)
  | artifact (result : Except TargetError String)

/-- Carries out an operation. -/
def BuildTarget.perform {m : Type → Type} [Monad m] [Host m] (home : Option String)
    (writer : ContainerWriter m) (target : BuildTarget) : Operation → m (Answer × BuildTarget)
  | .registerType type => return (.done, target.addType type)
  | .findType name => return (.type (target.registry.named name), target)
  | .typeAt index => return (.typeAt target.registry.types[index]?, target)
  | .addResource record => return (.done, target.addResource record)
  | .setFormat format => return (.done, target.setFormat format)
  | .setOutputName name => return (.done, target.setOutputName name)
  | .expandReference reference =>
    return (.path (target.paths.expandReference reference),
      target.report (target.paths.referenceNotices reference))
  | .findScenario name => do
    let found ← target.paths.locateScenario home name
    return (.manifest found, target.report (found.toOption.toList.map (.scenarioFound name)))
  | .save => do
    let (target, result) ← target.save writer
    return (.artifact result, target)

/-- A build target at work on a world, with what it was asked and what it answered so far. -/
structure Session (W : Type) where
  target : BuildTarget
  world : W
  history : List (Operation × Answer) := []

namespace Session

variable {W : Type}

/-- A new build target with settled paths. -/
def start (paths : TargetPaths) (world : W) : Session W :=
  { target := { paths }, world }

/-- The result of a save, if that is what was answered. -/
def saveResult? : Operation × Answer → Option (Except TargetError String)
  | (_, .artifact result) => some result
  | _ => none

/-- What the saves of a session returned, in order. -/
def saves (session : Session W) : List (Except TargetError String) :=
  session.history.filterMap saveResult?

variable [Host (StateM W)] (home : Option String) (writer : ContainerWriter (StateM W))

def step (session : Session W) (operation : Operation) : Session W :=
  let performed := runOn (session.target.perform home writer operation) session.world
  { target := performed.1.2
    world := performed.2
    history := session.history ++ [(operation, performed.1.1)] }

def run (session : Session W) (operations : List Operation) : Session W :=
  operations.foldl (step home writer) session

theorem run_concat (session : Session W) (operations : List Operation) (operation : Operation) :
    session.run home writer (operations ++ [operation]) =
      (session.run home writer operations).step home writer operation := by
  simp [run]

/-- What every operation keeps holds after every run. -/
theorem run_induction (Inv : Session W → Prop) {session : Session W} (hstart : Inv session)
    (hstep : ∀ session operation, Inv session → Inv (session.step home writer operation))
    (operations : List Operation) : Inv (session.run home writer operations) := by
  induction operations using List.reverseRecOn with
  | nil => exact hstart
  | append_singleton operations operation ih =>
      rw [run_concat]
      exact hstep _ operation ih

/-! ## The phase -/

/-- The phase of a target whose saves returned the given results. -/
def phaseOf (saves : List (Except TargetError String)) : Phase :=
  (saves.getLast?.map BuildTarget.phaseAfter).getD .configuring

theorem phaseOf_concat (saves : List (Except TargetError String))
    (result : Except TargetError String) :
    phaseOf (saves ++ [result]) = BuildTarget.phaseAfter result := by
  simp [phaseOf]

theorem phaseOf_eq_done_iff (saves : List (Except TargetError String)) :
    phaseOf saves = .done ↔ ∃ path, saves.getLast? = some (.ok path) := by
  rw [phaseOf]
  cases saves.getLast? with
  | none => simp
  | some result =>
      cases result with
      | ok path => simp [BuildTarget.phaseAfter]
      | error e => simp [BuildTarget.phaseAfter]

theorem phaseOf_ne_emitting (saves : List (Except TargetError String)) :
    phaseOf saves = .configuring ∨ phaseOf saves = .done := by
  rw [phaseOf]
  cases saves.getLast? with
  | none => exact .inl rfl
  | some result =>
      cases result with
      | ok path => exact .inr rfl
      | error e => exact .inl rfl

theorem saves_step (session : Session W) (operation : Operation) :
    (session.step home writer operation).saves = session.saves ++
      (saveResult? (operation,
        (runOn (session.target.perform home writer operation) session.world).1.1)).toList := by
  simp [saves, step, List.filterMap_append, List.filterMap_cons]
  split <;> simp [*]

/-- No operation but a save touches the phase, and none but a save returns the result of one. -/
theorem step_of_ne_save (session : Session W) {operation : Operation} (h : operation ≠ .save) :
    (session.step home writer operation).target.phase = session.target.phase ∧
      (session.step home writer operation).saves = session.saves := by
  rw [saves_step]
  cases operation with
  | save => exact absurd rfl h
  | _ => exact ⟨rfl, List.append_nil _⟩

/-- A save adds its result to the session and leaves the phase that belongs to it. It succeeds only
by way of the writer, which is asked for the target's own file, format and path in the world that
the preparation of the destination leaves. -/
theorem step_save (session : Session W) :
    let next := session.step home writer .save
    next.target.content = session.target.content ∧
      ∃ result, next.saves = session.saves ++ [result] ∧
        next.target.phase = BuildTarget.phaseAfter result ∧
        session.target.SaveOutcome writer session.world result next.world := by
  intro next
  obtain ⟨hcontent, hphase, houtcome⟩ :=
    BuildTarget.save_outcome writer session.target session.world
  exact ⟨hcontent, _, saves_step home writer session .save, hphase, houtcome⟩

/-- After every operation the phase is the one that belongs to the saves so far. -/
theorem phase_run (paths : TargetPaths) (world : W) (operations : List Operation) :
    let session := (start paths world).run home writer operations
    session.target.phase = phaseOf session.saves := by
  refine run_induction home writer (fun session => session.target.phase = phaseOf session.saves)
    rfl ?_ operations
  intro session operation ih
  by_cases hsave : operation = .save
  · subst hsave
    obtain ⟨-, result, hsaves, hphase, -⟩ := step_save home writer session
    rw [hsaves, phaseOf_concat, hphase]
  · obtain ⟨hphase, hsaves⟩ := step_of_ne_save home writer session hsave
    rw [hsaves, hphase, ih]

/-- The life of a build target, after every run of operations, however files and writers fail.
Between operations a target is configuring or done, and it is done exactly when it was saved and the
last save succeeded. Only saves touch the phase, and a save succeeds only after the writer has
accepted the target's file and format at the path that the save returns. -/
theorem lifecycle (home : Option String) (writer : ContainerWriter (StateM W)) (paths : TargetPaths)
    (world : W) (operations : List Operation) :
    let session := (start paths world).run home writer operations
    (session.target.phase = .configuring ∨ session.target.phase = .done) ∧
      (session.target.phase = .done ↔ ∃ path, session.saves.getLast? = some (.ok path)) ∧
      ∀ operation,
        let next := session.step home writer operation
        (operation ≠ .save →
          next.target.phase = session.target.phase ∧ next.saves = session.saves) ∧
        (operation = .save → ∃ result, next.saves = session.saves ++ [result] ∧
          ∀ path, result = .ok path → path = session.target.artifact ∧
            ∃ ready notices, session.target.preparation session.world = (.ok (), ready) ∧
              runOn (writer session.target.file session.target.format path) ready =
                (.ok notices, next.world)) := by
  intro session
  have hphase : session.target.phase = phaseOf session.saves :=
    phase_run home writer paths world operations
  rw [hphase]
  refine ⟨phaseOf_ne_emitting _, phaseOf_eq_done_iff _, ?_⟩
  intro operation next
  constructor
  · intro hne
    obtain ⟨hkept, hsaves⟩ := step_of_ne_save home writer session hne
    exact ⟨hkept.trans hphase, hsaves⟩
  · intro hsave
    subst hsave
    obtain ⟨-, result, hsaves, -, houtcome⟩ := step_save home writer session
    refine ⟨result, hsaves, ?_⟩
    intro path hpath
    subst hpath
    cases houtcome with
    | accepted prepared written => exact ⟨rfl, _, _, prepared, written⟩

/-- A target is done after its first save, and configuring again when the
writer refuses the second. -/
theorem configuring_after_refused_save :
    let onlyEmpty : ContainerWriter (StateM Sketch) := fun file _ _ =>
      pure (if file.groups.isEmpty then .ok [] else .error (.host .notFound))
    let record : ResourceRecord :=
      { code := ⟨'T', 'E', 'X', 'T', by decide⟩, id := 1, name := "", values := [] }
    let session : Session Sketch := start {} {}
    (session.run none onlyEmpty [.save]).target.phase = .done ∧
      (session.run none onlyEmpty [.save, .addResource record, .save]).target.phase =
        .configuring := by
  intro onlyEmpty record session
  have hfirst := lifecycle none onlyEmpty {} ({} : Sketch) [.save]
  have hsecond := lifecycle none onlyEmpty {} ({} : Sketch) [.save, .addResource record, .save]
  refine ⟨hfirst.2.1.mpr ⟨"./result.ndat", rfl⟩, hsecond.1.resolve_right ?_⟩
  intro hdone
  obtain ⟨path, hlast⟩ := hsecond.2.1.mp hdone
  cases hlast

end Session

end ResourceAssembler
