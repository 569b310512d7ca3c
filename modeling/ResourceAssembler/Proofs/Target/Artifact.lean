import ResourceAssembler.Proofs.ResourceFile.History
import ResourceAssembler.Proofs.Target.Session

/-!
# What a save writes

What a session did apart from adding resources and choosing a format and a file name does not show
in the artifacts that it saves: not the types it registered, not what it looked up, and not the
saves before, whether they failed or not. To speak of the bytes that a save writes, sessions are
held on a ledger, a world that keeps a list of the files that it accepted.
-/

namespace ResourceAssembler

/-! ## The content of a target -/

namespace Operation

def type? : Operation → Option TypeDefinition
  | registerType type => some type
  | _ => none

def record? : Operation → Option ResourceRecord
  | addResource record => some record
  | _ => none

def format? : Operation → Option Format
  | setFormat format => some format
  | _ => none

def outputName? : Operation → Option String
  | setOutputName name => some name
  | _ => none

/-- The format that was set last, or else the one that a new target has. -/
def lastFormat (operations : List Operation) : Format :=
  (operations.filterMap format?).getLast?.getD .classic

/-- The resource file that the added resources make, in the order in which they were added. -/
def fileOf (operations : List Operation) : ResourceFile :=
  .ofHistory ((operations.filterMap record?).map Addition.ofRecord)

/-- The content of a new target after the given operations. -/
def contentOf (paths : TargetPaths) (operations : List Operation) : BuildTarget where
  paths
  format := lastFormat operations
  outputName := (operations.filterMap outputName?).getLast?
  registry := ⟨operations.filterMap type?⟩
  file := fileOf operations
  forwarded := (operations.filterMap record?).length

/-- What an operation does to the content of a target. -/
def effect (content : BuildTarget) : Operation → BuildTarget
  | registerType type => { content with registry := content.registry.register type }
  | addResource record =>
    { content with
      file := content.file.insert record.code ⟨record.id, record.name, record.payload⟩
      forwarded := content.forwarded + 1 }
  | setFormat format => { content with format }
  | setOutputName name => { content with outputName := some name }
  | _ => content

theorem contentOf_concat (paths : TargetPaths) (operations : List Operation)
    (operation : Operation) :
    contentOf paths (operations ++ [operation]) =
      operation.effect (contentOf paths operations) := by
  cases operation with
  | addResource record =>
      simp [contentOf, effect, lastFormat, fileOf, format?, outputName?, type?, record?,
        ResourceFile.ofHistory_concat, Addition.ofRecord]
  | _ =>
      simp [contentOf, effect, lastFormat, fileOf, format?, outputName?, type?, record?,
        List.filterMap_cons, Registry.register]

end Operation

namespace Session

variable {W : Type} [Host (StateM W)] (home : Option String) (writer : ContainerWriter (StateM W))

theorem content_step (session : Session W) (operation : Operation) :
    (session.step home writer operation).target.content =
      operation.effect session.target.content := by
  cases operation with
  | save => exact (step_save home writer session).1
  | _ => rfl

/-- What a target holds is told from the operations alone. -/
theorem content_run (paths : TargetPaths) (world : W) (operations : List Operation) :
    ((start paths world).run home writer operations).target.content =
      Operation.contentOf paths operations := by
  induction operations using List.reverseRecOn with
  | nil => rfl
  | append_singleton operations operation ih =>
      rw [run_concat, content_step, ih, Operation.contentOf_concat]

end Session

/-! ## Deletions -/

/-- The operations that cannot show in an artifact. -/
def Operation.Inert : Operation → Prop
  | addResource _ | setFormat _ | setOutputName _ => False
  | _ => True

/-- The second row is what remains of the first when inert operations are deleted. -/
inductive Operation.Deletion : List Operation → List Operation → Prop where
  | nil : Deletion [] []
  | keep {whole kept : List Operation} (operation : Operation) (rest : Deletion whole kept) :
      Deletion (operation :: whole) (operation :: kept)
  | delete {whole kept : List Operation} {operation : Operation} (inert : operation.Inert)
      (rest : Deletion whole kept) : Deletion (operation :: whole) kept

namespace Operation

/-- What no inert operation gives is left alone by a deletion. -/
theorem Deletion.filterMap_eq {α : Type} {part? : Operation → Option α}
    (hpart : ∀ operation, operation.Inert → part? operation = none) {whole kept : List Operation}
    (h : Deletion whole kept) : whole.filterMap part? = kept.filterMap part? := by
  induction h with
  | nil => rfl
  | keep operation rest ih => rw [List.filterMap_cons, List.filterMap_cons, ih]
  | delete inert rest ih => rw [List.filterMap_cons_none (hpart _ inert), ih]

theorem parts_of_inert {operation : Operation} (h : operation.Inert) :
    operation.record? = none ∧ operation.format? = none ∧ operation.outputName? = none := by
  cases operation with
  | addResource record => exact h.elim
  | setFormat format => exact h.elim
  | setOutputName name => exact h.elim
  | _ => exact ⟨rfl, rfl, rfl⟩

/-- A deletion changes neither the file nor the format nor the name of the artifact. -/
theorem Deletion.parts_eq {whole kept : List Operation} (h : Deletion whole kept) :
    fileOf whole = fileOf kept ∧ lastFormat whole = lastFormat kept ∧
      (whole.filterMap outputName?).getLast? = (kept.filterMap outputName?).getLast? := by
  have hrecord := h.filterMap_eq fun _ inert => (parts_of_inert inert).1
  have hformat := h.filterMap_eq fun _ inert => (parts_of_inert inert).2.1
  have hname := h.filterMap_eq fun _ inert => (parts_of_inert inert).2.2
  exact ⟨by rw [fileOf, hrecord, fileOf], by rw [lastFormat, hformat, lastFormat], by rw [hname]⟩

end Operation

/-! ## Ledgers -/

/-- A world with the files that it accepted, each with its path and its bytes, in order. -/
structure Ledger (W : Type) where
  world : W
  written : List (String × ByteArray) := []

namespace Ledger

/-- What a write adds to the list of accepted files. -/
def entry (path : String) (bytes : ByteArray) :
    Except HostFault Unit → List (String × ByteArray)
  | .ok () => [(path, bytes)]
  | .error _ => []

variable {W : Type} [Host (StateM W)]

instance : Host (StateM (Ledger W)) where
  look paths := fun ledger =>
    let (look, world) := runOn (Host.look paths) ledger.world
    (look, { ledger with world })
  read paths := fun ledger =>
    let (read, world) := runOn (Host.read paths) ledger.world
    (read, { ledger with world })
  createDirAll path := fun ledger =>
    let (result, world) := runOn (Host.createDirAll path) ledger.world
    (result, { ledger with world })
  write path bytes := fun ledger =>
    let (result, world) := runOn (Host.write path bytes) ledger.world
    (result, ⟨world, ledger.written ++ entry path bytes result⟩)

/-- Preparing a destination writes no file. -/
theorem written_preparation (target : BuildTarget) (ledger : Ledger W) :
    (target.preparation ledger).2.written = ledger.written := by
  rw [BuildTarget.preparation_eq]
  split
  · rfl
  · dsimp only
    split <;> rfl

theorem written_write (path : String) (bytes : ByteArray) (ledger : Ledger W) :
    let result := runOn (Host.write path bytes) ledger
    result.2.written = ledger.written ++ entry path bytes result.1 := rfl

/-- A container that was accepted is written as its bytes at its path. -/
theorem written_of_accepted {file : ResourceFile} {format : Format} {path : String}
    {ledger after : Ledger W} {notices : List Notice}
    (h : runOn (ResourceFile.writeToHost file format path) ledger = (.ok notices, after)) :
    ∃ bytes, file.encode format = .ok bytes ∧
      after.written = ledger.written ++ [(path, bytes)] := by
  obtain ⟨bytes, hencode, haccepted⟩ := ResourceFile.writeToHost_accepted h
  have hwritten := written_write path bytes ledger
  rw [haccepted] at hwritten
  exact ⟨bytes, hencode, hwritten⟩

/-- A container that was refused is not written. -/
theorem written_of_refused {file : ResourceFile} {format : Format} {path : String}
    {ledger after : Ledger W} {cause : ContainerError}
    (h : runOn (ResourceFile.writeToHost file format path) ledger = (.error cause, after)) :
    after.written = ledger.written := by
  obtain hsame | ⟨bytes, fault, hrefused⟩ := ResourceFile.writeToHost_refused h
  · rw [hsame]
  · have hwritten := written_write path bytes ledger
    rw [hrefused] at hwritten
    simpa [entry] using hwritten

end Ledger

namespace Session

variable {W : Type} [Host (StateM W)]

/-- What a save on a ledger returns and writes. -/
theorem save_on_ledger (home : Option String) (session : Session (Ledger W)) :
    let saved := session.step home ResourceFile.writeToHost .save
    saved.target.content = session.target.content ∧
      ∃ result, saved.saves = session.saves ++ [result] ∧
        match result with
        | .ok path => path = session.target.artifact ∧
            ∃ bytes, session.target.file.encode session.target.format = .ok bytes ∧
              saved.world.written = session.world.written ++ [(path, bytes)]
        | .error _ => saved.world.written = session.world.written := by
  intro saved
  obtain ⟨hcontent, result, hsaves, -, houtcome⟩ :=
    step_save home ResourceFile.writeToHost session
  refine ⟨hcontent, result, hsaves, ?_⟩
  have hprepared := Ledger.written_preparation session.target session.world
  cases houtcome with
  | unprepared prepared => rwa [prepared] at hprepared
  | refused prepared written =>
      rw [prepared] at hprepared
      exact (Ledger.written_of_refused written).trans hprepared
  | accepted prepared written =>
      rw [prepared] at hprepared
      have h := Ledger.written_of_accepted written
      rw [hprepared] at h
      exact ⟨rfl, h⟩

/-- The path that operations on a new target lead to. -/
def artifactOf (paths : TargetPaths) (operations : List Operation) : String :=
  artifactPath paths.destinationRoot
    ((operations.filterMap Operation.outputName?).getLast?.getD paths.destinationFile)
    (Operation.lastFormat operations)

/-- The path and the bytes of a save that succeeds are told from the operations before it. -/
theorem written_of_save (home : Option String) (paths : TargetPaths) (ledger : Ledger W)
    (operations : List Operation) {path : String} :
    let session := (start paths ledger).run home ResourceFile.writeToHost operations
    let saved := session.step home ResourceFile.writeToHost .save
    saved.saves = session.saves ++ [.ok path] →
      path = artifactOf paths operations ∧
        ∃ bytes,
          (Operation.fileOf operations).encode (Operation.lastFormat operations) = .ok bytes ∧
          saved.world.written = session.world.written ++ [(path, bytes)] := by
  intro session saved hsaved
  obtain ⟨-, result, hsaves, hresult⟩ := save_on_ledger home session
  have hok : result = .ok path := by
    simpa using hsaves.symm.trans hsaved
  subst hok
  have hcontent := content_run home ResourceFile.writeToHost paths ledger operations
  have hartifact : session.target.artifact = artifactOf paths operations := by
    rw [← BuildTarget.artifact_content, hcontent]
    rfl
  have hfile : session.target.file = Operation.fileOf operations := congrArg (·.file) hcontent
  have hformat : session.target.format = Operation.lastFormat operations :=
    congrArg (·.format) hcontent
  rw [hartifact, hfile, hformat] at hresult
  exact hresult

/-- What a save writes depends on what was added and set, and on nothing else. After any operations
on a new target, a save that succeeds writes one file. Its path joins the destination root, the last
name set or else the destination's, and the ending of the last format set or else of the classic
one. Its bytes are the encoding in that format of the file that the added resources make in their
order. A save that fails writes nothing and leaves the registry, the resources, their count, the
format and the name as they were. So a run from which types, lookups and saves were deleted saves
the same bytes to the same path, on whatever ledger it starts, whenever both saves succeed. -/
theorem save_writes_additions (home : Option String) (paths : TargetPaths) (ledger : Ledger W)
    (operations : List Operation) :
    let session := (start paths ledger).run home ResourceFile.writeToHost operations
    let saved := session.step home ResourceFile.writeToHost .save
    (∀ path, saved.saves = session.saves ++ [.ok path] →
      path = artifactPath paths.destinationRoot
          ((operations.filterMap Operation.outputName?).getLast?.getD paths.destinationFile)
          (Operation.lastFormat operations) ∧
        ∃ bytes,
          (Operation.fileOf operations).encode (Operation.lastFormat operations) = .ok bytes ∧
          saved.world.written = session.world.written ++ [(path, bytes)]) ∧
      (∀ error, saved.saves = session.saves ++ [.error error] →
        saved.target.registry = session.target.registry ∧
          saved.target.file = session.target.file ∧
          saved.target.forwarded = session.target.forwarded ∧
          saved.target.format = session.target.format ∧
          saved.target.outputName = session.target.outputName ∧
          saved.world.written = session.world.written) ∧
      ∀ (kept : List Operation) (other : Ledger W), Operation.Deletion operations kept →
        let reduced := (start paths other).run home ResourceFile.writeToHost kept
        let savedReduced := reduced.step home ResourceFile.writeToHost .save
        ∀ path path', saved.saves = session.saves ++ [.ok path] →
          savedReduced.saves = reduced.saves ++ [.ok path'] →
          path' = path ∧ ∃ bytes,
            saved.world.written = session.world.written ++ [(path, bytes)] ∧
            savedReduced.world.written = reduced.world.written ++ [(path', bytes)] := by
  intro session saved
  refine ⟨fun path => written_of_save home paths ledger operations, ?_, ?_⟩
  · intro error herror
    obtain ⟨hcontent, result, hsaves, hresult⟩ := save_on_ledger home session
    have hfailed : result = .error error := by
      simpa using hsaves.symm.trans herror
    subst hfailed
    exact ⟨congrArg (·.registry) hcontent, congrArg (·.file) hcontent,
      congrArg (·.forwarded) hcontent, congrArg (·.format) hcontent,
      congrArg (·.outputName) hcontent, hresult⟩
  · intro kept other hdeletion reduced savedReduced path path' hsaved hsavedReduced
    obtain ⟨hfile, hformat, hname⟩ := hdeletion.parts_eq
    obtain ⟨hpath, bytes, hbytes, hwritten⟩ := written_of_save home paths ledger operations hsaved
    obtain ⟨hpath', bytes', hbytes', hwritten'⟩ :=
      written_of_save home paths other kept hsavedReduced
    have hartifact : artifactOf paths operations = artifactOf paths kept := by
      rw [artifactOf, hname, hformat, artifactOf]
    have hsame : bytes = bytes' := by
      rw [hfile, hformat] at hbytes
      exact Except.ok.inj (hbytes.symm.trans hbytes')
    subst hsame
    exact ⟨by rw [hpath', hpath, hartifact], bytes, hwritten, hwritten'⟩

/-- A record whose id is too wide for a classic container. -/
def wideRecord : ResourceRecord where
  code := ⟨'N', 'O', 'T', 'E', by decide⟩
  id := 70000
  name := "motto"
  values := [.cstring "hi"]

/-- A type is registered, and a save fails before a format is set that holds the record. -/
def roundabout : List Operation :=
  [.registerType { name := "Note", code := wideRecord.code, fields := [] },
    .addResource wideRecord, .save, .setFormat .extended]

/-- The same without the type and without the save. -/
def straight : List Operation :=
  [.addResource wideRecord, .setFormat .extended]

/-- Both ways save the same bytes, and the save that failed wrote none. -/
theorem save_writes_additions_after_failed_save :
    let session := (start {} ({ world := {} } : Ledger Sketch)).run none ResourceFile.writeToHost
    let save := fun (session : Session (Ledger Sketch)) =>
      session.step none ResourceFile.writeToHost .save
    Operation.Deletion roundabout straight ∧
      (∃ error, (session roundabout).saves = [.error error]) ∧
      (save (session roundabout)).saves =
        (session roundabout).saves ++ [.ok "./result.kdat"] ∧
      (save (session straight)).saves = (session straight).saves ++ [.ok "./result.kdat"] ∧
      ∃ bytes, (Operation.fileOf roundabout).encode .extended = .ok bytes ∧
        (save (session roundabout)).world.written = [("./result.kdat", bytes)] ∧
        (save (session straight)).world.written = [("./result.kdat", bytes)] := by
  intro session save
  have hdeletion : Operation.Deletion roundabout straight :=
    .delete trivial (.keep _ (.delete trivial (.keep _ .nil)))
  have hfailed : ∃ error, (session roundabout).saves = [.error error] := ⟨_, rfl⟩
  have hsaved : (save (session roundabout)).saves =
      (session roundabout).saves ++ [.ok "./result.kdat"] := by decide +kernel
  have hstraight : (save (session straight)).saves =
      (session straight).saves ++ [.ok "./result.kdat"] := by decide +kernel
  have hnothing : (session roundabout).world.written = [] := by decide +kernel
  have hnothing' : (session straight).world.written = [] := by decide +kernel
  obtain ⟨hwrites, -, hdeletes⟩ :=
    save_writes_additions none {} ({ world := {} } : Ledger Sketch) roundabout
  obtain ⟨-, bytes, hencode, hwritten⟩ := hwrites _ hsaved
  obtain ⟨-, others, hsame, hwritten'⟩ := hdeletes straight _ hdeletion _ _ hsaved hstraight
  have hbytes : bytes = others := by simpa using hwritten.symm.trans hsame
  rw [hnothing] at hwritten
  rw [hnothing', ← hbytes] at hwritten'
  exact ⟨hdeletion, hfailed, hsaved, hstraight, bytes, hencode, hwritten, hwritten'⟩

end Session

end ResourceAssembler
