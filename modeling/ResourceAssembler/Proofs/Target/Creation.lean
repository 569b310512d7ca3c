import ResourceAssembler.Proofs.Host.Directories
import ResourceAssembler.Proofs.Settings.Seen
import ResourceAssembler.Proofs.Target.Artifact

/-!
# Creating the directory of an artifact

Whether the directory of an artifact is to be created is decided when the destination is
resolved, and looked at again at every save. To speak of what is asked for on the way, the
directories that are asked for and the paths that are handed to the writer are noted down,
together with what was there at that time.
-/

namespace ResourceAssembler

open Paths

/-! ## What is noted down -/

/-- A directory that was asked for, with what was there before and with the answer. -/
structure Creation where
  path : String
  found : Presence
  result : Except HostFault Unit

/-- A path that was handed to the writer, with what the directory was in which it lies. -/
structure Handover where
  path : String
  directory : Presence

/-- A world with the directories that were asked for and with what was
handed to the writer, in order. -/
structure Watched (W : Type) where
  world : W
  creations : List Creation := []
  handovers : List Handover := []

namespace Watched

variable {W : Type} [Host (StateM W)]

instance : Host (StateM (Watched W)) where
  look paths := fun watched =>
    let (look, world) := runOn (Host.look paths) watched.world
    (look, { watched with world })
  read paths := fun watched =>
    let (read, world) := runOn (Host.read paths) watched.world
    (read, { watched with world })
  createDirAll path := fun watched =>
    let (result, world) := runOn (Host.createDirAll path) watched.world
    let creation := ⟨path, seen watched.world path, result⟩
    (result, { watched with world, creations := watched.creations ++ [creation] })
  write path bytes := fun watched =>
    let (result, world) := runOn (Host.write path bytes) watched.world
    (result, { watched with world })

/-- A writer whose calls are noted down. It works on the world itself. -/
def writer (writer : ContainerWriter (StateM W)) : ContainerWriter (StateM (Watched W)) :=
  fun file format path => fun watched =>
    let (result, world) := runOn (writer file format path) watched.world
    let handover := ⟨path, seen watched.world (directory path)⟩
    (result, { watched with world, handovers := watched.handovers ++ [handover] })

instance [Steady W] : Steady (Watched W) where
  look_keeps paths watched :=
    congrArg (Watched.mk · watched.creations watched.handovers)
      (Steady.look_keeps paths watched.world)
  read_keeps paths watched :=
    congrArg (Watched.mk · watched.creations watched.handovers)
      (Steady.read_keeps paths watched.world)
  look_agrees watched := Steady.look_agrees watched.world
  top_is_dir watched := Steady.top_is_dir watched.world

/-- The notes have no part in what a world keeps. -/
instance [KeepsDirectories W] : KeepsDirectories (Watched W) where
  createDirAll_makes {path watched after} there h := by
    have hresult : (runOn (Host.createDirAll path) watched.world).1 = .ok () := congrArg Prod.fst h
    have hworld : (runOn (Host.createDirAll path) watched.world).2 = after.world :=
      congrArg (fun ran => ran.2.world) h
    have hmade : runOn (Host.createDirAll path) watched.world = (.ok (), after.world) :=
      Prod.ext hresult hworld
    have hdir : seen after.world path = .dir := KeepsDirectories.createDirAll_makes there hmade
    exact hdir
  createDirAll_keeps path _ h := KeepsDirectories.createDirAll_keeps (W := W) path h
  write_keeps path bytes _ h := KeepsDirectories.write_keeps (W := W) path bytes h

theorem creations_createDirAll (path : String) (watched : Watched W) :
    (runOn (Host.createDirAll path) watched).2.creations = watched.creations ++
      [⟨path, seen watched path, (runOn (Host.createDirAll path) watched).1⟩] := rfl

theorem handovers_writer (writer : ContainerWriter (StateM W)) (file : ResourceFile)
    (format : Format)
    (path : String) (watched : Watched W) :
    (runOn (Watched.writer writer file format path) watched).2.handovers =
      watched.handovers ++ [⟨path, seen watched (directory path)⟩] := rfl

/-! ## What a save adds -/

/-- What a save asks for: the destination root, if it is marked for creation and is no directory. -/
def asked (paths : TargetPaths) (watched : Watched W) : List Creation :=
  let root := paths.destinationRoot
  if paths.createDestination = true ∧ seen watched root ≠ .dir then
    [⟨root, seen watched root, (runOn (Host.createDirAll root) watched).1⟩]
  else []

theorem notes_preparation [Steady W] (target : BuildTarget) (watched : Watched W) :
    let prepared := target.preparation watched
    prepared.2.creations = watched.creations ++ watched.asked target.paths ∧
      prepared.2.handovers = watched.handovers ∧
      (prepared.1 = .ok () ↔
        ∀ creation ∈ watched.asked target.paths, creation.result = .ok ()) := by
  dsimp only
  rw [BuildTarget.preparation_eq]
  unfold asked
  cases hasked : target.paths.createDestination with
  | false => simp
  | true =>
      simp only [Bool.true_eq_false, if_false, true_and]
      rw [look_eq_seen (List.mem_singleton_self _), Steady.look_keeps]
      by_cases hdir : seen watched target.paths.destinationRoot = .dir
      · simp [hdir]
      · rw [if_neg hdir, if_pos hdir, creations_createDirAll]
        refine ⟨rfl, rfl, ?_⟩
        simp [Outcome.mapError_eq_ok_iff]

/-- A save asks for what is needed. Then it hands its artifact to the writer,
unless a request has failed. -/
theorem notes_save [Steady W] {writer : ContainerWriter (StateM W)} {target : BuildTarget}
    {watched after : Watched W} {result : Except TargetError String}
    (outcome : target.SaveOutcome (Watched.writer writer) watched result after) :
    after.creations = watched.creations ++ watched.asked target.paths ∧
      ((∀ creation ∈ watched.asked target.paths, creation.result = .ok ()) →
        after.handovers.map (·.path) = watched.handovers.map (·.path) ++ [target.artifact]) ∧
      ((∃ creation ∈ watched.asked target.paths, creation.result ≠ .ok ()) →
        after.handovers = watched.handovers) := by
  obtain ⟨hcreations, hhandovers, hresult⟩ := notes_preparation target watched
  obtain ⟨e, hprepared⟩ | ⟨ready, written, hprepared, hran⟩ := outcome.unprepared_or_handed
  · rw [hprepared] at hcreations hhandovers hresult
    refine ⟨hcreations, fun hmade => ?_, fun _ => hhandovers⟩
    cases hresult.mpr hmade
  · rw [hprepared] at hcreations hhandovers hresult
    have hmade := hresult.mp rfl
    have hafter :
        (runOn (Watched.writer writer target.file target.format target.artifact) ready).2 =
          after := congrArg Prod.snd hran
    refine ⟨?_, fun _ => ?_, ?_⟩
    · rw [← hafter]
      exact hcreations
    · rw [← hafter, handovers_writer, hhandovers, List.map_append]
      rfl
    · rintro ⟨creation, hmem, hfailed⟩
      exact absurd (hmade creation hmem) hfailed

end Watched

/-- Writers that take no directory away. -/
def SparesDirectories {W : Type} [Host (StateM W)] (writer : ContainerWriter (StateM W)) : Prop :=
  ∀ file format path {world directory}, seen world directory = .dir →
    seen (runOn (writer file format path) world).2 directory = .dir

theorem sparesDirectories_writeToHost {W : Type} [Host (StateM W)] [KeepsDirectories W] :
    SparesDirectories (ResourceFile.writeToHost : ContainerWriter (StateM W)) := by
  intro file format path world directory hdir
  cases hencode : file.encode format with
  | error e =>
      rw [ResourceFile.runOn_writeToHost_of_error hencode]
      exact hdir
  | ok bytes =>
      rw [ResourceFile.runOn_writeToHost_of_ok hencode]
      exact KeepsDirectories.write_keeps path bytes hdir

/-! ## Roots -/

namespace TargetPaths

/-- The directory of the artifacts. The top is kept as the empty root. -/
def rootDirectory (paths : TargetPaths) : String :=
  if paths.destinationRoot = "" then "/" else paths.destinationRoot

theorem directory_artifactPath {root file : String} (hroot : endsWithSlash root = false)
    (hfile : '/' ∉ file.toList) (format : Format) :
    directory (artifactPath root file format) = if root = "" then "/" else root := by
  have hkept : trimEnd (root ++ "/") = root := by
    rw [trimEnd_append, if_pos (by decide), trimEnd_of_endsWithSlash_eq_false hroot]
  rw [artifactPath_eq hroot, directory,
    splitLast_append_slash_append (not_mem_artifactName hfile format), hkept]

theorem rootDirectory_of_ne {paths : TargetPaths} (h : paths.destinationRoot ≠ "") :
    paths.rootDirectory = paths.destinationRoot :=
  if_neg h

/-- Paths whose root and file name can be joined, with a root that is there as
text if it is to be created. -/
structure Joinable (paths : TargetPaths) : Prop where
  root : endsWithSlash paths.destinationRoot = false
  file : '/' ∉ paths.destinationFile.toList
  created : paths.createDestination = true → paths.destinationRoot ≠ ""

/-- A destination is taken apart into such paths, whatever it is. -/
theorem joinable_setDestination {look : Look} (top : look "/" = .dir) (paths : TargetPaths)
    (path : String) :
    (paths.setDestination look path).Joinable where
  root := endsWithSlash_destinationRoot paths look path
  file := not_mem_destinationFile paths look path
  created h := by
    rw [destinationRoot_of_createDestination top h]
    exact directory_ne_empty path

/-- A destination whose root is not to be created has one. -/
theorem look_rootDirectory {look : Look} {path : String} (closed : look.Closed)
    (top : look "/" = .dir)
    (named : (splitLast path).2 ≠ ".") {paths : TargetPaths}
    (h : (paths.setDestination look path).createDestination = false) :
    look (paths.setDestination look path).rootDirectory = .dir := by
  cases hfound : look path with
  | file =>
      have hdirectory := closed path named (by simp [hfound])
      rw [setDestination_of_file hfound]
      exact hdirectory
  | dir =>
      rw [setDestination_of_dir hfound]
      cases hslash : endsWithSlash path with
      | true =>
          have hdirectory := closed path named (by simp [hfound])
          rw [directory_of_endsWithSlash hslash] at hdirectory
          exact hdirectory
      | false =>
          rw [rootDirectory, trimEnd_of_endsWithSlash_eq_false hslash]
          dsimp only
          split
          case isTrue => exact top
          case isFalse => exact hfound
  | absent =>
      have hdirectory : look (directory path) = .dir := by
        by_contra hmissing
        rw [(createDestination_iff paths look path).mpr ⟨hfound, hmissing⟩] at h
        cases h
      rw [setDestination_of_absent hfound]
      exact hdirectory

end TargetPaths

/-! ## What every operation keeps -/

/-- What holds of the notes at every time, given the paths of the target. -/
structure Watched.Orderly {W : Type} [Host (StateM W)] (paths : TargetPaths) (watched : Watched W) :
    Prop where
  /-- A root that is not to be created is there. -/
  there : paths.createDestination = false → seen watched paths.rootDirectory = .dir
  asked : ∀ creation ∈ watched.creations, paths.createDestination = true ∧
    creation.path = paths.destinationRoot ∧ creation.found ≠ .dir
  /-- A root that was created is there. -/
  made : ∀ creation ∈ watched.creations, creation.result = .ok () →
    seen watched paths.destinationRoot = .dir
  /-- Only the last request can have succeeded. -/
  last : ∀ creation ∈ watched.creations.dropLast, creation.result ≠ .ok ()
  handed : ∀ handover ∈ watched.handovers, handover.directory = .dir

namespace Watched.Orderly

variable {W : Type} [Host (StateM W)] {paths : TargetPaths} {watched : Watched W}

/-- When all requests have succeeded, there was one at most. -/
theorem length_le_one (h : Orderly paths watched)
    (succeeded : ∀ creation ∈ watched.creations, creation.result = .ok ()) :
    watched.creations.length ≤ 1 := by
  have hnone : watched.creations.dropLast = [] := by
    apply List.eq_nil_iff_forall_not_mem.mpr
    intro creation hmem
    exact h.last creation hmem (succeeded creation (List.mem_of_mem_dropLast hmem))
  have hlength := congrArg List.length hnone
  rw [List.length_dropLast, List.length_nil] at hlength
  omega

/-- Asking for the root where it is missing. -/
theorem createDirAll [KeepsDirectories W] (h : Orderly paths watched)
    (asked : paths.createDestination = true)
    (nonempty : paths.destinationRoot ≠ "") (missing : seen watched paths.destinationRoot ≠ .dir) :
    Orderly paths (runOn (Host.createDirAll paths.destinationRoot) watched).2 where
  there hasked := by
    rw [asked] at hasked
    cases hasked
  asked creation hmem := by
    obtain hbefore | hnew := List.mem_append.mp hmem
    · exact h.asked creation hbefore
    · rw [List.mem_singleton.mp hnew]
      exact ⟨asked, rfl, missing⟩
  made creation hmem hresult := by
    obtain hbefore | hnew := List.mem_append.mp hmem
    · exact absurd (h.made creation hbefore hresult) missing
    · rw [List.mem_singleton.mp hnew] at hresult
      exact KeepsDirectories.createDirAll_makes nonempty (Prod.ext hresult rfl)
  last creation hmem hresult := by
    rw [creations_createDirAll, List.dropLast_concat] at hmem
    exact missing (h.made creation hmem hresult)
  handed := h.handed

/-- Handing a path to the writer whose directory is there. -/
theorem written {writer : ContainerWriter (StateM W)} (spares : SparesDirectories writer)
    (h : Orderly paths watched) {path : String} (hdirectory : seen watched (directory path) = .dir)
    (file : ResourceFile) (format : Format) :
    Orderly paths (runOn (Watched.writer writer file format path) watched).2 where
  there hasked := spares file format path (h.there hasked)
  asked := h.asked
  made creation hmem hresult := spares file format path (h.made creation hmem hresult)
  last := h.last
  handed handover hmem := by
    rw [handovers_writer] at hmem
    obtain hbefore | hnew := List.mem_append.mp hmem
    · exact h.handed handover hbefore
    · rw [List.mem_singleton.mp hnew]
      exact hdirectory

variable [KeepsDirectories W] {target : BuildTarget}

/-- Preparing the destination. If that succeeds, the directory of the artifacts is there. -/
theorem preparation (h : Orderly target.paths watched)
    (created : target.paths.createDestination = true → target.paths.destinationRoot ≠ "") :
    let prepared := target.preparation watched
    Orderly target.paths prepared.2 ∧
      (prepared.1 = .ok () → seen prepared.2 target.paths.rootDirectory = .dir) := by
  intro prepared
  let root := target.paths.destinationRoot
  have hprepared : prepared = _ := BuildTarget.preparation_eq target watched
  cases hasked : target.paths.createDestination with
  | false =>
      rw [hprepared, if_pos hasked]
      exact ⟨h, fun _ => h.there hasked⟩
  | true =>
      have hnonempty := created hasked
      rw [hprepared, if_neg (by simp [hasked]), TargetPaths.rootDirectory_of_ne hnonempty]
      dsimp only
      rw [look_eq_seen (List.mem_singleton_self root), Steady.look_keeps]
      split
      case isTrue hthere => exact ⟨h, fun _ => hthere⟩
      case isFalse hmissing =>
        refine ⟨h.createDirAll hasked hnonempty hmissing, fun hresult => ?_⟩
        have hmade := Outcome.mapError_eq_ok_iff.mp hresult
        exact KeepsDirectories.createDirAll_makes hnonempty (Prod.ext hmade rfl)

/-- A save. -/
theorem save {writer : ContainerWriter (StateM W)} (spares : SparesDirectories writer)
    (joinable : target.paths.Joinable) (name : '/' ∉ target.outputFile.toList)
    (h : Orderly target.paths watched) {result : Except TargetError String} {after : Watched W}
    (outcome : target.SaveOutcome (Watched.writer writer) watched result after) :
    Orderly target.paths after := by
  have hdirectory : directory target.artifact = target.paths.rootDirectory :=
    TargetPaths.directory_artifactPath joinable.root name target.format
  obtain ⟨hready, hroot⟩ := h.preparation joinable.created
  rw [← hdirectory] at hroot
  obtain ⟨e, hprepared⟩ | ⟨ready, written, hprepared, hran⟩ := outcome.unprepared_or_handed
  · rw [hprepared] at hready
    exact hready
  · rw [hprepared] at hready hroot
    have hwritten := hready.written spares (hroot rfl) target.file target.format
    rwa [hran] at hwritten

end Watched.Orderly

/-! ## Sessions at a destination -/

namespace Session

/-- No operation but a save changes a steady world. -/
theorem world_step_of_ne_save {W : Type} [Host (StateM W)] [Steady W] (home : Option String)
    (writer : ContainerWriter (StateM W)) (session : Session W) {operation : Operation}
    (h : operation ≠ .save) : (session.step home writer operation).world = session.world := by
  cases operation with
  | save => exact absurd rfl h
  | findScenario name =>
      exact congrArg Prod.snd
        (TargetPaths.runOn_locateScenario session.target.paths home name session.world)
  | _ => rfl

variable {W : Type} [Host (StateM W)]

/-- A session stays with its paths. -/
theorem paths_run (home : Option String) (writer : ContainerWriter (StateM W)) (paths : TargetPaths)
    (world : W) (operations : List Operation) :
    ((start paths world).run home writer operations).target.paths = paths :=
  congrArg (·.paths) (content_run home writer paths world operations)

/-- No slash stands in the file name of an artifact, unless one was set with it. -/
theorem not_mem_outputFile (home : Option String) (writer : ContainerWriter (StateM W))
    {paths : TargetPaths} (file : '/' ∉ paths.destinationFile.toList) (world : W)
    {operations : List Operation}
    (plain : ∀ name, .setOutputName name ∈ operations → '/' ∉ name.toList) :
    '/' ∉ ((start paths world).run home writer operations).target.outputFile.toList := by
  have hcontent := content_run home writer paths world operations
  have hfile : ((start paths world).run home writer operations).target.content.outputFile =
      (Operation.contentOf paths operations).outputFile := by rw [hcontent]
  rw [BuildTarget.outputFile_content] at hfile
  rw [hfile]
  unfold BuildTarget.outputFile Operation.contentOf
  cases hset : (operations.filterMap Operation.outputName?).getLast? with
  | none => exact file
  | some name =>
      obtain ⟨operation, hmem, hname⟩ := List.mem_filterMap.mp (List.mem_of_getLast? hset)
      cases operation with
      | setOutputName set =>
          obtain rfl : set = name := Option.some.inj hname
          exact plain set hmem
      | _ => cases hname

variable [KeepsDirectories W] {writer : ContainerWriter (StateM W)}

/-- The notes are in order after a save if they were before. -/
theorem orderly_step_save (spares : SparesDirectories writer) (home : Option String)
    {session : Session (Watched W)} (joinable : session.target.paths.Joinable)
    (name : '/' ∉ session.target.outputFile.toList)
    (h : session.world.Orderly session.target.paths) :
    (session.step home (Watched.writer writer) .save).world.Orderly session.target.paths := by
  obtain ⟨-, result, -, -, houtcome⟩ := step_save home (Watched.writer writer) session
  exact h.save spares joinable name houtcome

/-- The notes are in order after every run. -/
theorem orderly_run (spares : SparesDirectories writer) (home : Option String) {paths : TargetPaths}
    (joinable : paths.Joinable) {watched : Watched W} (h : watched.Orderly paths)
    (operations : List Operation)
    (plain : ∀ name, .setOutputName name ∈ operations → '/' ∉ name.toList) :
    ((start paths watched).run home (Watched.writer writer) operations).world.Orderly paths := by
  induction operations using List.reverseRecOn with
  | nil => exact h
  | append_singleton operations operation ih =>
      have hplain : ∀ name, .setOutputName name ∈ operations → '/' ∉ name.toList :=
        fun name hmem => plain name (List.mem_append_left _ hmem)
      have hbefore := ih hplain
      rw [run_concat]
      by_cases hsave : operation = .save
      · subst hsave
        have hname := not_mem_outputFile home (Watched.writer writer) joinable.file watched hplain
        have hpaths := paths_run home (Watched.writer writer) paths watched operations
        have hsaved := orderly_step_save spares home (by rwa [hpaths]) hname (by rwa [hpaths])
        rwa [hpaths] at hsaved
      · rw [world_step_of_ne_save home _ _ hsave]
        exact hbefore

/-- Resolving a destination and then any run of operations, with a writer that takes no directory
away. Only saves ask for directories, and a save asks for the destination root exactly if it was
marked for creation and is no directory. If that does not fail, the artifact is handed to the
writer. When all requests succeed there is one at most, however often the target is saved, and
whenever a path is handed to the writer, the directory in which it lies is there. -/
theorem directories_created_at_need (spares : SparesDirectories writer) (home : Option String)
    (paths : TargetPaths) {world : W} (closed : (seen world).Closed) {path : String}
    (named : (splitLast path).2 ≠ ".") {operations : List Operation}
    (plain : ∀ name, .setOutputName name ∈ operations → '/' ∉ name.toList) :
    let resolved := runOn (paths.resolveDestination path) ({ world } : Watched W)
    let session := (start resolved.1 resolved.2).run home (Watched.writer writer) operations
    let saved := session.step home (Watched.writer writer) .save
    let asked := session.world.asked resolved.1
    resolved.2 = { world } ∧
      (∀ operation, operation ≠ .save →
        (session.step home (Watched.writer writer) operation).world = session.world) ∧
      (saved.world.creations = session.world.creations ++ asked ∧
        ((∀ creation ∈ asked, creation.result = .ok ()) → saved.world.handovers.map (·.path) =
          session.world.handovers.map (·.path) ++ [session.target.artifact]) ∧
        ((∃ creation ∈ asked, creation.result ≠ .ok ()) →
          saved.world.handovers = session.world.handovers)) ∧
      (∀ creation ∈ session.world.creations, resolved.1.createDestination = true ∧
        creation.path = resolved.1.destinationRoot ∧ creation.found ≠ .dir) ∧
      ((∀ creation ∈ session.world.creations, creation.result = .ok ()) →
        session.world.creations.length ≤ 1) ∧
      ∀ handover ∈ session.world.handovers, handover.directory = .dir := by
  intro resolved session saved asked
  have hresolved : resolved = (paths.setDestination (seen world) path, { world }) :=
    TargetPaths.runOn_resolveDestination paths path ({ world } : Watched W)
  have hjoinable : resolved.1.Joinable := by
    rw [hresolved]
    exact TargetPaths.joinable_setDestination (seen_top world) paths path
  have hstart : resolved.2.Orderly resolved.1 := by
    rw [hresolved]
    exact
      { there := TargetPaths.look_rootDirectory closed (seen_top world) named
        asked := nofun
        made := nofun
        last := nofun
        handed := nofun }
  have horderly : session.world.Orderly resolved.1 :=
    orderly_run spares home hjoinable hstart operations plain
  have hpaths : session.target.paths = resolved.1 :=
    paths_run home (Watched.writer writer) resolved.1 resolved.2 operations
  refine ⟨congrArg Prod.snd hresolved, ?_, ?_, horderly.asked, horderly.length_le_one,
    horderly.handed⟩
  · exact fun operation hsave => world_step_of_ne_save home _ session hsave
  · obtain ⟨-, result, -, -, houtcome⟩ := step_save home (Watched.writer writer) session
    have hnotes := Watched.notes_save houtcome
    rwa [hpaths] at hnotes

/-- Two artifacts at one destination, saved one after the other. -/
def twoSaves : List Operation :=
  [.save, .setOutputName "demo", .save]

/-- On an empty disk both are saved in the directory "build", which is asked for once. -/
theorem directories_created_at_need_on_empty_disk :
    (seen ({} : Disk)).Closed ∧ (splitLast "build//app").2 ≠ "." ∧
      (∀ name, .setOutputName name ∈ twoSaves → '/' ∉ name.toList) ∧
      ∃ resolved session,
        runOn (({} : TargetPaths).resolveDestination "build//app")
            ({ world := {} } : Watched Disk) = resolved ∧
        (start resolved.1 resolved.2).run none (Watched.writer ResourceFile.writeToHost) twoSaves =
          session ∧
        session.world.creations.map (·.path) = ["build"] ∧
        session.world.handovers.map (·.path) = ["build/app.ndat", "build/demo.ndat"] ∧
        ∀ handover ∈ session.world.handovers, handover.directory = .dir := by
  have hclosed : (seen ({} : Disk)).Closed := Disk.closed_look {}
  have hnamed : (splitLast "build//app").2 ≠ "." := by decide
  have hplain : ∀ name, .setOutputName name ∈ twoSaves → '/' ∉ name.toList := by
    intro name hmem
    obtain rfl : name = "demo" := by simpa [twoSaves] using hmem
    decide
  obtain ⟨-, -, -, -, -, hhanded⟩ :=
    directories_created_at_need sparesDirectories_writeToHost none {} hclosed hnamed hplain
  exact ⟨hclosed, hnamed, hplain, _, _, rfl, rfl, by decide +kernel, by decide +kernel, hhanded⟩

end Session

end ResourceAssembler
