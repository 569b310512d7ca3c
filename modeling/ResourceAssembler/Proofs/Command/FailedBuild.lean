import ResourceAssembler.Proofs.Command.Preparation
import ResourceAssembler.Proofs.Host.Disk
import ResourceAssembler.Proofs.Target.Save

/-!
# What a failed build leaves behind

A build asks and reads until everything is assembled. Only its save touches the files: it may create
the destination root and the directories above it, then it encodes the container in memory, and only
then it writes, once. So a build that fails has neither added nor changed a file, and one that fails
before its save has changed nothing at all.
-/

namespace ResourceAssembler

open FileTree (Place tree)

variable {W : Type} [Host (StateM W)] [FileTree W] {files : Tree (Place W)}

/-! ## Before the save -/

/-- Up to its save a build leaves the files alone, and what is to be saved has the paths that the
settings give. -/
theorem Command.keeps_prepare (place : Surroundings) (settings : BuildSettings) :
    Keeps files (prepare place settings) fun prepared =>
      ∃ settled, tree settled = files ∧
        prepared.2.paths = (runOn settings.targetPaths settled).1.1 := by
  intro transcript world hfiles
  obtain ⟨hkept, -, hprepared⟩ :=
    upholds_prepare (lasting_tree files) place settings transcript world hfiles
  refine ⟨hkept, ?_⟩
  intro prepared hresult
  obtain ⟨settled, hsettled, hsetting⟩ := hprepared prepared hresult
  exact ⟨settled, hsettled, (congrArg BuildTarget.paths hsetting :)⟩

/-! ## The save -/

namespace BuildTarget

/-- Preparing a destination adds the destination root and directories above it, or nothing. -/
theorem dirsAdded_preparation (target : BuildTarget) (world : W) :
    Tree.DirsAdded (tree world) (tree (target.preparation world).2)
      (Paths.ancestors target.paths.destinationRoot) := by
  rw [preparation_eq]
  split
  · exact .refl _ _
  · dsimp only
    have hlooked := FileTree.look_keeps [target.paths.destinationRoot] world
    split
    · rw [hlooked]
      exact .refl _ _
    · rw [← hlooked]
      exact FileTree.createDirAll_adds _ _

end BuildTarget

/-- A container that is refused leaves the files alone. -/
theorem ResourceFile.tree_of_refused {file : ResourceFile} {format : Format} {path : String}
    {world after : W} {cause : ContainerError}
    (h : runOn (writeToHost file format path) world = (.error cause, after)) :
    tree after = tree world := by
  obtain hsame | ⟨bytes, fault, hrefused⟩ := writeToHost_refused h
  · rw [hsame]
  · exact FileTree.write_refused hrefused

/-- A save that fails adds no more than the destination root and directories above it. -/
theorem BuildTarget.SaveOutcome.dirsAdded {target : BuildTarget} {world after : W} {e : TargetError}
    (h : target.SaveOutcome ResourceFile.writeToHost world (.error e) after) :
    Tree.DirsAdded (tree world) (tree after)
      (Paths.ancestors target.paths.destinationRoot) := by
  have hprepared := target.dirsAdded_preparation world
  cases h with
  | unprepared prepared => rwa [prepared] at hprepared
  | refused prepared written =>
      rw [prepared] at hprepared
      rwa [ResourceFile.tree_of_refused written]

namespace Command

/-- A build that fails leaves the files of its world alone. Every file that was there has its
content still, and there is no other. Either the build failed before its save, and then nothing
changed at all. Or everything was assembled into a target with the paths that the settings give, and
the save of this target failed at the destination root or at the artifact; then no more was added
than the destination root and directories above it. -/
theorem failed_build_keeps_files (place : Surroundings) (settings : BuildSettings) (world : W)
    {failure : Failure} {transcript : Transcript} {after : W}
    (failed : runOn (build place settings).execute world = ((.error failure, transcript), after)) :
    (∀ spot content, (tree after).entry spot = some (.file content) ↔
      (tree world).entry spot = some (.file content)) ∧
    (((∃ noted, runOn (prepare place settings).execute world = ((.error failure, noted), after)) ∧
        tree after = tree world) ∨
      ∃ summary target noted ready e,
        runOn (prepare place settings).execute world = ((.ok (summary, target), noted), ready) ∧
        tree ready = tree world ∧
        (∃ settled, tree settled = tree world ∧
          target.paths = (runOn settings.targetPaths settled).1.1) ∧
        failure = { cause := .target e } ∧
        target.SaveOutcome ResourceFile.writeToHost ready (.error e) after ∧
        ((∃ fault, e = .createDestination target.paths.destinationRoot fault) ∨
          ∃ cause, e = .write target.artifact cause) ∧
        Tree.DirsAdded (tree world) (tree after)
          (Paths.ancestors target.paths.destinationRoot)) := by
  rw [runOn_execute, build_eq, runIn_bind] at failed
  rw [runOn_execute]
  obtain ⟨hkept, hpaths⟩ := keeps_prepare place settings {} world rfl
  rcases hprepare : (prepare place settings).runIn {} world with ⟨⟨prepared, noted⟩, ready⟩
  rw [hprepare] at failed hkept hpaths
  -- Whether the failure is the build's before its save or the save's is told by what was prepared.
  cases prepared with
  | error early =>
      cases failed
      refine ⟨?_, .inl ⟨⟨_, rfl⟩, hkept⟩⟩
      intro spot content
      rw [hkept]
  | ok prepared =>
      obtain ⟨summary, target⟩ := prepared
      obtain ⟨e, hfailure, houtcome⟩ := runIn_finish_error failed
      have hadded := houtcome.dirsAdded
      rw [hkept] at hadded
      exact ⟨hadded.file_iff, .inr ⟨summary, target, noted, ready, e, rfl, hkept,
        hpaths _ rfl, hfailure, houtcome, houtcome.error_eq, hadded⟩⟩

/-- A disk with the artifact of an earlier build, and with a listing that now gives a resource an id
which no classic container can hold. -/
def outgrown : Disk where
  workingPlace := ["w"]
  entries := [(["w"], .dir), (["w", "out"], .dir),
    (["w", "out", "game.ndat"], .file ⟨#[1, 2, 3]⟩),
    (["w", "main.kdl"], .file ("[[type]]\nname=\"Text\"\ncode=\"TEXT\"\n" ++
      "[[resource]]\ntype=\"Text\"\nid=70000").toUTF8)]

/-- The listing is assembled, the save fails, and the earlier artifact is still there. -/
theorem failed_build_keeps_earlier_artifact :
    let place : Surroundings := { home := none, workingDir := "/w" }
    let settings : BuildSettings := { input := "main.kdl", output := some "out/game" }
    let ran := runOn (build place settings).execute outgrown
    (runOn (prepare place settings).execute outgrown).1.1.isOk = true ∧ ran.1.1.isOk = false ∧
      (tree ran.2).entry ["w", "out", "game.ndat"] = some (.file ⟨#[1, 2, 3]⟩) := by
  intro place settings ran
  have hfailed : ran.1.1.isOk = false := by decide +kernel
  refine ⟨by decide +kernel, hfailed, ?_⟩
  cases hresult : ran.1.1 with
  | ok report =>
      rw [hresult] at hfailed
      cases hfailed
  | error failure =>
      have hran : ran = ((.error failure, ran.1.2), ran.2) := by rw [← hresult]
      exact ((failed_build_keeps_files place settings outgrown hran).1
        ["w", "out", "game.ndat"] ⟨#[1, 2, 3]⟩).mpr rfl

end Command

end ResourceAssembler
