import ResourceAssembler.Proofs.Host.Steady
import ResourceAssembler.Proofs.Target.Save

/-!
# What a save demands

On a steady world a save demands the destination root if that is marked for creation, then the
artifact, and nothing else. If it fails on its way, it demands no more than that.
-/

namespace ResourceAssembler

variable {W : Type} [Host (StateM W)]

/-- The changes that are demanded in order to have the destination root. -/
def TargetPaths.creations (paths : TargetPaths) : List Demand :=
  if paths.createDestination then [.createDirAll paths.destinationRoot] else []

theorem TargetPaths.createDirAll_mem_creations {paths : TargetPaths} {path : String} :
    .createDirAll path ∈ paths.creations ↔
      paths.createDestination = true ∧ path = paths.destinationRoot := by
  unfold creations
  split
  case isTrue hcreate => simp [hcreate]
  case isFalse hcreate => simp [hcreate]

/-- The destination is demanded if it is marked for creation, provided that
it is not there after all. -/
theorem BuildTarget.demands_preparation [Steady W] {target : BuildTarget} {attended : Attended W}
    (missing : target.paths.createDestination = true →
      seen attended target.paths.destinationRoot ≠ .dir) :
    (target.preparation attended).2.demands = attended.demands ++ target.paths.creations := by
  rw [preparation_eq]
  unfold TargetPaths.creations
  cases hcreate : target.paths.createDestination with
  | false => simp
  | true =>
      have hlooked : (runOn (Host.look [target.paths.destinationRoot]) attended).1
          target.paths.destinationRoot ≠ .dir := missing hcreate
      simp only [Bool.true_eq_false, if_false, if_neg hlooked, Steady.look_keeps, if_true]
      exact Attended.demands_createDirAll target.paths.destinationRoot attended

/-- What a save demands: the destination root if it is marked for creation and then the artifact,
unless it fails before the artifact is complete. -/
theorem BuildTarget.SaveOutcome.demands [Steady W] {target : BuildTarget}
    {attended after : Attended W} {result : Except TargetError String}
    (h : target.SaveOutcome ResourceFile.writeToHost attended result after)
    (missing : target.paths.createDestination = true →
      seen attended target.paths.destinationRoot ≠ .dir) :
    ∃ writes, after.demands = attended.demands ++ (target.paths.creations ++ writes) ∧
      (writes = [] ∨ ∃ bytes, writes = [.write target.artifact bytes]) ∧
      ∀ artifact, result = .ok artifact →
        artifact = target.artifact ∧ ∃ bytes, writes = [.write artifact bytes] := by
  have hprepared := demands_preparation missing
  cases h with
  | unprepared prepared =>
      rw [prepared] at hprepared
      exact ⟨[], by rw [hprepared, List.append_nil], .inl rfl, nofun⟩
  | @refused ready after cause prepared written =>
      rw [prepared] at hprepared
      obtain hsame | ⟨bytes, fault, hrefused⟩ := ResourceFile.writeToHost_refused written
      · exact ⟨[], by rw [hsame, hprepared, List.append_nil], .inl rfl, nofun⟩
      · have hdemanded := Attended.demands_write target.artifact bytes ready
        rw [hrefused, hprepared, List.append_assoc] at hdemanded
        exact ⟨_, hdemanded, .inr ⟨bytes, rfl⟩, nofun⟩
  | @accepted ready after notices prepared written =>
      rw [prepared] at hprepared
      obtain ⟨bytes, -, haccepted⟩ := ResourceFile.writeToHost_accepted written
      have hdemanded := Attended.demands_write target.artifact bytes ready
      rw [haccepted, hprepared, List.append_assoc] at hdemanded
      refine ⟨_, hdemanded, .inr ⟨bytes, rfl⟩, ?_⟩
      intro artifact hartifact
      cases hartifact
      exact ⟨rfl, bytes, rfl⟩

/-- A target whose root was not to be created goes on to the artifact,
whether or not it is written. -/
theorem BuildTarget.SaveOutcome.of_not_asked {writer : ContainerWriter (StateM W)}
    {target : BuildTarget} {world after : W} {result : Except TargetError String}
    (h : target.SaveOutcome writer world result after)
    (hasked : target.paths.createDestination = false) :
    result = .ok target.artifact ∨ ∃ cause, result = .error (.write target.artifact cause) := by
  cases h with
  | unprepared prepared =>
      rw [preparation_eq, if_pos hasked] at prepared
      cases prepared
  | refused prepared written => exact .inr ⟨_, rfl⟩
  | accepted prepared written => exact .inl rfl

/-- Such a target demands its artifact at most. -/
theorem BuildTarget.demands_save_of_not_asked [Steady W] {target : BuildTarget}
    (hasked : target.paths.createDestination = false) (attended : Attended W) :
    let saved := runOn (target.save ResourceFile.writeToHost) attended
    (saved.1.2 = .ok target.artifact ∨ ∃ cause, saved.1.2 = .error (.write target.artifact cause)) ∧
      ∃ writes, saved.2.demands = attended.demands ++ writes ∧
        (writes = [] ∨ ∃ bytes, writes = [.write target.artifact bytes]) ∧
        (saved.1.2 = .ok target.artifact → writes ≠ []) := by
  intro saved
  have houtcome := (save_outcome ResourceFile.writeToHost target attended).2.2
  have hnone : target.paths.creations = [] := by
    rw [TargetPaths.creations, hasked]
    rfl
  obtain ⟨writes, hdemands, hkind, hwrites⟩ :=
    houtcome.demands fun hcreate => absurd hcreate (by simp [hasked])
  rw [hnone, List.nil_append] at hdemands
  refine ⟨houtcome.of_not_asked hasked, writes, hdemands, hkind, ?_⟩
  intro hsaved
  obtain ⟨-, bytes, rfl⟩ := hwrites target.artifact hsaved
  exact List.cons_ne_nil _ _

end ResourceAssembler
