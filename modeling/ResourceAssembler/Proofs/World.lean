import ResourceAssembler.Host.Basic

/-!
# Work on a world

Work for a host is done on a world of any kind, which the host's answers come from and which its
operations change. What a world holds beside its files decides which operations fail, so that a
statement about all worlds covers every pattern of failures.
-/

namespace ResourceAssembler

variable {W α β : Type}

/-- The result of work on a world, and the world that it leaves. -/
def runOn (work : StateM W α) (world : W) : α × W :=
  work.run world

@[simp] theorem runOn_pure (a : α) (world : W) : runOn (pure a) world = (a, world) := rfl

@[simp] theorem runOn_bind (work : StateM W α) (next : α → StateM W β) (world : W) :
    runOn (work >>= next) world = runOn (next (runOn work world).1) (runOn work world).2 := rfl

/-- Work goes on with the result of its first step, on the world that this step leaves. -/
theorem runOn_bind_of {work : StateM W α} {world after : W} {a : α}
    (h : runOn work world = (a, after)) (next : α → StateM W β) :
    runOn (work >>= next) world = runOn (next a) after := by
  rw [runOn_bind, h]

/-- Work that may fail goes on only with a result, and stops with an error where it arises. -/
theorem runOn_run_bind {ε : Type} (work : ExceptT ε (StateM W) α)
    (next : α → ExceptT ε (StateM W) β)
    (world : W) :
    runOn (work >>= next).run world = match runOn work.run world with
      | (.ok a, after) => runOn (next a).run after
      | (.error e, after) => (.error e, after) := by
  rw [ExceptT.run_bind, runOn_bind]
  rcases runOn work.run world with ⟨result, after⟩
  cases result with
  | ok a => rfl
  | error e => rfl

/-- Work that succeeds did so in its first step and went on from there. -/
theorem runOn_run_bind_of_ok {ε : Type} {work : ExceptT ε (StateM W) α}
    {next : α → ExceptT ε (StateM W) β} {world : W} {b : β}
    (h : (runOn (work >>= next).run world).1 = .ok b) :
    ∃ a between, runOn work.run world = (.ok a, between) ∧
      runOn (work >>= next).run world = runOn (next a).run between := by
  rw [runOn_run_bind] at h ⊢
  rcases hran : runOn work.run world with ⟨result, between⟩
  rw [hran] at h
  cases result with
  | error e => cases h
  | ok a => exact ⟨a, between, rfl, rfl⟩

end ResourceAssembler
