import Mathlib.Data.List.Forall2

/-!
# Steps that can fail

When a run of steps succeeds, each step did, and no guard stopped it. These
equivalences take a successful run apart. A row of steps that all succeed can be put in
the place of another row, item by item.
-/

namespace ResourceAssembler.Outcome

variable {ε δ α β : Type}

/-- Two steps succeed exactly when the first one does and the second one does with its result. -/
theorem bind_eq_ok_iff {first : Except ε α} {second : α → Except ε β} {b : β} :
    first >>= second = .ok b ↔ ∃ a, first = .ok a ∧ second a = .ok b := by
  cases first with
  | error e => simp [bind, Except.bind]
  | ok a => simp [bind, Except.bind]

/-- A guarded step succeeds exactly when the guard holds its peace and the step succeeds. -/
theorem guard_eq_ok_iff {stops : Prop} [Decidable stops] {e : ε} {step : Except ε α} {a : α} :
    (if stops then .error e else step) = .ok a ↔ ¬stops ∧ step = .ok a := by
  by_cases h : stops
  · simp [h]
  · simp [h]

/-- Two steps fail exactly when the first one does or the second one does after it. -/
theorem bind_eq_error_iff {first : Except ε α} {second : α → Except ε β} {e : ε} :
    first >>= second = .error e ↔
      first = .error e ∨ ∃ a, first = .ok a ∧ second a = .error e := by
  cases first with
  | error e => simp [bind, Except.bind]
  | ok a => simp [bind, Except.bind]

/-- A guarded step fails exactly when the guard stops it or it is let through and fails. -/
theorem guard_eq_error_iff {stops : Prop} [Decidable stops] {e f : ε} {step : Except ε α} :
    (if stops then .error e else step) = .error f ↔
      stops ∧ f = e ∨ ¬stops ∧ step = .error f := by
  by_cases h : stops
  · simp [h, eq_comm]
  · simp [h]

theorem pure_ne_error {e : ε} {a : α} : (pure a : Except ε α) ≠ .error e :=
  nofun

/-- What does not succeed fails. -/
theorem exists_eq_error_iff {result : Except ε α} :
    (∃ e, result = .error e) ↔ ¬∃ a, result = .ok a := by
  cases result with
  | error e => simp
  | ok a => simp

theorem throw_ne_ok {e : ε} {a : α} : (throw e : Except ε α) ≠ .ok a :=
  nofun

theorem throw_bind (e : ε) (second : α → Except ε β) :
    (throw e : Except ε α) >>= second = .error e := rfl

theorem pure_eq_ok_iff {a b : α} : (pure a : Except ε α) = .ok b ↔ b = a :=
  ⟨fun h => (Except.ok.inj h).symm, fun h => congrArg Except.ok h.symm⟩

theorem eq_ok_of_toOption {result : Except ε α} {a : α} (h : result.toOption = some a) :
    result = .ok a := by
  cases result with
  | error e => cases h
  | ok b => exact congrArg Except.ok (Option.some.inj h)

theorem mapError_ok (f : ε → δ) (a : α) : (.ok a : Except ε α).mapError f = .ok a := rfl

theorem mapError_error (f : ε → δ) (e : ε) :
    (.error e : Except ε α).mapError f = .error (f e) := rfl

/-- A result does not succeed any more or less for being given another error. -/
theorem mapError_eq_ok_iff {f : ε → δ} {result : Except ε α} {a : α} :
    result.mapError f = .ok a ↔ result = .ok a := by
  cases result with
  | error e => exact ⟨nofun, nofun⟩
  | ok b => exact ⟨fun h => congrArg _ (Except.ok.inj h), fun h => congrArg _ (Except.ok.inj h)⟩

theorem mapError_eq_error_iff {f : ε → δ} {result : Except ε α} {e : δ} :
    result.mapError f = .error e ↔ ∃ cause, result = .error cause ∧ f cause = e := by
  cases result with
  | error cause => simp [mapError_error]
  | ok a => simp [mapError_ok]

section Rows

variable {γ : Type} {step : α → Except ε β} {other : γ → Except ε β} {items : List α}
  {done : List β}

theorem mapM_cons_eq_ok_iff {item : α} :
    (item :: items).mapM step = .ok done ↔
      ∃ b rest, step item = .ok b ∧ items.mapM step = .ok rest ∧ done = b :: rest := by
  simp only [List.mapM_cons, bind_eq_ok_iff, pure_eq_ok_iff, exists_and_left]

theorem mapM_append_eq_ok_iff {more : List α} :
    (items ++ more).mapM step = .ok done ↔
      ∃ first second, items.mapM step = .ok first ∧ more.mapM step = .ok second ∧
        done = first ++ second := by
  simp only [List.mapM_append, bind_eq_ok_iff, pure_eq_ok_iff, exists_and_left]

theorem length_of_mapM (h : items.mapM step = .ok done) : done.length = items.length := by
  induction items generalizing done with
  | nil =>
      cases h
      rfl
  | cons item rest ih =>
      obtain ⟨b, tail, -, hrest, rfl⟩ := mapM_cons_eq_ok_iff.mp h
      rw [List.length_cons, List.length_cons, ih hrest]

theorem exists_of_mem_mapM {item : α} (h : items.mapM step = .ok done) (hitem : item ∈ items) :
    ∃ b ∈ done, step item = .ok b := by
  obtain ⟨before, after, rfl⟩ := List.append_of_mem hitem
  obtain ⟨first, second, -, hafter, rfl⟩ := mapM_append_eq_ok_iff.mp h
  obtain ⟨b, rest, hstep, -, rfl⟩ := mapM_cons_eq_ok_iff.mp hafter
  exact ⟨b, List.mem_append_right first List.mem_cons_self, hstep⟩

theorem exists_of_mem_done {b : β} (h : items.mapM step = .ok done) (hb : b ∈ done) :
    ∃ item ∈ items, step item = .ok b := by
  induction items generalizing done with
  | nil =>
      cases h
      cases hb
  | cons item rest ih =>
      obtain ⟨first, others, hstep, hrest, rfl⟩ := mapM_cons_eq_ok_iff.mp h
      rcases List.mem_cons.mp hb with rfl | hothers
      · exact ⟨item, List.mem_cons_self, hstep⟩
      · obtain ⟨found, hfound, hb⟩ := ih hrest hothers
        exact ⟨found, List.mem_cons_of_mem item hfound, hb⟩

/-- A row of steps succeeds with what the steps give, item by item. -/
theorem mapM_eq_ok_iff_forall₂ :
    items.mapM step = .ok done ↔ List.Forall₂ (fun item b => step item = .ok b) items done := by
  induction items generalizing done with
  | nil => rw [List.mapM_nil, pure_eq_ok_iff, List.forall₂_nil_left_iff]
  | cons item rest ih =>
      simp only [mapM_cons_eq_ok_iff, ih, List.forall₂_cons_left_iff, exists_and_left]

/-- Where each step takes back what is made of its result, so does a row of them. -/
theorem mapM_eq_ok_iff_map_eq {written : β → α}
    (h : ∀ item b, step item = .ok b ↔ written b = item) :
    items.mapM step = .ok done ↔ done.map written = items := by
  rw [mapM_eq_ok_iff_forall₂, eq_comm, ← List.forall₂_eq_eq_eq, List.forall₂_map_right_iff]
  simp only [h, eq_comm]

/-- A row of steps fails with the first of its items whose step fails. -/
theorem mapM_eq_error_iff {e : ε} :
    items.mapM step = .error e ↔
      ∃ before item behind done, items = before ++ item :: behind ∧
        before.mapM step = .ok done ∧ step item = .error e := by
  induction items with
  | nil => simp [pure_ne_error]
  | cons first rest ih =>
      simp only [List.mapM_cons, bind_eq_error_iff, ih, pure_ne_error, and_false, exists_false,
        or_false]
      constructor
      · rintro (hfirst | ⟨b, hfirst, before, item, behind, done, rfl, hbefore, hitem⟩)
        · exact ⟨[], first, rest, [], rfl, rfl, hfirst⟩
        · exact ⟨first :: before, item, behind, b :: done, rfl,
            mapM_cons_eq_ok_iff.mpr ⟨b, done, hfirst, hbefore, rfl⟩, hitem⟩
      · rintro ⟨before, item, behind, done, hitems, hbefore, hitem⟩
        cases before with
        | nil =>
            obtain ⟨rfl, -⟩ := List.cons.inj hitems
            exact .inl hitem
        | cons earlier before =>
            obtain ⟨rfl, rfl⟩ := List.cons.inj hitems
            obtain ⟨b, tail, hfirst, htail, -⟩ := mapM_cons_eq_ok_iff.mp hbefore
            exact .inr ⟨b, hfirst, before, item, behind, tail, rfl, htail, hitem⟩

/-- A row of steps succeeds with the results of another row if the two are related, item by item, in
a way that keeps a step successful. -/
theorem mapM_eq_ok_of_forall₂ {Alike : α → γ → Prop} {others : List γ}
    (hstep : ∀ item counterpart b, Alike item counterpart → step item = .ok b →
      other counterpart = .ok b)
    (hrows : List.Forall₂ Alike items others) (h : items.mapM step = .ok done) :
    others.mapM other = .ok done := by
  induction hrows generalizing done with
  | nil => exact h
  | cons hitem hrest ih =>
      obtain ⟨b, tail, hfirst, htail, rfl⟩ := mapM_cons_eq_ok_iff.mp h
      exact mapM_cons_eq_ok_iff.mpr ⟨b, tail, hstep _ _ b hitem hfirst, ih htail, rfl⟩

/-- Rows are related in such a way if their items agree in all that keeps a step successful. -/
theorem mapM_eq_ok_of_map_eq {κ : Type} {key : α → κ} {otherKey : γ → κ} {others : List γ}
    (hstep : ∀ item counterpart b, key item = otherKey counterpart → step item = .ok b →
      other counterpart = .ok b)
    (hkeys : items.map key = others.map otherKey) (h : items.mapM step = .ok done) :
    others.mapM other = .ok done := by
  rw [← List.forall₂_eq_eq_eq, List.forall₂_map_left_iff, List.forall₂_map_right_iff] at hkeys
  exact mapM_eq_ok_of_forall₂ hstep hkeys h

/-- A row of steps succeeds if other steps on the same items do, with the same results. -/
theorem mapM_eq_ok_of_step {other : α → Except ε β}
    (hstep : ∀ item b, step item = .ok b → other item = .ok b) (h : items.mapM step = .ok done) :
    items.mapM other = .ok done := by
  apply mapM_eq_ok_of_map_eq _ (Eq.refl (items.map id)) h
  rintro item _ b rfl hitem
  exact hstep item b hitem

/-- A row of readings gives what the readings give, item by item. -/
theorem mapM_eq_some_iff_forall₂ {read : α → Option β} :
    items.mapM read = some done ↔ List.Forall₂ (fun item b => read item = some b) items done := by
  induction items generalizing done with
  | nil => rw [List.mapM_nil, List.forall₂_nil_left_iff, Option.pure_def, Option.some.injEq,
      eq_comm]
  | cons item rest ih =>
      simp only [List.mapM_cons, Option.bind_eq_bind, Option.bind_eq_some_iff, Option.pure_def,
        Option.some.injEq, ih, List.forall₂_cons_left_iff, exists_and_left, @eq_comm _ done]

end Rows

end ResourceAssembler.Outcome
