import ResourceAssembler.Toml.Cursor

/-!
# What scans read

A scan reads a text if, in front of that text and what follows it, it gives a result and stops right
behind the text. There is a rule for each way in which scans are put together, so that what a scan
reads is told from what its parts read. A scan that succeeds has succeeded in its parts.
-/

namespace ResourceAssembler.Toml

variable {α β : Type}

/-- The cursor in front of a text. -/
def Cursor.before (text : List Char) (offset : Nat) : Cursor :=
  { Cursor.ofList text with offset }

@[simp] theorem Cursor.rest_before (text : List Char) (offset : Nat) :
    (Cursor.before text offset).rest = text := rfl

namespace Scan

/-- The scan reads the text in front of the rest, and what it gives is as told. -/
def Reads (scan : Scan α) (text rest : List Char) (gives : α → Prop) : Prop :=
  ∀ offset, ∃ a next, scan (.before (text ++ rest) offset) = some (a, .before rest next) ∧ gives a

/-- The scan fails in front of the text. -/
def Fails (scan : Scan α) (text : List Char) : Prop :=
  ∀ offset, scan (.before text offset) = none

/-! ## Scans that succeed -/

section Success

variable {scan other : Scan α} {cursor : Cursor}

theorem exists_of_bind {next : α → Scan β} {found : β × Cursor}
    (h : (scan >>= next) cursor = some found) :
    ∃ a between, scan cursor = some (a, between) ∧ next a between = some found := by
  obtain ⟨⟨a, between⟩, hscan, hnext⟩ := Option.bind_eq_some_iff.mp h
  exact ⟨a, between, hscan, hnext⟩

theorem exists_of_map {f : α → β} {b : β} {last : Cursor}
    (h : (f <$> scan) cursor = some (b, last)) :
    ∃ a, scan cursor = some (a, last) ∧ f a = b := by
  change (scan >>= fun a => pure (f a)) cursor = _ at h
  obtain ⟨a, between, hscan, hlast⟩ := exists_of_bind h
  cases hlast
  exact ⟨a, hscan, rfl⟩

theorem exists_of_seqLeft {other : Scan β} {a : α} {last : Cursor}
    (h : (scan <* other) cursor = some (a, last)) :
    ∃ between, scan cursor = some (a, between) := by
  change (scan >>= fun a => other >>= fun _ => pure a) cursor = _ at h
  obtain ⟨a, between, hscan, hlast⟩ := exists_of_bind h
  obtain ⟨_, _, _, hpure⟩ := exists_of_bind hlast
  cases hpure
  exact ⟨between, hscan⟩

theorem or_of_orElse {found : α × Cursor} (h : (scan <|> other) cursor = some found) :
    scan cursor = some found ∨ other cursor = some found := by
  change (scan cursor <|> other cursor) = _ at h
  cases hscan : scan cursor with
  | none =>
      rw [hscan] at h
      exact .inr h
  | some => exact .inl (hscan.symm.trans (by rw [← h, hscan]; rfl))

/-- The scan succeeds time after time, each time where the time before has left off. -/
inductive Runs (scan : Scan α) : Cursor → List α → Cursor → Prop where
  | stop (cursor : Cursor) : Runs scan cursor [] cursor
  | step {cursor between next : Cursor} {a : α} {as : List α}
      (hscan : scan cursor = some (a, between))
      (hmore : Runs scan between as next) : Runs scan cursor (a :: as) next

theorem runs_of_repeated {as : List α} {last : Cursor}
    (h : repeated scan cursor = some (as, last)) :
    Runs scan cursor as last := by
  have hrun : ∀ fuel done cursor as, repeatUpTo scan fuel done cursor = some (as, last) →
      ∃ more, as = done.reverse ++ more ∧ Runs scan cursor more last := by
    intro fuel
    induction fuel with
    | zero =>
        intro done cursor as h
        cases h
        exact ⟨[], (List.append_nil _).symm, .stop _⟩
    | succ fuel ih =>
        intro done cursor as h
        rw [repeatUpTo] at h
        dsimp only at h
        split at h
        case h_1 a between hscan =>
          obtain ⟨more, rfl, hmore⟩ := ih _ _ _ h
          exact ⟨a :: more, by simp, .step hscan hmore⟩
        case h_2 =>
          cases h
          exact ⟨[], (List.append_nil _).symm, .stop _⟩
  obtain ⟨more, rfl, hmore⟩ := hrun _ _ _ _ h
  exact hmore

/-- A run to the end does not stop before. -/
theorem Runs.exists_step {last : Cursor} {as : List α} (h : Runs scan cursor as last)
    (hend : last.rest = []) (hrest : cursor.rest ≠ []) :
    ∃ a between more, as = a :: more ∧ scan cursor = some (a, between) ∧
      Runs scan between more last := by
  cases h with
  | stop => exact absurd hend hrest
  | step hscan hmore => exact ⟨_, _, _, rfl, hscan, hmore⟩

end Success

/-! ## Rules -/

section Rules

variable {scan other : Scan α} {next : α → Scan β} {text first second rest : List Char}
  {gives : α → Prop} {gives' : β → Prop} {a : α}

theorem Reads.mono {gives' : α → Prop} (h : scan.Reads text rest gives)
    (himp : ∀ a, gives a → gives' a) : scan.Reads text rest gives' := by
  intro offset
  obtain ⟨a, next, hscan, hgives⟩ := h offset
  exact ⟨a, next, hscan, himp a hgives⟩

theorem reads_pure (rest : List Char) (h : gives a) : (pure a : Scan α).Reads [] rest gives :=
  fun offset => ⟨a, offset, rfl, h⟩

/-- A scan that goes on behind another one reads its own text there. -/
theorem Reads.bind (h : scan.Reads first (second ++ rest) gives)
    (hnext : ∀ a, gives a → (next a).Reads second rest gives') :
    (scan >>= next).Reads (first ++ second) rest gives' := by
  intro offset
  obtain ⟨a, between, hscan, hgives⟩ := h offset
  obtain ⟨b, last, hlast, hgives'⟩ := hnext a hgives between
  refine ⟨b, last, ?_, hgives'⟩
  rw [List.append_assoc]
  change (scan _).bind _ = _
  rw [hscan]
  exact hlast

/-- Behind a scan whose result is known. -/
theorem Reads.bind_eq (h : scan.Reads first (second ++ rest) (· = a))
    (hnext : (next a).Reads second rest gives') :
    (scan >>= next).Reads (first ++ second) rest gives' := by
  apply h.bind
  rintro _ rfl
  exact hnext

/-- Whoever goes on behind what is read goes on from its end. -/
theorem Reads.exists_of_bind {found : β × Cursor} {offset : Nat} (h : scan.Reads first rest gives)
    (hrun : (scan >>= next) (.before (first ++ rest) offset) = some found) :
    ∃ a between, gives a ∧ next a (.before rest between) = some found := by
  obtain ⟨a, between, hscan, hgives⟩ := h offset
  obtain ⟨_, _, hscan', hnext⟩ := Scan.exists_of_bind hrun
  cases hscan.symm.trans hscan'
  exact ⟨a, between, hgives, hnext⟩

/-- A result that is only made into another one. -/
theorem Reads.bind_pure {f : α → β} (h : scan.Reads text rest fun a => gives' (f a)) :
    (scan >>= fun a => pure (f a)).Reads text rest gives' := by
  rw [← List.append_nil text]
  exact h.bind fun _ hgives => reads_pure rest hgives

/-- Behind a scan that only looks ahead. -/
theorem Reads.bind_nil (h : scan.Reads [] (text ++ rest) gives)
    (hnext : ∀ a, gives a → (next a).Reads text rest gives') :
    (scan >>= next).Reads text rest gives' :=
  h.bind hnext

theorem Fails.bind (h : scan.Fails text) : (scan >>= next).Fails text := by
  intro offset
  change (scan _).bind _ = _
  rw [h offset]
  rfl

theorem Reads.bind_fails (h : scan.Reads first rest gives)
    (hnext : ∀ a, gives a → (next a).Fails rest) : (scan >>= next).Fails (first ++ rest) := by
  intro offset
  obtain ⟨a, between, hscan, hgives⟩ := h offset
  change (scan _).bind _ = _
  rw [hscan]
  exact hnext a hgives between

theorem Reads.orElse (h : scan.Reads text rest gives) : (scan <|> other).Reads text rest gives := by
  intro offset
  obtain ⟨a, next, hscan, hgives⟩ := h offset
  refine ⟨a, next, ?_, hgives⟩
  change (scan _ <|> other _) = _
  rw [hscan]
  rfl

theorem Fails.orElse (h : scan.Fails (text ++ rest)) (hother : other.Reads text rest gives) :
    (scan <|> other).Reads text rest gives := by
  intro offset
  obtain ⟨a, next, hscan, hgives⟩ := hother offset
  refine ⟨a, next, ?_, hgives⟩
  change (scan _ <|> other _) = _
  rw [h offset, hscan]
  rfl

theorem Fails.orElse_fails (h : scan.Fails text) (hother : other.Fails text) :
    (scan <|> other).Fails text := by
  intro offset
  change (scan _ <|> other _) = _
  rw [h offset, hother offset]
  rfl

/-- Where one of two scans fails, what comes of both is what comes of the other. -/
theorem Fails.of_orElse {found : α × Cursor} {offset : Nat} (hscan : scan.Fails text)
    (h : (scan <|> other) (.before text offset) = some found) :
    other (.before text offset) = some found := by
  obtain hfound | hfound := or_of_orElse h
  · rw [hscan offset] at hfound
    cases hfound
  · exact hfound

theorem Fails.of_orElse_right {found : α × Cursor} {offset : Nat} (hother : other.Fails text)
    (h : (scan <|> other) (.before text offset) = some found) :
    scan (.before text offset) = some found := by
  obtain hfound | hfound := or_of_orElse h
  · exact hfound
  · rw [hother offset] at hfound
    cases hfound

theorem Reads.map {f : α → β} (h : scan.Reads text rest fun a => gives' (f a)) :
    (f <$> scan).Reads text rest gives' := by
  intro offset
  obtain ⟨a, next, hscan, hgives⟩ := h offset
  refine ⟨f a, next, ?_, hgives⟩
  change (scan _).bind _ = _
  rw [hscan]
  rfl

theorem Fails.map {f : α → β} (h : scan.Fails text) : (f <$> scan).Fails text := by
  intro offset
  change (scan _).bind _ = _
  rw [h offset]
  rfl

theorem Reads.seqRight {scan : Scan α} {other : Scan β}
    (h : scan.Reads first (second ++ rest) gives)
    (hother : other.Reads second rest gives') :
    (scan *> other).Reads (first ++ second) rest gives' :=
  h.bind fun _ _ => hother

theorem Reads.seqRight_fails {other : Scan β} (h : scan.Reads first rest gives)
    (hother : other.Fails rest) : (scan *> other).Fails (first ++ rest) :=
  h.bind_fails fun _ _ => hother

theorem Fails.seqRight {other : Scan β} (h : scan.Fails text) : (scan *> other).Fails text :=
  h.bind

theorem Reads.seqLeft {other : Scan β} (h : scan.Reads first (second ++ rest) gives)
    (hother : other.Reads second rest gives') :
    (scan <* other).Reads (first ++ second) rest gives := by
  apply h.bind
  intro a hgives
  exact (hother.mono fun _ _ => hgives).bind_pure

theorem Fails.seqLeft {other : Scan β} (h : scan.Fails text) : (scan <* other).Fails text :=
  h.bind

theorem reads_discard (h : scan.Reads text rest gives) :
    (discard scan).Reads text rest fun _ => True :=
  (h.mono fun _ _ => trivial).map

theorem fails_discard (h : scan.Fails text) : (discard scan).Fails text :=
  h.map

/-- A scan that need not succeed reads nothing where it fails. -/
theorem reads_optional_none (h : scan.Fails rest) : (optional scan).Reads [] rest (· = none) := by
  rw [← List.nil_append rest] at h
  exact h.map.orElse (reads_pure rest rfl)

end Rules

/-! ## Characters -/

theorem reads_char {accepts : Char → Bool} {c : Char} (h : accepts c = true) (rest : List Char) :
    (char accepts).Reads [c] rest (· = c) := by
  intro offset
  refine ⟨c, offset + c.utf8Size, ?_, rfl⟩
  change (if accepts c then _ else none) = _
  rw [if_pos h]
  rfl

/-- No character is read where none stands, or one that is not accepted. -/
theorem fails_char {accepts : Char → Bool} {text : List Char}
    (h : ∀ c, text.head? = some c → accepts c = false) : (char accepts).Fails text := by
  intro offset
  cases text with
  | nil => rfl
  | cons c rest =>
      change (if accepts c then _ else none) = _
      rw [h c rfl, if_neg Bool.false_ne_true]

theorem reads_forM (chars rest : List Char) :
    (chars.forM fun c => discard (char (· = c))).Reads chars rest fun _ => True := by
  induction chars with
  | nil => exact reads_pure rest trivial
  | cons c chars ih =>
      have hfirst : (char (· = c)).Reads [c] (chars ++ rest) (· = c) :=
        reads_char (decide_eq_true rfl) (chars ++ rest)
      exact (reads_discard hfirst).bind fun _ _ => ih

/-- A text is read where it stands. -/
theorem reads_exactly (text : String) (rest : List Char) :
    (exactly text).Reads text.toList rest fun _ => True :=
  reads_forM text.toList rest

/-- A text is not read where another character stands than its first. -/
theorem fails_exactly {text : String} {c : Char} (hfirst : text.toList.head? = some c)
    {given : List Char} (h : given.head? ≠ some c) : (exactly text).Fails given := by
  obtain ⟨more, hmore⟩ := List.head?_eq_some_iff.mp hfirst
  have hchar : (char (· = c)).Fails given := by
    apply fails_char
    intro other hother
    apply decide_eq_false
    rintro rfl
    exact h hother
  unfold exactly
  rw [hmore]
  exact (fails_discard hchar).bind

theorem reads_atEnd (rest : List Char) : atEnd.Reads [] rest (· = rest.isEmpty) :=
  fun offset => ⟨rest.isEmpty, offset, rfl, rfl⟩

/-! ## Repetition -/

section Repetition

variable {scan : Scan α} {text more rest : List Char} {gives : α → Prop} {givesMore : List α → Prop}
  {count : Nat}

/-- Repeated at least so often, the scan reads the text, and what it gives in all is as told. -/
def Repeats (scan : Scan α) (count : Nat) (text rest : List Char) (gives : List α → Prop) : Prop :=
  ∀ fuel offset done, count ≤ fuel → ∃ as next,
    repeatUpTo scan fuel done (.before (text ++ rest) offset) =
      some (done.reverse ++ as, .before rest next) ∧ gives as

theorem repeats_nil (h : scan.Fails rest) : Repeats scan 0 [] rest (· = []) := by
  intro fuel offset done _
  refine ⟨[], offset, ?_, rfl⟩
  rw [List.append_nil, List.nil_append]
  cases fuel with
  | zero => rfl
  | succ fuel =>
      rw [repeatUpTo]
      dsimp only
      rw [h offset]

theorem Repeats.cons (h : Repeats scan count more rest givesMore)
    (hfirst : scan.Reads text (more ++ rest) gives) :
    Repeats scan (count + 1) (text ++ more) rest fun as =>
      ∃ a behind, as = a :: behind ∧ gives a ∧ givesMore behind := by
  intro fuel offset done hfuel
  obtain ⟨fuel, rfl⟩ : ∃ less, fuel = less + 1 := ⟨fuel - 1, by omega⟩
  obtain ⟨a, between, hscan, hgives⟩ := hfirst offset
  obtain ⟨behind, next, hrun, hbehind⟩ := h fuel between (a :: done) (by omega)
  refine ⟨a :: behind, next, ?_, a, behind, rfl, hgives, hbehind⟩
  rw [List.append_assoc, repeatUpTo]
  dsimp only
  rw [hscan]
  simpa using hrun

/-- There are as many repetitions as characters at most. -/
theorem Repeats.reads (h : Repeats scan count text rest givesMore) (hcount : count ≤ text.length) :
    (repeated scan).Reads text rest givesMore := by
  intro offset
  have hfuel : count ≤ (text ++ rest).length := by
    rw [List.length_append]
    omega
  exact h _ offset [] hfuel

theorem Repeats.mono {gives' : List α → Prop} (h : Repeats scan count text rest givesMore)
    (himp : ∀ as, givesMore as → gives' as) : Repeats scan count text rest gives' := by
  intro fuel offset done hfuel
  obtain ⟨as, next, hscan, hgives⟩ := h fuel offset done hfuel
  exact ⟨as, next, hscan, himp as hgives⟩

end Repetition

/-- A single repetition, with no mark behind it. -/
theorem reads_separated_one {scan : Scan α} {mark : String} {text rest : List Char} {a : α}
    (h : scan.Reads text rest (· = a)) (hmark : (exactly mark).Fails rest) :
    (separated mark scan).Reads text rest (· = [a]) := by
  have hmore : (repeated (exactly mark *> scan)).Reads [] rest (· = []) :=
    (repeats_nil hmark.seqRight).reads (Nat.le_refl 0)
  rw [← List.append_nil text]
  apply Reads.orElse
  apply Reads.bind_eq h
  apply Reads.bind_pure
  exact hmore.mono fun _ hnone => congrArg (a :: ·) hnone

/-- Characters are read up to a place where the scan fails, if each of them is read as itself. -/
theorem reads_repeated {scan : Scan Char} {text rest : List Char}
    (h : ∀ c ∈ text, ∀ more, scan.Reads [c] more (· = c)) (hrest : scan.Fails rest) :
    (repeated scan).Reads text rest (· = text) := by
  have hrun : Repeats scan text.length text rest (· = text) := by
    induction text with
    | nil => exact repeats_nil hrest
    | cons c text ih =>
        obtain ⟨hfirst, hmore⟩ := List.forall_mem_cons.mp h
        apply ((ih hmore).cons (hfirst (text ++ rest))).mono
        rintro _ ⟨_, _, rfl, rfl, rfl⟩
        rfl
  exact hrun.reads (Nat.le_refl _)

/-- Accepted characters are read up to one that is not. -/
theorem reads_repeated_char {accepts : Char → Bool} {text rest : List Char}
    (h : ∀ c ∈ text, accepts c = true) (hrest : ∀ c, rest.head? = some c → accepts c = false) :
    (repeated (char accepts)).Reads text rest (· = text) :=
  reads_repeated (fun c hc more => reads_char (h c hc) more) (fails_char hrest)

end Scan

end ResourceAssembler.Toml
