import ResourceAssembler.Proofs.Toml.Line

/-!
# How texts are spelled

Between quotes a character stands for itself, or an escape of several characters stands for
one. So a text is no longer than what it is spelled with, and as long only if all its
characters stand for themselves.
-/

namespace ResourceAssembler.Toml

variable {α β : Type}

namespace Scan

/-! ## What scans take -/

/-- Whenever the scan succeeds, what it has passed over and what it gives are as told. -/
def Takes (scan : Scan α) (told : List Char → α → Prop) : Prop :=
  ∀ cursor a next, scan cursor = some (a, next) →
    ∃ raw, cursor.rest = raw ++ next.rest ∧ told raw a

section Rules

variable {scan other : Scan α} {told told' : List Char → α → Prop}

theorem Takes.mono (h : scan.Takes told) (himp : ∀ raw a, told raw a → told' raw a) :
    scan.Takes told' := by
  intro cursor a next hscan
  obtain ⟨raw, hraw, htold⟩ := h cursor a next hscan
  exact ⟨raw, hraw, himp raw a htold⟩

theorem takes_pure {a : α} (h : told [] a) : (pure a : Scan α).Takes told := by
  intro cursor b next hscan
  cases hscan
  exact ⟨[], rfl, h⟩

theorem takes_failure : (failure : Scan α).Takes told := by
  intro cursor a next hscan
  cases hscan

/-- A result that need not be there takes nothing. -/
theorem takes_lift (found : Option α) :
    (liftM found : Scan α).Takes fun raw a => raw = [] ∧ found = some a := by
  intro cursor a next hscan
  cases found with
  | none => cases hscan
  | some b =>
      cases hscan
      exact ⟨[], rfl, rfl, rfl⟩

theorem Takes.bind {next : α → Scan β} {told'' : List Char → β → Prop} (h : scan.Takes told)
    (hnext : ∀ a raw, told raw a → (next a).Takes fun more b => told'' (raw ++ more) b) :
    (scan >>= next).Takes told'' := by
  intro cursor b last hrun
  obtain ⟨a, between, hscan, hlast⟩ := exists_of_bind hrun
  obtain ⟨raw, hraw, htold⟩ := h cursor a between hscan
  obtain ⟨more, hmore, htold'⟩ := hnext a raw htold between b last hlast
  exact ⟨raw ++ more, by rw [hraw, hmore, List.append_assoc], htold'⟩

theorem Takes.seqRight {other : Scan β} {told'' : List Char → β → Prop} (h : scan.Takes told)
    (hother : ∀ a raw, told raw a → other.Takes fun more b => told'' (raw ++ more) b) :
    (scan *> other).Takes told'' :=
  h.bind hother

theorem Takes.orElse (h : scan.Takes told) (hother : other.Takes told) :
    (scan <|> other).Takes told := by
  intro cursor a next hrun
  obtain hscan | hscan := or_of_orElse hrun
  · exact h cursor a next hscan
  · exact hother cursor a next hscan

theorem Takes.map {f : α → β} {told' : List Char → β → Prop}
    (h : scan.Takes fun raw a => told' raw (f a)) : (f <$> scan).Takes told' := by
  intro cursor b next hrun
  obtain ⟨a, hscan, rfl⟩ := exists_of_map hrun
  exact h cursor a next hscan

theorem takes_optional (h : scan.Takes told) :
    (optional scan).Takes fun raw found =>
      (found = none ∧ raw = []) ∨ ∃ a, found = some a ∧ told raw a := by
  apply Takes.orElse
  · exact Takes.map (h.mono fun raw a htold => .inr ⟨a, rfl, htold⟩)
  · exact takes_pure (.inl ⟨rfl, rfl⟩)

theorem takes_char (accepts : Char → Bool) :
    (char accepts).Takes fun raw c => raw = [c] ∧ accepts c = true := by
  intro cursor c next hrun
  obtain ⟨rest, offset, left, hleft⟩ := cursor
  cases rest with
  | nil => cases hrun
  | cons first rest =>
      change (if accepts first then _ else none) = _ at hrun
      split at hrun
      case isTrue haccepts =>
        cases hrun
        exact ⟨[c], rfl, rfl, haccepts⟩
      case isFalse => cases hrun

theorem takes_exactly (text : String) : (exactly text).Takes fun raw _ => raw = text.toList := by
  unfold exactly
  induction text.toList with
  | nil => exact takes_pure rfl
  | cons c chars ih =>
      have hfirst : (discard (char (· = c))).Takes fun raw _ => raw = [c] := by
        apply Takes.map
        apply (takes_char _).mono
        rintro _ a ⟨rfl, ha⟩
        rw [of_decide_eq_true ha]
      apply hfirst.bind
      rintro _ _ rfl
      apply ih.mono
      rintro _ _ rfl
      rfl

/-- What a repeated scan takes is what each of the repetitions takes, one behind the other. -/
theorem takes_repeated {whole : List Char → List α → Prop} (h : scan.Takes told)
    (hnil : whole [] [])
    (hcons : ∀ raw a more as, told raw a → whole more as → whole (raw ++ more) (a :: as)) :
    (repeated scan).Takes whole := by
  intro cursor as next hrun
  have hruns := runs_of_repeated hrun
  clear hrun
  induction hruns with
  | stop cursor => exact ⟨[], rfl, hnil⟩
  | @step cursor between next a as hscan hmore ih =>
      obtain ⟨raw, hraw, htold⟩ := h cursor a between hscan
      obtain ⟨more, hmore, hwhole⟩ := ih
      exact ⟨raw ++ more, by rw [hraw, hmore, List.append_assoc], hcons raw a more as htold hwhole⟩

end Rules

end Scan

/-! ## Spelling -/

open Scan

/-- A piece without the barred character ends in front of it. -/
theorem exists_eq_append_of_not_mem {barred : Char} {front back piece raw : List Char}
    (hbarred : barred ∉ piece) (h : front ++ barred :: back = piece ++ raw) :
    ∃ more, front = piece ++ more ∧ raw = more ++ barred :: back := by
  obtain ⟨beyond, rfl, hbeyond⟩ | ⟨more, rfl, hmore⟩ := List.append_eq_append_iff.mp h
  · cases beyond with
    | nil => exact ⟨[], by simp, by simpa using hbeyond.symm⟩
    | cons first beyond =>
        obtain ⟨rfl, -⟩ := List.cons.inj hbeyond
        exact absurd (List.mem_append_right front List.mem_cons_self) hbarred
  · exact ⟨more, rfl, hmore⟩

/-- The barred character stands in what comes before an end without it, if too little does for
it to stand behind the end. -/
theorem exists_eq_append_of_length_lt {barred : Char} {inside ending back front rest : List Char}
    (hbarred : barred ∉ ending) (h : front ++ barred :: rest = inside ++ (ending ++ back))
    (hlength : front.length < inside.length + ending.length) :
    ∃ more, inside = front ++ barred :: more := by
  obtain ⟨more, rfl, hmore⟩ | ⟨more, rfl, hmore⟩ := List.append_eq_append_iff.mp h
  · cases more with
    | cons first more =>
        obtain ⟨rfl, -⟩ := List.cons.inj hmore
        exact ⟨more, rfl⟩
    | nil =>
        have hahead : [] ++ barred :: rest = ending ++ back := hmore
        obtain ⟨beyond, hbeyond, -⟩ := exists_eq_append_of_not_mem hbarred hahead
        obtain ⟨rfl, -⟩ := List.append_eq_nil_iff.mp hbeyond.symm
        simp at hlength
  · obtain ⟨beyond, rfl, -⟩ := exists_eq_append_of_not_mem hbarred hmore.symm
    rw [List.length_append, List.length_append] at hlength
    omega

/-- The text that characters spell. A character of the text is written as itself, if it is one that
may stand for itself, or a part of the text is written with more characters than it has, and the
barred one is not among them. -/
inductive Spells (own : Char → Prop) (barred : Char) : List Char → List Char → Prop where
  | nil : Spells own barred [] []
  | itself {c : Char} {raw text : List Char} (hown : own c) (h : Spells own barred raw text) :
      Spells own barred (c :: raw) (c :: text)
  | spelled {piece part raw text : List Char} (hbarred : barred ∉ piece)
      (hlonger : part.length < piece.length) (h : Spells own barred raw text) :
      Spells own barred (piece ++ raw) (part ++ text)

namespace Spells

variable {own : Char → Prop} {barred : Char} {raw text : List Char}

theorem length_le (h : Spells own barred raw text) : text.length ≤ raw.length := by
  induction h with
  | nil => exact Nat.le_refl 0
  | itself _ _ ih => exact Nat.succ_le_succ ih
  | spelled _ hlonger _ ih =>
      rw [List.length_append, List.length_append]
      omega

/-- In a text that is as long as what spells it every character stands for itself. -/
theorem own_of_length_le (h : Spells own barred raw text) (hlength : raw.length ≤ text.length) :
    ∀ c ∈ text, own c := by
  induction h with
  | nil => exact List.forall_mem_nil _
  | itself hown _ ih =>
      exact List.forall_mem_cons.mpr ⟨hown, ih (Nat.le_of_succ_le_succ hlength)⟩
  | spelled _ hlonger h _ =>
      have hle := h.length_le
      rw [List.length_append, List.length_append] at hlength
      omega

/-- The barred character stands for itself only, so that what stands before it and what stands
behind it are spelled by themselves. -/
theorem split {front back : List Char} (h : Spells own barred (front ++ barred :: back) text) :
    ∃ before behind, text = before ++ barred :: behind ∧ own barred ∧
      Spells own barred front before ∧ Spells own barred back behind := by
  generalize hraw : front ++ barred :: back = raw at h
  induction h generalizing front with
  | nil => simp at hraw
  | @itself c raw text hown h ih =>
      cases front with
      | nil =>
          obtain ⟨rfl, rfl⟩ := List.cons.inj hraw
          exact ⟨[], text, rfl, hown, .nil, h⟩
      | cons first front =>
          obtain ⟨rfl, hmore⟩ := List.cons.inj hraw
          obtain ⟨before, behind, rfl, hbarred, hfront, hback⟩ := ih hmore
          exact ⟨first :: before, behind, rfl, hbarred, .itself hown hfront, hback⟩
  | @spelled piece part raw text hbarred hlonger h ih =>
      obtain ⟨more, rfl, hmore⟩ := exists_eq_append_of_not_mem hbarred hraw
      obtain ⟨before, behind, rfl, hown, hfront, hback⟩ := ih hmore.symm
      exact ⟨part ++ before, behind, by simp, hown, .spelled hbarred hlonger hfront, hback⟩

theorem not_mem (h : Spells own barred raw text) (hown : ¬own barred) : barred ∉ raw := by
  intro hmem
  obtain ⟨front, back, rfl⟩ := List.append_of_mem hmem
  obtain ⟨-, -, -, hbarred, -⟩ := h.split
  exact hown hbarred

/-- No characters spell themselves with something put in front of them and the barred character
behind them: what stands before the first barred character among them would be shorter and
spell itself in the same way. -/
theorem not_ahead {ahead : List Char} (hahead : barred ∉ ahead) (behind : List Char) :
    ¬Spells own barred (raw ++ barred :: behind) (ahead ++ raw) := by
  induction hlength : raw.length using Nat.strongRecOn generalizing raw behind with
  | ind n ih =>
      intro h
      obtain ⟨before, rest, htext, -, hbefore, -⟩ := h.split
      obtain ⟨shorter, rfl, rfl⟩ := exists_eq_append_of_not_mem hahead htext.symm
      refine ih shorter.length ?_ rest rfl hbefore
      rw [← hlength, List.length_append, List.length_cons]
      omega

end Spells

/-! ## Strings -/

/-- Characters that escapes are written with. -/
def isEscaping (c : Char) : Bool :=
  c ∈ ['"', '\\', 'b', 't', 'n', 'f', 'r', 'u', 'U'] || (hexValue? c).isSome

theorem isEscaping_of_hexValue? {c : Char} {n : Nat} (h : hexValue? c = some n) :
    isEscaping c = true := by
  rw [isEscaping, h, Option.isSome_some, Bool.or_true]

theorem takes_hexDigits (count n : Nat) :
    (hexDigits count n).Takes fun raw _ => ∀ c ∈ raw, isEscaping c = true := by
  induction count generalizing n with
  | zero => exact takes_pure (List.forall_mem_nil _)
  | succ count ih =>
      apply (takes_char _).bind
      rintro c _ ⟨rfl, -⟩
      apply (takes_lift _).bind
      rintro digit _ ⟨rfl, hdigit⟩
      apply (ih _).mono
      intro raw _ hraw
      exact List.forall_mem_cons.mpr ⟨isEscaping_of_hexValue? hdigit, hraw⟩

/-- An escape is longer than the character that it stands for. -/
theorem takes_escape :
    escape.Takes fun raw _ => 1 < raw.length ∧ ∀ c ∈ raw, isEscaping c = true := by
  have hbackslash : isEscaping '\\' = true := by decide
  have hnumber : ∀ count, (do charOf? (← hexDigits count 0) : Scan Char).Takes
      fun raw _ => ∀ c ∈ raw, isEscaping c = true := by
    intro count
    apply (takes_hexDigits count 0).bind
    intro _ raw hraw
    apply (takes_lift _).mono
    rintro _ _ ⟨rfl, -⟩
    rwa [List.append_nil]
  apply (takes_exactly _).bind
  rintro _ _ rfl
  apply (takes_char _).bind
  rintro c _ ⟨rfl, -⟩
  have hwhole : ∀ more : List Char, isEscaping c = true → (∀ b ∈ more, isEscaping b = true) →
      1 < ('\\' :: c :: more).length ∧ ∀ b ∈ '\\' :: c :: more, isEscaping b = true := by
    intro more hc hmore
    refine ⟨by simp, ?_⟩
    exact List.forall_mem_cons.mpr ⟨hbackslash, List.forall_mem_cons.mpr ⟨hc, hmore⟩⟩
  split
  case h_8 | h_9 => exact (hnumber _).mono fun raw _ hraw => hwhole raw (by decide) hraw
  case h_10 => exact takes_failure
  all_goals exact takes_pure (hwhole [] (by decide) (List.forall_mem_nil _))

/-- A character between double quotes is written as itself or as an escape. -/
theorem takes_basicChar : basicChar.Takes fun raw c =>
    (raw = [c] ∧ standsForItself c = true) ∨ (1 < raw.length ∧ ∀ b ∈ raw, isEscaping b = true) := by
  apply Takes.orElse
  · exact (takes_char _).mono fun raw c h => .inl h
  · exact takes_escape.mono fun raw c h => .inr h

section Strings

variable {own : Char → Prop} {barred : Char}

/-- A character between double quotes, as a part of what is spelled. -/
theorem Spells.basicChar {first : List Char} {c : Char} {raw text : List Char}
    (hbarred : isEscaping barred = false) (hown : ∀ c, standsForItself c = true → own c)
    (hfirst : (first = [c] ∧ standsForItself c = true) ∨
      (1 < first.length ∧ ∀ b ∈ first, isEscaping b = true))
    (h : Spells own barred raw text) : Spells own barred (first ++ raw) ([c] ++ text) := by
  obtain ⟨rfl, hc⟩ | ⟨hlonger, hescaping⟩ := hfirst
  · exact .itself (hown c hc) h
  · have hlength : [c].length < first.length := hlonger
    apply Spells.spelled _ hlength h
    intro hmem
    rw [hescaping barred hmem] at hbarred
    cases hbarred

/-- A string between double quotes spells its content. No newline is a part of it. -/
theorem takes_basicString : basicString.Takes fun raw content =>
    ∃ inside, raw = '"' :: (inside ++ ['"']) ∧
      Spells (standsForItself · = true) '\n' inside content.toList := by
  apply (takes_exactly _).bind
  rintro _ _ rfl
  have hinside : (repeated Toml.basicChar).Takes (Spells (standsForItself · = true) '\n') := by
    apply takes_repeated takes_basicChar .nil
    intro raw c more text hfirst h
    exact h.basicChar (by decide) (fun _ hc => hc) hfirst
  apply hinside.bind
  intro content inside hspells
  apply (takes_exactly _).bind
  rintro _ _ rfl
  apply takes_pure
  refine ⟨inside, by simp, ?_⟩
  rwa [String.toList_ofList]

theorem takes_newline : newline.Takes fun raw _ => raw = ['\n'] ∨ raw = ['\r', '\n'] := by
  apply Takes.orElse
  · exact (takes_exactly _).mono fun raw _ h => .inl h
  · exact (takes_exactly _).mono fun raw _ h => .inr h

/-- What joins two lines spells nothing. -/
theorem takes_lineJoint : lineJoint.Takes fun raw pieces => pieces = [] ∧ raw ≠ [] ∧ '[' ∉ raw := by
  have hblank : (char isBlank).Takes fun raw _ => '[' ∉ raw := by
    apply (takes_char _).mono
    rintro _ c ⟨rfl, hc⟩ hmem
    rw [← List.mem_singleton.mp hmem] at hc
    cases hc
  have hnewline : newline.Takes fun raw _ => '[' ∉ raw := by
    apply takes_newline.mono
    rintro _ _ (rfl | rfl) <;> decide
  have hrepeated : ∀ {α : Type} {scan : Scan α}, scan.Takes (fun raw _ => '[' ∉ raw) →
      (discard (repeated scan)).Takes fun raw _ => '[' ∉ raw := by
    intro α scan h
    apply Takes.map
    apply takes_repeated h List.not_mem_nil
    intro raw _ more _ hraw hmore
    simp [hraw, hmore]
  apply (takes_exactly _).bind
  rintro _ _ rfl
  apply (hrepeated hblank).bind
  intro _ first hfirst
  apply hnewline.bind
  intro _ second hsecond
  apply (hrepeated (Takes.orElse (Takes.map hblank) hnewline)).bind
  intro _ third hthird
  apply takes_pure
  exact ⟨rfl, by simp, by simp [hfirst, hsecond, hthird]⟩

theorem takes_quotes (quote : String) : (exactly quote *> exactly quote *> exactly quote).Takes
    fun raw _ => raw = quote.toList ++ quote.toList ++ quote.toList := by
  have htwo :
      (exactly quote *> exactly quote).Takes fun raw _ => raw = quote.toList ++ quote.toList :=
    (takes_exactly quote).seqRight fun _ _ hfirst =>
      (takes_exactly quote).mono fun _ _ hsecond => by rw [hfirst, hsecond]
  exact htwo.seqRight fun _ _ hfirst =>
    (takes_exactly quote).mono fun _ _ hsecond => by rw [hfirst, hsecond]

theorem takes_loneQuote (quote : String) :
    (loneQuote quote).Takes fun raw pieces => raw = quote.toList ∧ pieces = quote.toList := by
  apply (takes_optional (takes_quotes quote)).bind
  rintro found raw (⟨rfl, rfl⟩ | ⟨_, rfl, -⟩)
  · apply (takes_exactly _).bind
    rintro _ _ rfl
    exact takes_pure ⟨by simp, rfl⟩
  · exact takes_failure

/-- The pieces of a long string spell its content. -/
theorem takes_longPieces : (repeated ((lineJoint <|> (fun c => [c]) <$> Toml.basicChar) <|>
    (newline *> return ['\n']) <|> loneQuote "\"")).Takes fun raw pieces =>
      Spells (fun _ => True) '[' raw pieces.flatten := by
  have hpiece :
      ((lineJoint <|> (fun c => [c]) <$> Toml.basicChar) <|> (newline *> return ['\n']) <|>
        loneQuote "\"").Takes fun first piece => ∀ raw text, Spells (fun _ => True) '[' raw text →
          Spells (fun _ => True) '[' (first ++ raw) (piece ++ text) := by
    apply Takes.orElse
    apply Takes.orElse
    · apply takes_lineJoint.mono
      rintro first _ ⟨rfl, hne, hbracket⟩ raw text h
      exact .spelled hbracket (List.length_pos_iff.mpr hne) h
    · apply Takes.map
      apply takes_basicChar.mono
      intro first c hfirst raw text h
      exact h.basicChar (by decide) (fun _ _ => trivial) hfirst
    apply Takes.orElse
    · apply takes_newline.seqRight
      rintro _ _ (rfl | rfl)
      · exact takes_pure fun raw text h => .itself trivial h
      · exact takes_pure fun raw text h => .spelled (by decide) (by decide) h
    · apply (takes_loneQuote _).mono
      rintro _ _ ⟨rfl, rfl⟩ raw text h
      exact .itself trivial h
  apply takes_repeated hpiece .nil
  intro raw piece more pieces hfirst hmore
  exact hfirst more pieces.flatten hmore

/-- A quote that is part of the content in front of the end of a long string. -/
theorem takes_lastQuote : (optional (exactly "\"" *> return "\"".toList)).Takes fun raw found =>
    found.getD [] = raw ∧ ∀ c ∈ raw, c = '"' := by
  have hquote : (exactly "\"" *> return "\"".toList : Scan (List Char)).Takes
      fun raw quote => raw = ['"'] ∧ quote = ['"'] :=
    (takes_exactly _).seqRight fun _ _ hraw => takes_pure ⟨by rw [hraw]; rfl, rfl⟩
  apply (takes_optional hquote).mono
  rintro _ _ (⟨rfl, rfl⟩ | ⟨_, rfl, rfl, rfl⟩)
  · exact ⟨rfl, List.forall_mem_nil _⟩
  · exact ⟨rfl, by simp⟩

/-- A string between three double quotes spells its content but for the quotes at the end. No
bracket is a part of an escape in it. -/
theorem takes_longBasicString : longBasicString.Takes fun raw content =>
    ∃ inside spelled quotes, raw = ['"', '"', '"'] ++ inside ++ ['"', '"', '"'] ++ quotes ∧
      content.toList = spelled ++ quotes ∧ (∀ c ∈ quotes, c = '"') ∧
      Spells (fun _ => True) '[' inside spelled := by
  have hstart : (discard (optional newline)).Takes fun raw _ => '[' ∉ raw := by
    apply Takes.map
    apply (takes_optional takes_newline).mono
    rintro _ _ (⟨-, rfl⟩ | ⟨_, -, rfl | rfl⟩) <;> decide
  apply (takes_quotes _).bind
  rintro _ _ rfl
  apply hstart.bind
  intro _ start hbracket
  apply takes_longPieces.bind
  intro pieces inside hspells
  apply (takes_quotes _).bind
  rintro _ _ rfl
  apply takes_lastQuote.bind
  rintro first _ ⟨rfl, hfirst⟩
  apply takes_lastQuote.bind
  rintro second _ ⟨rfl, hsecond⟩
  apply takes_pure
  refine ⟨start ++ inside, pieces.flatten, first.getD [] ++ second.getD [], ?_, ?_, ?_, ?_⟩
  · simp
  · simp
  · exact List.forall_mem_append.mpr ⟨hfirst, hsecond⟩
  · cases start with
    | nil => exact hspells
    | cons c start =>
        have hlonger : ([] : List Char).length < (c :: start).length := Nat.succ_pos _
        exact Spells.spelled hbracket hlonger hspells

end Strings

/-! ## Texts that are read as they are written -/

section Faithful

variable {text rest : List Char} {offset : Nat} {next : Cursor}

theorem standsForItself_of_basicString
    (h : basicString (.before ('"' :: (text ++ '"' :: '\n' :: rest)) offset) =
      some (String.ofList text, next)) : ∀ c ∈ text, standsForItself c = true := by
  obtain ⟨raw, hraw, inside, rfl, hspells⟩ := takes_basicString _ _ _ h
  rw [String.toList_ofList] at hspells
  have hnewline : '\n' ∉ inside ++ ['"'] := by
    have hinside := hspells.not_mem (by decide)
    simp [hinside]
  have hrest : (text ++ ['"']) ++ '\n' :: rest = (inside ++ ['"']) ++ next.rest := by
    simpa using hraw
  obtain ⟨more, hmore, -⟩ := exists_eq_append_of_not_mem hnewline hrest
  have hlength := congrArg List.length hmore
  simp only [List.length_append, List.length_singleton] at hlength
  exact hspells.own_of_length_le (by omega)

/-- A text between double quotes with an empty line and a header behind it is not the content of a
long string. The bracket would stand within the string, and what stands before it would spell itself
with two quotes in front. -/
theorem longBasicString_ne :
    longBasicString (.before ('"' :: (text ++ '"' :: '\n' :: '\n' :: '[' :: rest)) offset) ≠
      some (String.ofList text, next) := by
  intro h
  obtain ⟨raw, hraw, inside, spelled, quotes, rfl, hcontent, hquotes, hspells⟩ :=
    takes_longBasicString _ _ _ h
  rw [String.toList_ofList] at hcontent
  have hfront : (text ++ ['"', '\n', '\n']) ++ '[' :: rest =
      ['"', '"'] ++ (inside ++ (['"', '"', '"'] ++ quotes ++ next.rest)) := by
    simpa using hraw
  have hbracket : '[' ∉ ['"', '"', '"'] ++ quotes := by
    rw [List.mem_append]
    rintro (hmem | hmem)
    · exact absurd hmem (by decide)
    · exact absurd (hquotes '[' hmem) (by decide)
  obtain ⟨front, hahead, hinside⟩ := exists_eq_append_of_not_mem (by decide) hfront
  have hfrontLength := congrArg List.length hahead
  have hcontentLength := congrArg List.length hcontent
  have hspelledLength := hspells.length_le
  simp only [List.length_append, List.length_cons, List.length_nil] at hfrontLength hcontentLength
  have hwithin : front.length < inside.length + (['"', '"', '"'] ++ quotes).length := by
    simp only [List.length_append, List.length_cons, List.length_nil]
    omega
  obtain ⟨back, rfl⟩ := exists_eq_append_of_length_lt hbracket hinside.symm hwithin
  obtain ⟨before, behind, rfl, -, hbefore, -⟩ := hspells.split
  rw [hcontent] at hahead
  have hcaught :
      before ++ '[' :: (behind ++ quotes ++ ['"', '\n', '\n']) = ['"', '"'] ++ front := by
    simpa using hahead
  obtain ⟨shorter, rfl, rfl⟩ := exists_eq_append_of_not_mem (by decide) hcaught
  exact Spells.not_ahead (by decide) _ hbefore

/-- A text between double quotes with an empty line and a header behind it is read as it is written
only if every character of it stands for itself. -/
theorem standsForItself_of_string
    (h : string (.before ('"' :: (text ++ '"' :: '\n' :: '\n' :: '[' :: rest)) offset) =
      some (String.ofList text, next)) : ∀ c ∈ text, standsForItself c = true := by
  have hother : (longLiteralString <|> literalString).Fails
      ('"' :: (text ++ '"' :: '\n' :: '\n' :: '[' :: rest)) := by
    have hquote : (exactly "'").Fails ('"' :: (text ++ '"' :: '\n' :: '\n' :: '[' :: rest)) :=
      fails_exactly (c := '\'') rfl (by simp)
    exact hquote.seqRight.seqRight.bind.orElse_fails hquote.bind
  obtain hlong | h := or_of_orElse h
  · exact absurd hlong longBasicString_ne
  · exact standsForItself_of_basicString (hother.of_orElse_right h)

end Faithful

end ResourceAssembler.Toml
