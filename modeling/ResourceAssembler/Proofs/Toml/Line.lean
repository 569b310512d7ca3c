import Mathlib.Data.List.Forall2
import ResourceAssembler.Proofs.Toml.Reading
import ResourceAssembler.Toml.Document

/-!
# Plain lines

Three kinds of lines are written without anything that needs care: lines without content, headers
with a bare name, and pairs of a bare name and a text between double quotes in which every
character stands for itself. A line that starts like such a pair is one, whatever the text between
its quotes is, if it is a line at all.
-/

namespace ResourceAssembler.Toml

open Scan

/-- Characters that stand for themselves between double quotes. -/
def standsForItself (c : Char) : Bool :=
  isPlain c && c ≠ '"' && c ≠ '\\'

section Parts

variable {text rest : List Char} {c : Char}

/-! ## Gaps -/

theorem reads_blanks (h : ∀ b ∈ text, isBlank b = true)
    (hrest : ∀ b, rest.head? = some b → isBlank b = false) :
    blanks.Reads text rest fun _ => True :=
  reads_discard (reads_repeated_char h hrest)

theorem reads_no_blanks (h : isBlank c = false) : blanks.Reads [] (c :: rest) fun _ => True :=
  reads_blanks (List.forall_mem_nil _) fun b hb => by rwa [← Option.some.inj hb]

theorem reads_blank (h : isBlank c = false) (rest : List Char) :
    blanks.Reads [' '] (c :: rest) fun _ => True :=
  reads_blanks (by simp [isBlank]) fun b hb => by rwa [← Option.some.inj hb]

theorem reads_newline (rest : List Char) : newline.Reads ['\n'] rest fun _ => True :=
  (reads_exactly "\n" rest).orElse

theorem fails_comment (h : c ≠ '#') (rest : List Char) : comment.Fails (c :: rest) :=
  (fails_exactly (c := '#') rfl (by simpa using h)).bind

theorem reads_lineEnd (rest : List Char) : lineEnd.Reads ['\n'] rest fun _ => True := by
  have hcomment : comment.Fails ('\n' :: rest) := fails_comment (by decide) rest
  exact (reads_no_blanks (by decide)).bind fun _ _ =>
    (reads_discard (reads_optional_none hcomment)).bind fun _ _ => (reads_newline rest).orElse

theorem fails_lineEnd (hblank : isBlank c = false) (hcomment : c ≠ '#') (hline : c ≠ '\n')
    (hreturn : c ≠ '\r') : lineEnd.Fails (c :: rest) := by
  have hnewline : newline.Fails (c :: rest) :=
    (fails_exactly (c := '\n') rfl (by simpa using hline)).orElse_fails
      (fails_exactly (c := '\r') rfl (by simpa using hreturn))
  have hfinish : finish.Fails (c :: rest) := fun offset => rfl
  have hskipped := reads_discard (reads_optional_none (fails_comment hcomment rest))
  exact (reads_no_blanks hblank).bind_fails fun _ _ =>
    hskipped.bind_fails fun _ _ => hnewline.orElse_fails hfinish

/-! ## Keys -/

theorem isBlank_of_isBare (h : isBare c = true) : isBlank c = false := by
  rw [Bool.eq_false_iff]
  intro hblank
  simp only [isBlank, Bool.or_eq_true, decide_eq_true_eq] at hblank
  obtain rfl | rfl := hblank <;> exact absurd h (by decide)

theorem isBare_of_isBlank (h : isBlank c = true) : isBare c = false := by
  rw [Bool.eq_false_iff]
  intro hbare
  rw [isBlank_of_isBare hbare] at h
  cases h

theorem reads_keyPart (hne : text ≠ []) (hbare : ∀ b ∈ text, isBare b = true)
    (hrest : ∀ b, rest.head? = some b → isBare b = false) :
    keyPart.Reads text rest (· = String.ofList text) := by
  obtain ⟨first, more, rfl⟩ := List.exists_cons_of_ne_nil hne
  obtain ⟨hfirst, hmore⟩ := List.forall_mem_cons.mp hbare
  have hbehind := reads_repeated_char hmore hrest
  have hparts : (repeated₁ (char isBare)).Reads ([first] ++ more) rest (· = first :: more) :=
    (reads_char hfirst (more ++ rest)).bind_eq
      (hbehind.mono fun _ h => congrArg (first :: ·) h).bind_pure
  apply Reads.orElse
  apply Reads.map
  exact hparts.mono fun _ h => congrArg String.ofList h

/-- A key of one bare part, with blanks behind it. -/
theorem reads_key {gap : List Char} (hne : text ≠ []) (hbare : ∀ b ∈ text, isBare b = true)
    (hgap : ∀ b ∈ gap, isBlank b = true) (hblank : isBlank c = false) (hstop : isBare c = false)
    (hdot : c ≠ '.') : key.Reads (text ++ gap) (c :: rest) (· = ([], String.ofList text)) := by
  have hstart : blanks.Reads [] (text ++ (gap ++ c :: rest)) fun _ => True := by
    apply reads_blanks (List.forall_mem_nil _)
    intro b hb
    obtain ⟨first, more, rfl⟩ := List.exists_cons_of_ne_nil hne
    obtain rfl := Option.some.inj hb
    exact isBlank_of_isBare (hbare _ List.mem_cons_self)
  have hpart : keyPart.Reads text (gap ++ c :: rest) (· = String.ofList text) := by
    apply reads_keyPart hne hbare
    intro b hb
    cases gap with
    | nil => rwa [← Option.some.inj hb]
    | cons blank more =>
        obtain rfl := Option.some.inj hb
        exact isBare_of_isBlank (hgap _ List.mem_cons_self)
  have hend : blanks.Reads gap (c :: rest) fun _ => True :=
    reads_blanks hgap fun b hb => by rwa [← Option.some.inj hb]
  have hmark : (exactly ".").Fails (c :: rest) := fails_exactly (c := '.') rfl (by simpa using hdot)
  have hparts := reads_separated_one ((hstart.seqRight hpart).seqLeft hend) hmark
  rw [← List.append_nil (text ++ gap)]
  apply Reads.bind_eq hparts
  exact reads_pure (c :: rest) rfl

/-! ## Texts -/

theorem fails_escape (h : c ≠ '\\') : escape.Fails (c :: rest) :=
  (fails_exactly (c := '\\') rfl (by simpa using h)).bind

/-- A character that stands for itself is read as it is. -/
theorem reads_basicChar (h : standsForItself c = true) (rest : List Char) :
    basicChar.Reads [c] rest (· = c) :=
  (reads_char h rest).orElse

theorem fails_basicChar_quote (rest : List Char) : basicChar.Fails ('"' :: rest) := by
  apply Fails.orElse_fails
  · apply fails_char
    intro c hc
    obtain rfl := Option.some.inj hc
    rfl
  · exact fails_escape (by decide)

theorem reads_basicString (htext : ∀ b ∈ text, standsForItself b = true) (rest : List Char) :
    basicString.Reads ('"' :: (text ++ ['"'])) rest (· = String.ofList text) := by
  have hcontent : (repeated basicChar).Reads text ('"' :: rest) (· = text) :=
    reads_repeated (fun b hb more => reads_basicChar (htext b hb) more) (fails_basicChar_quote rest)
  apply (reads_exactly "\"" (text ++ ['"'] ++ rest)).bind
  intro _ _
  apply Reads.bind_eq hcontent
  apply Reads.bind_pure
  exact (reads_exactly "\"" rest).mono fun _ _ => rfl

/-- Three quotes stand at the start of a long text. -/
theorem fails_quotes {given : List Char} (h : ¬['"', '"', '"'] <+: given) :
    (exactly "\"" *> exactly "\"" *> exactly "\"").Fails given := by
  by_cases hfirst : given.head? = some '"'
  case neg => exact (fails_exactly (c := '"') rfl hfirst).seqRight.seqRight
  obtain ⟨more, rfl⟩ := List.head?_eq_some_iff.mp hfirst
  by_cases hsecond : more.head? = some '"'
  case neg =>
    have hquote : (exactly "\"").Fails more := fails_exactly rfl hsecond
    exact ((reads_exactly "\"" more).seqRight_fails hquote).seqRight
  obtain ⟨more, rfl⟩ := List.head?_eq_some_iff.mp hsecond
  by_cases hthird : more.head? = some '"'
  case neg =>
    have hquote : (exactly "\"").Fails more := fails_exactly rfl hthird
    have htwo := (reads_exactly "\"" ('"' :: more)).seqRight (reads_exactly "\"" more)
    exact htwo.seqRight_fails hquote
  obtain ⟨more, rfl⟩ := List.head?_eq_some_iff.mp hthird
  exact absurd ⟨more, rfl⟩ h

theorem fails_longBasicString {given : List Char} (h : ¬['"', '"', '"'] <+: given) :
    longBasicString.Fails given :=
  (fails_quotes h).bind

/-- A text between double quotes that no third quote follows. -/
theorem reads_string (htext : ∀ b ∈ text, standsForItself b = true) (hquote : c ≠ '"') :
    string.Reads ('"' :: (text ++ ['"'])) (c :: rest) (· = String.ofList text) := by
  have hlong : longBasicString.Fails ('"' :: (text ++ ['"']) ++ c :: rest) := by
    apply fails_longBasicString
    rintro ⟨more, hmore⟩
    cases text with
    | nil =>
        cases hmore
        exact hquote rfl
    | cons b text =>
        obtain rfl : '"' = b := (List.cons.inj (List.cons.inj hmore).2).1
        exact absurd (htext _ List.mem_cons_self) (by decide)
  exact hlong.orElse (reads_basicString htext (c :: rest)).orElse

/-- A text is read as a value, which tells where it stands. -/
theorem reads_scalar (htext : ∀ b ∈ text, standsForItself b = true) (hquote : c ≠ '"') :
    scalar.Reads ('"' :: (text ++ ['"'])) (c :: rest)
      fun value => ∃ offset, value = .text (String.ofList text) offset := by
  have hstart : (get : Scan Cursor).Reads [] ('"' :: (text ++ ['"']) ++ c :: rest) fun _ => True :=
    fun offset => ⟨_, offset, rfl, trivial⟩
  apply hstart.bind
  intro cursor _
  apply Reads.orElse
  apply Reads.map
  exact (reads_string htext hquote).mono fun _ h => ⟨cursor.offset, by rw [h]⟩

theorem reads_valueWithin {gives : Value → Prop} (h : scalar.Reads text rest gives) (depth : Nat) :
    (valueWithin depth).Reads text rest gives := by
  cases depth with
  | zero => exact h
  | succ depth => exact h.orElse

end Parts

/-! ## Lines -/

/-- A plain line. -/
inductive PlainLine where
  | blank
  | header (name : List Char)
  | pair (name text : List Char)

namespace PlainLine

/-- A plain line as it is written. -/
def written : PlainLine → List Char
  | blank => ['\n']
  | header name => '[' :: (name ++ [']', '\n'])
  | pair name text => name ++ [' ', '=', ' ', '"'] ++ text ++ ['"', '\n']

/-- Names are bare, and in a text every character stands for itself. -/
def isSound : PlainLine → Bool
  | blank => true
  | header name => !name.isEmpty && name.all isBare
  | pair name text => !name.isEmpty && name.all isBare && text.all standsForItself

theorem isSound_header_iff {name : List Char} :
    (header name).isSound = true ↔ name ≠ [] ∧ ∀ c ∈ name, isBare c = true := by
  simp [isSound]

theorem isSound_pair_iff {name text : List Char} : (pair name text).isSound = true ↔
    (name ≠ [] ∧ ∀ c ∈ name, isBare c = true) ∧ ∀ c ∈ text, standsForItself c = true := by
  simp [isSound]

/-- What a plain line says. -/
def Says : PlainLine → Line → Prop
  | blank, line => line = .blank
  | header name, line => line = .header { path := [], key := String.ofList name, inArray := false }
  | pair name text, line => ∃ offset, line = .pair
      { path := [], key := String.ofList name, value := .text (String.ofList text) offset }

/-- No plain line is without characters, and none starts with a byte order mark. -/
theorem exists_cons_eq_written {plain : PlainLine} (h : plain.isSound = true) :
    ∃ first more, plain.written = first :: more ∧ first ≠ '\ufeff' := by
  cases plain with
  | blank => exact ⟨_, _, rfl, by decide⟩
  | header name => exact ⟨_, _, rfl, by decide⟩
  | pair name text =>
      obtain ⟨⟨hne, hbare⟩, -⟩ := isSound_pair_iff.mp h
      obtain ⟨first, more, rfl⟩ := List.exists_cons_of_ne_nil hne
      refine ⟨_, _, rfl, ?_⟩
      rintro rfl
      exact absurd (hbare _ List.mem_cons_self) (by decide)

end PlainLine

section Lines

variable {name text rest : List Char}

theorem fails_lineEnd_of_bare (hne : name ≠ []) (hbare : ∀ c ∈ name, isBare c = true)
    (rest : List Char) : lineEnd.Fails (name ++ rest) := by
  obtain ⟨first, more, rfl⟩ := List.exists_cons_of_ne_nil hne
  have hfirst := hbare first List.mem_cons_self
  apply fails_lineEnd (isBlank_of_isBare hfirst)
  all_goals
    rintro rfl
    exact absurd hfirst (by decide)

theorem fails_bracket_of_bare (hne : name ≠ []) (hbare : ∀ c ∈ name, isBare c = true)
    (rest : List Char) : (exactly "[").Fails (name ++ rest) := by
  apply fails_exactly (c := '[') rfl
  obtain ⟨first, more, rfl⟩ := List.exists_cons_of_ne_nil hne
  intro hfirst
  obtain rfl : first = '[' := Option.some.inj hfirst
  exact absurd (hbare _ List.mem_cons_self) (by decide)

/-- No header starts with a bare name. -/
theorem fails_header_of_bare (hne : name ≠ []) (hbare : ∀ c ∈ name, isBare c = true)
    (rest : List Char) :
    (blanks *> (Line.header <$> header <* lineEnd)).Fails (name ++ rest) := by
  have hbracket := fails_bracket_of_bare hne hbare rest
  obtain ⟨first, more, rfl⟩ := List.exists_cons_of_ne_nil hne
  have hfirst := hbare first List.mem_cons_self
  exact (reads_no_blanks (isBlank_of_isBare hfirst)).seqRight_fails hbracket.bind.map.seqLeft

theorem reads_header (hne : name ≠ []) (hbare : ∀ c ∈ name, isBare c = true) :
    header.Reads ('[' :: (name ++ [']'])) rest
      (· = { path := [], key := String.ofList name, inArray := false }) := by
  have hsingle := fails_bracket_of_bare hne hbare (']' :: rest)
  have hkey : key.Reads (name ++ []) (']' :: rest) (· = ([], String.ofList name)) :=
    reads_key hne hbare (List.forall_mem_nil _) rfl rfl (by decide)
  rw [List.append_nil] at hkey
  have hwritten : '[' :: (name ++ [']']) = ['['] ++ (name ++ ([']'] ++ [])) := rfl
  rw [hwritten]
  apply (reads_exactly "[" (name ++ ([']'] ++ []) ++ rest)).bind
  intro _ _
  rw [← List.singleton_append, ← List.append_assoc] at hsingle
  apply (reads_optional_none hsingle).bind_nil
  rintro _ rfl
  apply Reads.bind_eq hkey
  apply (reads_exactly "]" ([] ++ rest)).bind
  intro _ _
  exact reads_pure rest rfl

theorem reads_pair (hne : name ≠ []) (hbare : ∀ c ∈ name, isBare c = true)
    (htext : ∀ c ∈ text, standsForItself c = true) (depth : Nat) :
    (pair (valueWithin depth)).Reads (name ++ [' ', '=', ' ', '"'] ++ text ++ ['"']) ('\n' :: rest)
      fun pair => ∃ offset, pair =
        { path := [], key := String.ofList name, value := .text (String.ofList text) offset } := by
  have hkey : key.Reads (name ++ [' ']) ('=' :: (' ' :: '"' :: (text ++ ['"']) ++ '\n' :: rest))
      (· = ([], String.ofList name)) :=
    reads_key hne hbare (by simp [isBlank]) rfl rfl (by decide)
  have hscalar : scalar.Reads ('"' :: (text ++ ['"'])) ('\n' :: rest)
      fun value => ∃ offset, value = .text (String.ofList text) offset :=
    reads_scalar htext (by decide)
  have hwritten : name ++ [' ', '=', ' ', '"'] ++ text ++ ['"'] =
      (name ++ [' ']) ++ (['='] ++ ([' '] ++ '"' :: (text ++ ['"']))) := by
    simp
  rw [hwritten]
  apply Reads.bind_eq hkey
  apply (reads_exactly "=" _).bind
  intro _ _
  apply (reads_blank rfl _).bind
  intro _ _
  apply Reads.bind_pure
  apply (reads_valueWithin hscalar depth).mono
  rintro _ ⟨offset, rfl⟩
  exact ⟨offset, rfl⟩

theorem reads_line {plain : PlainLine} (h : plain.isSound = true) (rest : List Char) :
    line.Reads plain.written rest plain.Says := by
  obtain ⟨first, more, hfirst, -⟩ := PlainLine.exists_cons_eq_written h
  have hthere : atEnd.Reads [] (plain.written ++ rest) (· = false) := by
    rw [hfirst]
    exact reads_atEnd _
  unfold line
  apply hthere.bind_nil
  rintro _ rfl
  rw [if_neg Bool.false_ne_true]
  cases plain with
  | blank =>
      apply Reads.orElse
      exact (reads_lineEnd ([] ++ rest)).bind fun _ _ => reads_pure rest rfl
  | header name =>
      obtain ⟨hne, hbare⟩ := PlainLine.isSound_header_iff.mp h
      have hend : lineEnd.Fails ((PlainLine.header name).written ++ rest) :=
        fails_lineEnd rfl (by decide) (by decide) (by decide)
      have hwritten :
          (PlainLine.header name).written = [] ++ ('[' :: (name ++ [']']) ++ ['\n']) := by
        simp [PlainLine.written]
      apply Fails.orElse hend.seqRight
      rw [hwritten]
      apply Reads.orElse
      apply (reads_no_blanks rfl).seqRight
      apply Reads.seqLeft _ (reads_lineEnd rest)
      apply Reads.map
      exact (reads_header hne hbare).mono fun _ h => congrArg Line.header h
  | pair name text =>
      obtain ⟨⟨hne, hbare⟩, htext⟩ := PlainLine.isSound_pair_iff.mp h
      have hwritten : (PlainLine.pair name text).written =
          name ++ [' ', '=', ' ', '"'] ++ text ++ ['"'] ++ ['\n'] := by
        simp [PlainLine.written]
      have hend := fails_lineEnd_of_bare hne hbare
        ([' ', '=', ' ', '"'] ++ text ++ ['"'] ++ ['\n'] ++ rest)
      have hheader := fails_header_of_bare hne hbare
        ([' ', '=', ' ', '"'] ++ text ++ ['"'] ++ ['\n'] ++ rest)
      simp only [← List.append_assoc] at hend hheader
      rw [hwritten]
      apply Fails.orElse hend.seqRight
      apply Fails.orElse hheader
      apply Reads.seqLeft _ (reads_lineEnd rest)
      apply Reads.map
      apply (reads_pair hne hbare htext depthLimit).mono
      rintro _ ⟨offset, rfl⟩
      exact ⟨offset, rfl⟩

theorem exists_string_of_scalar {offset : Nat} {value : Value} {next : Cursor}
    (h : scalar (.before ('"' :: rest) offset) = some (value, next)) :
    ∃ content behind, string (.before ('"' :: rest) offset) = some (content, behind) ∧
      value = .text content offset := by
  have hother : (Value.moment <$> moment <|> Value.float <$> float <|> Value.integer <$> integer <|>
      (exactly "true" *> return Value.boolean true) <|>
        (exactly "false" *> return Value.boolean false)).Fails ('"' :: rest) :=
    fun offset => rfl
  obtain ⟨cursor, _, hcursor, h⟩ := exists_of_bind h
  cases hcursor
  obtain ⟨content, hstring, rfl⟩ := exists_of_map (hother.of_orElse_right h)
  exact ⟨content, next, hstring, rfl⟩

theorem exists_string_of_valueWithin {depth offset : Nat} {value : Value} {next : Cursor}
    (h : valueWithin depth (.before ('"' :: rest) offset) = some (value, next)) :
    ∃ content behind, string (.before ('"' :: rest) offset) = some (content, behind) ∧
      value = .text content offset := by
  cases depth with
  | zero => exact exists_string_of_scalar h
  | succ depth =>
      have harray : (exactly "[").Fails ('"' :: rest) := fails_exactly (c := '[') rfl (by simp)
      have htable : (exactly "\x7b").Fails ('"' :: rest) :=
        fails_exactly (c := '\x7b') rfl (by simp)
      have hother :
          (arrayOf (valueWithin depth) <|> tableOf (valueWithin depth)).Fails ('"' :: rest) :=
        harray.bind.orElse_fails htable.bind
      exact exists_string_of_scalar (hother.of_orElse_right h)

theorem exists_string_of_pair (hne : name ≠ []) (hbare : ∀ c ∈ name, isBare c = true)
    {depth offset : Nat} {read : Pair} {next : Cursor}
    (h : pair (valueWithin depth) (.before (name ++ [' ', '=', ' '] ++ '"' :: rest) offset) =
      some (read, next)) :
    ∃ start content behind, string (.before ('"' :: rest) start) = some (content, behind) ∧
      read = { path := [], key := String.ofList name, value := .text content start } := by
  have hkey :
      key.Reads (name ++ [' ']) ('=' :: ' ' :: '"' :: rest) (· = ([], String.ofList name)) :=
    reads_key hne hbare (by simp [isBlank]) rfl rfl (by decide)
  have hwritten : name ++ [' ', '=', ' '] ++ '"' :: rest =
      name ++ [' '] ++ (['='] ++ ([' '] ++ '"' :: rest)) := by
    simp
  rw [hwritten] at h
  obtain ⟨_, _, rfl, h⟩ := hkey.exists_of_bind h
  obtain ⟨_, _, -, h⟩ := (reads_exactly "=" _).exists_of_bind h
  obtain ⟨_, start, -, h⟩ := (reads_blank rfl rest).exists_of_bind h
  obtain ⟨value, last, hvalue, h⟩ := exists_of_bind h
  cases h
  obtain ⟨content, behind, hstring, rfl⟩ := exists_string_of_valueWithin hvalue
  exact ⟨start, content, behind, hstring, rfl⟩

/-- Behind a bare name and a quote a line can only be a pair of the name and the
string that is read there. -/
theorem exists_string_of_line (hne : name ≠ []) (hbare : ∀ c ∈ name, isBare c = true)
    {offset : Nat} {read : Line} {next : Cursor}
    (h : line (.before (name ++ [' ', '=', ' '] ++ '"' :: rest) offset) = some (read, next)) :
    ∃ start content behind, string (.before ('"' :: rest) start) = some (content, behind) ∧
      read = .pair { path := [], key := String.ofList name, value := .text content start } := by
  obtain ⟨first, more, hfirst⟩ := List.exists_cons_of_ne_nil hne
  have hthere : atEnd.Reads [] (name ++ [' ', '=', ' '] ++ '"' :: rest) (· = false) := by
    rw [hfirst]
    exact reads_atEnd _
  have hend := fails_lineEnd_of_bare hne hbare ([' ', '=', ' '] ++ '"' :: rest)
  have hheader := fails_header_of_bare hne hbare ([' ', '=', ' '] ++ '"' :: rest)
  rw [← List.append_assoc] at hend hheader
  unfold line at h
  obtain ⟨_, _, rfl, h⟩ := hthere.exists_of_bind h
  rw [if_neg Bool.false_ne_true] at h
  obtain ⟨between, h⟩ := exists_of_seqLeft (hheader.of_orElse (hend.seqRight.of_orElse h))
  obtain ⟨read, hpair, rfl⟩ := exists_of_map h
  obtain ⟨start, content, behind, hstring, rfl⟩ := exists_string_of_pair hne hbare hpair
  exact ⟨start, content, behind, hstring, rfl⟩

end Lines

/-! ## Documents -/

theorem length_le_flatMap_written {plain : List PlainLine}
    (h : ∀ line ∈ plain, line.isSound = true) :
    plain.length ≤ (plain.flatMap (·.written)).length := by
  induction plain with
  | nil => exact Nat.le_refl 0
  | cons plain more ih =>
      obtain ⟨hplain, hmore⟩ := List.forall_mem_cons.mp h
      obtain ⟨first, behind, hfirst, -⟩ := PlainLine.exists_cons_eq_written hplain
      rw [List.flatMap_cons, List.length_append, hfirst, List.length_cons, List.length_cons]
      have hrest := ih hmore
      omega

theorem repeats_line {plain : List PlainLine} (h : ∀ line ∈ plain, line.isSound = true) :
    Repeats line plain.length (plain.flatMap (·.written)) []
      (List.Forall₂ PlainLine.Says plain) := by
  induction plain with
  | nil =>
      have hend : line.Fails [] := fun offset => rfl
      exact (repeats_nil hend).mono fun _ hnone => hnone ▸ .nil
  | cons plain more ih =>
      obtain ⟨hplain, hmore⟩ := List.forall_mem_cons.mp h
      apply ((ih hmore).cons (reads_line hplain _)).mono
      rintro _ ⟨read, behind, rfl, hread, hbehind⟩
      exact .cons hread hbehind

/-- A document of plain lines says what its lines say. -/
theorem reads_lines {plain : List PlainLine} (h : ∀ line ∈ plain, line.isSound = true) :
    lines.Reads (plain.flatMap (·.written)) [] (List.Forall₂ PlainLine.Says plain) := by
  have hmark : (exactly "\ufeff").Fails (plain.flatMap (·.written) ++ []) := by
    apply fails_exactly (c := '\ufeff') rfl
    cases plain with
    | nil => simp
    | cons plain more =>
        obtain ⟨first, behind, hfirst, hne⟩ :=
          PlainLine.exists_cons_eq_written (h plain List.mem_cons_self)
        simp [hfirst, hne]
  have hlines := (repeats_line h).reads (length_le_flatMap_written h)
  unfold lines
  apply (reads_discard (reads_optional_none hmark)).bind_nil
  intro _ _
  rw [← List.append_nil (plain.flatMap _)]
  apply hlines.bind
  intro read hread
  have hfinish : finish.Reads [] [] fun _ => True := fun offset => ⟨(), offset, rfl, trivial⟩
  exact (hfinish.mono fun _ _ => hread).bind_pure

theorem rest_eq_nil_of_finish {cursor last : Cursor} {done : Unit}
    (h : finish cursor = some (done, last)) : cursor.rest = [] := by
  obtain ⟨rest, offset, left, hleft⟩ := cursor
  cases rest with
  | nil => rfl
  | cons c rest => cases h

/-- A document is made of its lines, and nothing stands behind the last one. -/
theorem exists_runs_of_parse? {text : String} {entries : Entries}
    (hmark : text.toList.head? ≠ some '\ufeff') (h : parse? text = some entries) :
    ∃ offset read last, Runs line (.before text.toList offset) read last ∧ last.rest = [] ∧
      (read.foldlM Draft.add? {}).bind Draft.close? = some entries := by
  have hnone : (exactly "\ufeff").Fails ([] ++ text.toList) := fails_exactly rfl hmark
  unfold parse? at h
  obtain ⟨⟨read, last⟩, hlines, hread⟩ := Option.bind_eq_some_iff.mp h
  change lines (.before text.toList 0) = _ at hlines
  rw [← List.nil_append text.toList] at hlines
  unfold lines at hlines
  obtain ⟨_, offset, -, hlines⟩ := (reads_discard (reads_optional_none hnone)).exists_of_bind hlines
  obtain ⟨_, _, hrepeated, hlines⟩ := exists_of_bind hlines
  obtain ⟨_, _, hfinish, hlines⟩ := exists_of_bind hlines
  cases hlines
  exact ⟨offset, read, _, runs_of_repeated hrepeated, rest_eq_nil_of_finish hfinish, hread⟩

/-- What is made of a document of plain lines is made of what its lines say. -/
theorem parse?_of_plain {plain : List PlainLine} (h : ∀ line ∈ plain, line.isSound = true)
    {text : String}
    (htext : text.toList = plain.flatMap (·.written)) :
    ∃ read, List.Forall₂ PlainLine.Says plain read ∧
      parse? text = (read.foldlM Draft.add? {}).bind Draft.close? := by
  obtain ⟨read, next, hlines, hread⟩ := reads_lines h 0
  rw [List.append_nil, ← htext] at hlines
  refine ⟨read, hread, ?_⟩
  unfold parse?
  change (lines (.before text.toList 0)).bind _ = _
  rw [hlines]
  rfl

end ResourceAssembler.Toml
