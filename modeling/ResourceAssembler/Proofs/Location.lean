import ResourceAssembler.Location
import ResourceAssembler.Proofs.Container.Placement

/-!
# Lines and columns

The location of a byte in a text counts the lines that end before the byte, and the bytes that stand
between the last of these line ends and the byte. Where its line starts, its column is counted from,
so that a location leads back to the byte, and locations come in the order of the bytes.
-/

namespace ResourceAssembler

open Container

/-- A path is told by a text exactly if it holds the bytes of that text. -/
theorem HostPath.text?_eq_some_iff {path : HostPath} {text : String} :
    path.text? = some text ↔ .ofText text = path := by
  constructor
  · intro h
    unfold text? String.fromUTF8? at h
    split at h
    case isTrue hvalid =>
      cases h
      rfl
    case isFalse => cases h
  · rintro rfl
    exact fromUTF8?_toUTF8 text

namespace Location

/-- The location is where one stands in a text behind its first bytes: `closed` holds the lines that
are ended, with their line ends, and `opened` what stands behind the last of them. -/
structure Marks (location : Location) (source : String) (offset : Nat)
    (closed opened : List UInt8) : Prop where
  passed : (octets source.toUTF8).take offset = closed ++ opened
  ended : closed = [] ∨ closed.getLast? = some 10
  unbroken : 10 ∉ opened
  line : location.line = closed.count 10 + 1
  column : location.column = opened.length + 1

/-- Passing over bytes without a line end only moves the column. -/
theorem advance_of_unbroken {bytes : List UInt8} (h : 10 ∉ bytes) (line column : Nat) :
    advance line column bytes = (line, column + bytes.length) := by
  induction bytes generalizing column with
  | nil => rfl
  | cons byte rest ih =>
      obtain ⟨hbyte, hrest⟩ := not_or.mp (List.mem_cons.not.mp h)
      rw [advance, if_neg (Ne.symm hbyte), ih hrest, List.length_cons, Nat.add_assoc,
        Nat.add_comm 1]

/-- Behind a line end the column is counted anew, whatever it was before. -/
theorem advance_of_ended (start : List UInt8) (line column : Nat) :
    advance line column (start ++ [10]) = (line + (start ++ [10]).count 10, 1) := by
  induction start generalizing line column with
  | nil => rfl
  | cons byte rest ih =>
      rw [List.cons_append, advance, ih, ih, List.count_cons]
      by_cases h : byte = 10
      · simp [h, Nat.add_assoc, Nat.add_comm 1]
      · simp [h]

theorem advance_append (line column : Nat) (first second : List UInt8) :
    advance line column (first ++ second) =
      advance (advance line column first).1 (advance line column first).2 second := by
  induction first generalizing line column with
  | nil => rfl
  | cons byte rest ih =>
      rw [List.cons_append, advance, advance, ih, ih]
      split <;> rfl

/-- Bytes are cut behind their last line end. -/
theorem exists_lines (bytes : List UInt8) : ∃ closed opened, bytes = closed ++ opened ∧
    (closed = [] ∨ closed.getLast? = some 10) ∧ 10 ∉ opened := by
  induction bytes with
  | nil => exact ⟨[], [], rfl, .inl rfl, List.not_mem_nil⟩
  | cons byte rest ih =>
      obtain ⟨closed, opened, rfl, hended, hunbroken⟩ := ih
      rcases hended with rfl | hlast
      · by_cases hbyte : byte = 10
        · exact ⟨[10], opened, by rw [hbyte]; rfl, .inr rfl, hunbroken⟩
        · refine ⟨[], byte :: opened, rfl, .inl rfl, ?_⟩
          exact List.not_mem_cons_of_ne_of_not_mem (Ne.symm hbyte) hunbroken
      · refine ⟨byte :: closed, opened, rfl, .inr ?_, hunbroken⟩
        rw [List.getLast?_cons, hlast]
        rfl

/-- The bytes that are passed over up to an offset are the first ones of the text. -/
theorem toList_extract_zero (bytes : ByteArray) (offset : Nat) :
    (bytes.extract 0 offset).data.toList = (octets bytes).take offset := by
  rw [octets, ByteArray.data_extract, Array.toList_extract, List.extract_eq_take_drop]
  rfl

/-- The location of an offset marks it. -/
theorem marks_ofOffset (file source : String) (offset : Nat) :
    ∃ closed opened, (ofOffset file source offset).Marks source offset closed opened := by
  obtain ⟨closed, opened, hsplit, hended, hunbroken⟩ :=
    exists_lines ((octets source.toUTF8).take offset)
  have hadvance : advance 1 1 (closed ++ opened) =
      (closed.count 10 + 1, opened.length + 1) := by
    rw [advance_append]
    rcases hended with rfl | hlast
    · rw [advance, advance_of_unbroken hunbroken, Nat.add_comm]
      rfl
    · obtain ⟨start, rfl⟩ := List.getLast?_eq_some_iff.mp hlast
      rw [advance_of_ended, advance_of_unbroken hunbroken, Nat.add_comm, Nat.add_comm opened.length]
  refine ⟨closed, opened, hsplit, hended, hunbroken, ?_, ?_⟩
  · rw [ofOffset, toList_extract_zero, hsplit, hadvance]
  · rw [ofOffset, toList_extract_zero, hsplit, hadvance]

/-! ## From locations back to offsets -/

/-- The offset at which a line of a text starts, the lines counted from
1, if there is such a line. -/
def lineStart? : List UInt8 → Nat → Option Nat
  | _, 0 => none
  | _, 1 => some 0
  | [], _ + 2 => none
  | byte :: rest, line + 2 =>
    (lineStart? rest (if byte = 10 then line + 1 else line + 2)).map (· + 1)

/-- Behind whole lines the next line starts. -/
theorem lineStart?_append {closed : List UInt8} (h : closed = [] ∨ closed.getLast? = some 10)
    (rest : List UInt8) :
    lineStart? (closed ++ rest) (closed.count 10 + 1) = some closed.length := by
  induction closed with
  | nil => cases rest <;> rfl
  | cons byte closed ih =>
      have hlast : closed = [] ∧ byte = 10 ∨ closed.getLast? = some 10 := by
        cases closed with
        | nil => simpa using h
        | cons next closed => exact .inr (by simpa using h)
      have hstart := ih (hlast.imp_left And.left)
      by_cases hbyte : byte = 10
      · subst hbyte
        rw [List.cons_append, List.count_cons_self, lineStart?, if_pos rfl, hstart]
        rfl
      · -- The line end that closes the last line stands further on.
        have hended : closed.getLast? = some 10 := hlast.resolve_left fun h => hbyte h.2
        obtain ⟨lines, hlines⟩ : ∃ lines, closed.count 10 = lines + 1 :=
          Nat.exists_eq_add_one.mpr (List.count_pos_iff.mpr (List.mem_of_getLast? hended))
        rw [hlines] at hstart
        rw [List.cons_append, List.count_cons_of_ne hbyte, hlines, lineStart?, if_neg hbyte, hstart]
        rfl

/-- A location leads to an offset if its column is counted, from 1, from where its line starts up to
there, and no line ends in between. -/
structure LeadsTo (location : Location) (bytes : List UInt8) (offset : Nat) : Prop where
  line_pos : 1 ≤ location.line
  column_pos : 1 ≤ location.column
  start : ∃ start, lineStart? bytes location.line = some start ∧
    start + (location.column - 1) = offset ∧
    ∀ i, start ≤ i → i < offset → bytes[i]? ≠ some 10

/-- A location leads to one offset at most. -/
theorem LeadsTo.unique {location : Location} {bytes : List UInt8} {offset other : Nat}
    (h : location.LeadsTo bytes offset) (hother : location.LeadsTo bytes other) :
    offset = other := by
  obtain ⟨start, hstart, hoffset, -⟩ := h.start
  obtain ⟨start', hstart', hother, -⟩ := hother.start
  rw [hstart] at hstart'
  cases hstart'
  exact hoffset.symm.trans hother

theorem leadsTo_of_marks {location : Location} {source : String} {offset : Nat}
    {closed opened : List UInt8} (h : location.Marks source offset closed opened) :
    location.LeadsTo (octets source.toUTF8) (min offset source.toUTF8.size) := by
  obtain ⟨hpassed, hended, hunbroken, hline, hcolumn⟩ := h
  have hsplit : octets source.toUTF8 =
      closed ++ (opened ++ (octets source.toUTF8).drop offset) := by
    rw [← List.append_assoc, ← hpassed, List.take_append_drop]
  have hlength : closed.length + opened.length = min offset source.toUTF8.size := by
    rw [← List.length_append, ← hpassed, List.length_take, length_octets]
  constructor
  case line_pos => omega
  case column_pos => omega
  case start =>
    refine ⟨closed.length, ?_, by omega, ?_⟩
    · rw [hsplit, hline]
      exact lineStart?_append hended _
    · intro i hstart hend hnewline
      rw [hsplit, List.getElem?_append_right hstart,
        List.getElem?_append_left (by omega)] at hnewline
      exact hunbroken (List.mem_of_getElem? hnewline)

theorem leadsTo_ofOffset (file source : String) (offset : Nat) :
    (ofOffset file source offset).LeadsTo (octets source.toUTF8)
      (min offset source.toUTF8.size) := by
  obtain ⟨closed, opened, hmarks⟩ := marks_ofOffset file source offset
  exact leadsTo_of_marks hmarks

/-! ## The order of locations -/

/-- One location stands before another in a text: on an earlier line, or on the same
line in an earlier column. -/
def Before (first second : Location) : Prop :=
  first.line < second.line ∨ first.line = second.line ∧ first.column < second.column

/-- Lines are counted by the line ends that are passed over. -/
theorem line_ofOffset (file source : String) (offset : Nat) :
    (ofOffset file source offset).line =
      ((octets source.toUTF8).take offset).count 10 + 1 := by
  obtain ⟨closed, opened, hpassed, -, hunbroken, hline, -⟩ := marks_ofOffset file source offset
  rw [hpassed, List.count_append, List.count_eq_zero.mpr hunbroken, hline, Nat.add_zero]

theorem line_mono (file source : String) {first second : Nat} (h : first ≤ second) :
    (ofOffset file source first).line ≤ (ofOffset file source second).line := by
  rw [line_ofOffset, line_ofOffset]
  apply Nat.add_le_add_right
  exact (List.take_sublist_take_left h).count_le 10

theorem ofOffset_of_size_le (file source : String) {offset : Nat}
    (h : source.toUTF8.size ≤ offset) :
    ofOffset file source offset = ofOffset file source source.toUTF8.size := by
  have hall : (octets source.toUTF8).take offset = octets source.toUTF8 := by
    apply List.take_of_length_le
    rwa [length_octets]
  unfold ofOffset
  rw [toList_extract_zero, toList_extract_zero, hall, ← length_octets, List.take_length]

/-- Offsets up to the length of a text are in the order of their locations. -/
theorem before_ofOffset_iff (file source : String) {first second : Nat}
    (hfirst : first ≤ source.toUTF8.size) (hsecond : second ≤ source.toUTF8.size) :
    (ofOffset file source first).Before (ofOffset file source second) ↔ first < second := by
  obtain ⟨start, hstart, hoffset, -⟩ := (leadsTo_ofOffset file source first).start
  obtain ⟨start', hstart', hoffset', -⟩ := (leadsTo_ofOffset file source second).start
  have hcolumn := (leadsTo_ofOffset file source first).column_pos
  have hcolumn' := (leadsTo_ofOffset file source second).column_pos
  rw [Nat.min_eq_left hfirst] at hoffset
  rw [Nat.min_eq_left hsecond] at hoffset'
  -- On one line both columns are counted from the same start.
  have hsame : (ofOffset file source first).line = (ofOffset file source second).line →
      start = start' := by
    intro hline
    rw [hline, hstart'] at hstart
    exact (Option.some.inj hstart).symm
  constructor
  · rintro (hline | ⟨hline, hless⟩)
    · by_contra hnot
      have hmono := line_mono file source (Nat.le_of_not_lt hnot)
      omega
    · have hstarts := hsame hline
      omega
  · intro hless
    obtain hline | hline := Nat.lt_or_eq_of_le (line_mono file source (Nat.le_of_lt hless))
    · exact .inl hline
    · have hstarts := hsame hline
      exact .inr ⟨hline, by omega⟩

/-- The location of every offset of every text. It leads back to the offset, or to the end of the
text if the offset lies behind that. So offsets up to the end are told apart by their locations,
and come in the same order. -/
theorem location_identifies_offset (file source : String) :
    (∀ offset, (ofOffset file source offset).LeadsTo (octets source.toUTF8)
      (min offset source.toUTF8.size)) ∧
    (∀ first second, first ≤ source.toUTF8.size → second ≤ source.toUTF8.size →
      (ofOffset file source first = ofOffset file source second ↔ first = second) ∧
      ((ofOffset file source first).Before (ofOffset file source second) ↔ first < second)) ∧
    ∀ offset, source.toUTF8.size ≤ offset →
      ofOffset file source offset = ofOffset file source source.toUTF8.size := by
  refine ⟨leadsTo_ofOffset file source, ?inside, fun _ => ofOffset_of_size_le file source⟩
  case inside =>
    intro first second hfirst hsecond
    refine ⟨⟨fun hsame => ?_, fun hsame => by rw [hsame]⟩,
      before_ofOffset_iff file source hfirst hsecond⟩
    have hleads := leadsTo_ofOffset file source first
    have hleads' := leadsTo_ofOffset file source second
    rw [Nat.min_eq_left hfirst, hsame] at hleads
    rw [Nat.min_eq_left hsecond] at hleads'
    exact hleads.unique hleads'

/-! ## Files of any path -/

theorem asText?_eq_some_iff {location : Location HostPath} {told : Location} :
    location.asText? = some told ↔ told.onHost = location := by
  simp only [asText?, Option.map_eq_some_iff, HostPath.text?_eq_some_iff]
  constructor
  · rintro ⟨file, hfile, rfl⟩
    rw [onHost, hfile]
  · rintro rfl
    exact ⟨told.file, rfl, rfl⟩

theorem asText?_eq_none_iff {location : Location HostPath} :
    location.asText? = none ↔ location.file.text? = none :=
  Option.map_eq_none_iff

end Location

namespace Lexeme

theorem asText?_eq_some_iff {lexeme : Lexeme HostPath} {told : Lexeme} :
    lexeme.asText? = some told ↔ told.onHost = lexeme := by
  simp only [asText?, Option.map_eq_some_iff, Location.asText?_eq_some_iff]
  constructor
  · rintro ⟨location, hlocation, rfl⟩
    rw [onHost, hlocation]
  · rintro rfl
    exact ⟨told.location, rfl, rfl⟩

theorem asText?_eq_none_iff {lexeme : Lexeme HostPath} :
    lexeme.asText? = none ↔ lexeme.location.file.text? = none := by
  rw [asText?, Option.map_eq_none_iff, Location.asText?_eq_none_iff]

end Lexeme

end ResourceAssembler
