import ResourceAssembler.Proofs.Container.Placement

/-!
# Reading a payload

A payload says nothing of the values it was made of. A reader who knows their kinds finds them
again, as far as they were written: an integer is cut to its width, and a counted string to 255
bytes. A string that ends at a zero byte must not hold one, and as the bytes of a file have no end
of their own, nothing may stand behind them.
-/

namespace ResourceAssembler

open Container

/-- What is found again of a value. -/
inductive StoredValue where
  | integer (value : Int)
  | text (bytes : List UInt8)
  | data (bytes : List UInt8)
deriving DecidableEq, Repr

namespace FieldValue

/-- The kind of the fields that take a value. Images are written as data. -/
def kind : FieldValue → FieldKind
  | integer width _ => .integer width
  | pstring _ => .pstring
  | cstring _ => .cstring
  | data _ => .data

/-- What is left of a value when it is written: the low bits of an integer with their sign, and the
first 255 bytes of a counted string. -/
def stored : FieldValue → StoredValue
  | integer width value => .integer (value.toBitVec.setWidth (8 * width.bytes)).toInt
  | pstring text => .text ((octets text.toUTF8).take 255)
  | cstring text => .text (octets text.toUTF8)
  | data bytes => .data (octets bytes)

end FieldValue

/-- Reads a value of the given kind from the front, and says what stands behind it. -/
def readValue : FieldKind → List UInt8 → Option (StoredValue × List UInt8)
  | .integer width, bytes => do
    let word ← big? width.bytes bytes 0
    return (.integer (Word.signed width.bytes word), bytes.drop width.bytes)
  | .pstring, bytes => do
    let text ← counted? 1 bytes 0
    return (.text (octets text), bytes.drop (1 + text.size))
  | .cstring, bytes =>
    if 0 ∈ bytes then some (.text (bytes.takeWhile (· ≠ 0)), (bytes.dropWhile (· ≠ 0)).tail)
    else none
  | .data, bytes => some (.data bytes, [])
  | .image, bytes => some (.data bytes, [])

/-- Reads values of the given kinds, one behind the other, and says what
stands behind the last one. -/
def readValues : List FieldKind → List UInt8 → Option (List StoredValue × List UInt8)
  | [], bytes => some ([], bytes)
  | kind :: kinds, bytes => do
    let (value, rest) ← readValue kind bytes
    let (values, rest) ← readValues kinds rest
    return (value :: values, rest)

/-- Values that can be told apart in a payload. -/
structure Separable (values : List FieldValue) : Prop where
  noZero : ∀ text, .cstring text ∈ values → 0 ∉ octets text.toUTF8
  dataLast : ∀ value ∈ values.dropLast, value.kind ≠ .data

theorem Separable.tail {value : FieldValue} {rest : List FieldValue}
    (h : Separable (value :: rest)) : Separable rest where
  noZero text htext := h.noZero text (List.mem_cons_of_mem value htext)
  dataLast other hother := by
    cases rest with
    | nil => cases hother
    | cons next rest => exact h.dataLast other (List.mem_cons_of_mem value hother)

/-! ## One value -/

namespace FieldValue

/-- The low bits of an integer, with their sign, in the words of remainders. -/
theorem toInt_setWidth_eq (width : IntegerWidth) (value : Int64) :
    (value.toBitVec.setWidth (8 * width.bytes)).toInt =
      value.toInt.bmod (Word.span width.bytes) := by
  have hspan : Word.span width.bytes = Nat.pow 2 (8 * width.bytes) := by cases width <;> rfl
  have hdvd : Word.span width.bytes ∣ Word.span 8 := by cases width <;> decide
  have hwhole : value.toInt = (value.toBitVec.toNat : Int).bmod (Word.span 8) :=
    BitVec.toInt_eq_toNat_bmod value.toBitVec
  calc (value.toBitVec.setWidth (8 * width.bytes)).toInt
      = (value.toBitVec.toNat : Int).bmod (Word.span width.bytes) := by
        rw [hspan]
        exact BitVec.toInt_setWidth value.toBitVec
    _ = ((value.toBitVec.toNat : Int).bmod (Word.span 8)).bmod (Word.span width.bytes) :=
        (Int.bmod_bmod_of_dvd hdvd).symm
    _ = value.toInt.bmod (Word.span width.bytes) := by rw [← hwhole]

/-- An integer that fits its width is found again as it was. -/
theorem stored_integer_of_fits {width : IntegerWidth} {value : Int64}
    (hlow : -(Word.span width.bytes : Int) ≤ 2 * value.toInt)
    (hhigh : 2 * value.toInt < Word.span width.bytes) :
    (integer width value).stored = .integer value.toInt := by
  rw [stored, toInt_setWidth_eq, Int.bmod_eq_of_le_mul_two (by omega) (by omega)]

/-- The word of an integer on its width. -/
theorem octets_encode_integer (width : IntegerWidth) (value : Int64) :
    octets (integer width value).encode =
      Word.big width.bytes (Word.complement width.bytes value.toInt) := by
  have hdvd : (Word.span width.bytes : Int) ∣ Word.span 8 := by cases width <;> decide
  have hpos := Word.span_pos 8
  have hnonneg : 0 ≤ value.toInt % (Word.span 8 : Int) := Int.emod_nonneg _ (by omega)
  have hlow : Word.complement 8 value.toInt % Word.span width.bytes =
      Word.complement width.bytes value.toInt := by
    rw [Word.complement, Word.complement, ← Int.emod_emod_of_dvd value.toInt hdvd,
      Int.toNat_emod hnonneg (Int.natCast_nonneg _), Int.toNat_natCast]
  rw [encode, octets_bytesOf, ← Word.big_mod_span, hlow]

theorem octets_encode_pstring (text : String) :
    octets (pstring text).encode = counted 1 (text.toUTF8.extract 0 255) := by
  rw [encode, octets_append, octets_bytesOf, counted]
  rfl

theorem octets_extract (bytes : ByteArray) (count : Nat) :
    octets (bytes.extract 0 count) = (octets bytes).take count := by
  simp [octets]

theorem octets_encode_cstring (text : String) :
    octets (cstring text).encode = octets text.toUTF8 ++ [0] := by
  rw [encode]
  simp [octets]

theorem readValue_integer (width : IntegerWidth) (value : Int64) (behind : List UInt8) :
    readValue (.integer width) (octets (integer width value).encode ++ behind) =
      some ((integer width value).stored, behind) := by
  have hword : Holds (octets (integer width value).encode ++ behind) 0
      (Word.big width.bytes (Word.complement width.bytes value.toInt)) := by
    rw [octets_encode_integer]
    exact (holds_append.mp (holds_self _)).1
  have hread := hword.big (Word.complement_lt_span width.bytes value.toInt)
  have hlength : (octets (integer width value).encode).length = width.bytes := by
    rw [octets_encode_integer, Word.length_big]
  simp only [readValue, hread, Option.bind_eq_bind, Option.bind_some, Option.pure_def]
  rw [Word.signed_complement_eq_bmod, stored, toInt_setWidth_eq, List.drop_left' hlength]

theorem readValue_pstring (text : String) (behind : List UInt8) :
    readValue .pstring (octets (pstring text).encode ++ behind) =
      some ((pstring text).stored, behind) := by
  have hsize : (text.toUTF8.extract 0 255).size < Word.span 1 := by
    rw [← length_octets, octets_extract, List.length_take]
    simp only [Word.span]
    omega
  have htext : Holds (octets (pstring text).encode ++ behind) 0
      (counted 1 (text.toUTF8.extract 0 255)) := by
    rw [octets_encode_pstring]
    exact (holds_append.mp (holds_self _)).1
  have hread := htext.counted hsize
  have hlength : (octets (pstring text).encode).length =
      1 + (text.toUTF8.extract 0 255).size := by
    rw [octets_encode_pstring, length_counted]
  simp only [readValue, hread, Option.bind_eq_bind, Option.bind_some, Option.pure_def]
  rw [stored, octets_extract, List.drop_left' hlength]

theorem readValue_cstring {text : String} (hzero : 0 ∉ octets text.toUTF8)
    (behind : List UInt8) :
    readValue .cstring (octets (cstring text).encode ++ behind) =
      some ((cstring text).stored, behind) := by
  have hnonzero : ∀ byte ∈ octets text.toUTF8, decide (byte ≠ 0) = true := by
    intro byte hbyte
    exact decide_eq_true (ne_of_mem_of_not_mem hbyte hzero)
  rw [octets_encode_cstring, List.append_assoc, List.singleton_append, readValue,
    if_pos (List.mem_append_right _ List.mem_cons_self), List.takeWhile_append_of_pos hnonzero,
    List.dropWhile_append_of_pos hnonzero]
  simp [stored]

/-- A value with an end of its own is found again in front of what stands behind it. -/
theorem readValue_encode {value : FieldValue} (hdata : value.kind ≠ .data)
    (hzero : ∀ text, value = .cstring text → 0 ∉ octets text.toUTF8) (behind : List UInt8) :
    readValue value.kind (octets value.encode ++ behind) = some (value.stored, behind) := by
  cases value with
  | integer width value => exact readValue_integer width value behind
  | pstring text => exact readValue_pstring text behind
  | cstring text => exact readValue_cstring (hzero text rfl) behind
  | data bytes => exact absurd rfl hdata

end FieldValue

/-- Writes what was found again as a value of the given kind. -/
def StoredValue.write : FieldKind → StoredValue → List UInt8
  | .integer width, integer value =>
    Word.big width.bytes (Word.complement width.bytes value)
  | .pstring, text bytes => Word.big 1 bytes.length ++ bytes
  | .cstring, text bytes => bytes ++ [0]
  | .data, data bytes => bytes
  | _, _ => []

/-- What is left of a value is all that was written of it. -/
theorem FieldValue.octets_encode_eq_write (value : FieldValue) :
    octets value.encode = StoredValue.write value.kind value.stored := by
  cases value with
  | integer width value =>
      have hlow : Word.complement width.bytes (value.toInt.bmod (Word.span width.bytes)) =
          Word.complement width.bytes value.toInt := by
        rw [Word.complement, Int.bmod_emod, Word.complement]
      rw [octets_encode_integer, stored, toInt_setWidth_eq, kind, StoredValue.write, hlow]
  | pstring text =>
      rw [octets_encode_pstring, counted, ← length_octets, octets_extract]
      rfl
  | cstring text => exact octets_encode_cstring text
  | data bytes => rfl

/-! ## All values of a record -/

theorem octets_foldl_encode (values : List FieldValue) (start : ByteArray) :
    octets (values.foldl (fun bytes value => bytes ++ value.encode) start) =
      octets start ++ values.flatMap fun value => octets value.encode := by
  induction values generalizing start with
  | nil => simp
  | cons value rest ih =>
      rw [List.foldl_cons, ih, octets_append, List.flatMap_cons, List.append_assoc]

theorem ResourceRecord.octets_payload (record : ResourceRecord) :
    octets record.payload = record.values.flatMap fun value => octets value.encode :=
  octets_foldl_encode record.values .empty

/-- The kinds of the values and what is left of them make up the payload. -/
theorem ResourceRecord.octets_payload_eq_write (record : ResourceRecord) :
    octets record.payload =
      (List.zipWith StoredValue.write (record.values.map (·.kind))
        (record.values.map (·.stored))).flatten := by
  simp only [octets_payload, FieldValue.octets_encode_eq_write, List.zipWith_map,
    List.zipWith_self, List.flatMap_def]

/-- Values that can be told apart are all found again, and nothing stands behind them. -/
theorem readValues_encode {values : List FieldValue} (h : Separable values) :
    readValues (values.map (·.kind)) (values.flatMap fun value => octets value.encode) =
      some (values.map (·.stored), []) := by
  induction values with
  | nil => rfl
  | cons value rest ih =>
      have hrest := ih h.tail
      rw [List.map_cons, List.map_cons, List.flatMap_cons, readValues]
      by_cases hdata : value.kind = .data
      · -- Data takes all that is left, so it has to be the last value.
        have hlast : rest = [] := by
          cases rest with
          | nil => rfl
          | cons next rest => exact absurd hdata (h.dataLast value List.mem_cons_self)
        subst hlast
        cases value with
        | data bytes => simp [readValue, readValues, FieldValue.kind, FieldValue.stored,
            FieldValue.encode]
        | _ => cases hdata
      · have hzero : ∀ text, value = .cstring text → 0 ∉ octets text.toUTF8 := by
          rintro text rfl
          exact h.noZero text List.mem_cons_self
        simp only [FieldValue.readValue_encode hdata hzero, hrest, Option.bind_eq_bind,
          Option.bind_some, Option.pure_def]

/-- A payload of values that can be told apart is read to its end by their kinds, and what is
found again of each value is what is left of it: of an integer that fits its width that is the
integer itself. So the payloads of two records with values of the same kinds are equal exactly
when the same is left of these. -/
theorem payload_reads_back (record : ResourceRecord) (h : Separable record.values) :
    readValues (record.values.map (·.kind)) (octets record.payload) =
        some (record.values.map (·.stored), []) ∧
      (∀ (width : IntegerWidth) (value : Int64),
        -(Word.span width.bytes : Int) ≤ 2 * value.toInt →
        2 * value.toInt < Word.span width.bytes →
        (FieldValue.integer width value).stored = .integer value.toInt) ∧
      ∀ other : ResourceRecord, Separable other.values →
        other.values.map (·.kind) = record.values.map (·.kind) →
        (other.payload = record.payload ↔
          other.values.map (·.stored) = record.values.map (·.stored)) := by
  have hread : ∀ record : ResourceRecord, Separable record.values →
      readValues (record.values.map (·.kind)) (octets record.payload) =
        some (record.values.map (·.stored), []) := by
    intro record h
    rw [record.octets_payload]
    exact readValues_encode h
  refine ⟨hread record h, ?_, ?_⟩
  · intro width value hlow hhigh
    exact FieldValue.stored_integer_of_fits hlow hhigh
  · intro other hother hkinds
    constructor
    · intro hpayload
      have hfirst := hread other hother
      rw [hkinds, hpayload, hread record h] at hfirst
      exact (Prod.mk.inj (Option.some.inj hfirst)).1.symm
    · intro hstored
      rw [← bytesOf_octets other.payload, ← bytesOf_octets record.payload,
        other.octets_payload_eq_write, record.octets_payload_eq_write, hkinds, hstored]

/-- A value of each kind. The second integer may be more than a byte can hold. -/
def mixedRecord (count : Int64) : ResourceRecord where
  code := ⟨'M', 'I', 'X', 'D', by decide⟩
  id := 128
  name := "Mixed"
  values := [.integer .word (-2), .integer .byte count, .pstring "Hé", .cstring "ok",
    .data (bytesOf [0, 1])]

theorem separable_mixedRecord (count : Int64) : Separable (mixedRecord count).values where
  noZero text htext := by
    have hok : text = "ok" := by simpa [mixedRecord] using htext
    rw [hok]
    decide
  dataLast value hvalue := by
    simp only [mixedRecord, List.dropLast, List.mem_cons, List.not_mem_nil, or_false] at hvalue
    rcases hvalue with rfl | rfl | rfl | rfl <;> simp [FieldValue.kind]

theorem payload_reads_back_mixedRecord :
    readValues [.integer .word, .integer .byte, .pstring, .cstring, .data]
        (octets (mixedRecord 300).payload) =
      some ([.integer (-2), .integer 44, .text [72, 195, 169], .text [111, 107], .data [0, 1]],
        []) ∧
      (mixedRecord 44).payload = (mixedRecord 300).payload := by
  obtain ⟨hread, -, hequal⟩ := payload_reads_back (mixedRecord 300) (separable_mixedRecord 300)
  exact ⟨hread, (hequal (mixedRecord 44) (separable_mixedRecord 44) rfl).mpr rfl⟩

end ResourceAssembler
