import Mathlib.Data.List.Basic
import Mathlib.Tactic.Ring
import ResourceAssembler.Json.Form
import ResourceAssembler.Proofs.Container.Placement

/-!
# Type codes as text, bytes and numbers

A code is written as a text of four ASCII characters, as four bytes below 128 and as a number of 32
bits. Each of the three tells the code, and codes come in the same order as bytes and as numbers.
-/

namespace ResourceAssembler

open Container

/-! ## Numbers of rows of bytes -/

namespace Word

theorem ofLittle_append (low high : List UInt8) :
    ofLittle (low ++ high) = ofLittle low + span low.length * ofLittle high := by
  induction low with
  | nil => simp [ofLittle, span]
  | cons byte rest ih =>
      rw [List.cons_append, ofLittle, ih, ofLittle, List.length_cons, span]
      ring

theorem ofLittle_lt (bytes : List UInt8) : ofLittle bytes < span bytes.length := by
  induction bytes with
  | nil => exact Nat.one_pos
  | cons byte rest ih =>
      have hbyte : byte.toNat < 256 := byte.toNat_lt
      rw [ofLittle, List.length_cons, span]
      omega

theorem ofBig_cons (byte : UInt8) (rest : List UInt8) :
    ofBig (byte :: rest) = ofBig rest + span rest.length * byte.toNat := by
  rw [ofBig, List.reverse_cons, ofLittle_append, List.length_reverse]
  rfl

theorem ofBig_lt (bytes : List UInt8) : ofBig bytes < span bytes.length := by
  have hlt := ofLittle_lt bytes.reverse
  rwa [List.length_reverse] at hlt

/-- The number of a row of bytes is written as that row. -/
theorem little_ofLittle (bytes : List UInt8) : little bytes.length (ofLittle bytes) = bytes := by
  induction bytes with
  | nil => rfl
  | cons byte rest ih =>
      have hbyte : byte.toNat < 256 := byte.toNat_lt
      have hrest : (byte.toNat + 256 * ofLittle rest) / 256 = ofLittle rest := by omega
      have hfirst : UInt8.ofNat (byte.toNat + 256 * ofLittle rest) = byte := by
        apply UInt8.toNat.inj
        rw [UInt8.toNat_ofNat']
        omega
      rw [List.length_cons, ofLittle, little, hrest, ih, hfirst]

theorem big_ofBig (bytes : List UInt8) : big bytes.length (ofBig bytes) = bytes := by
  have hreverse := little_ofLittle bytes.reverse
  rw [List.length_reverse] at hreverse
  rw [big, ofBig, hreverse, List.reverse_reverse]

/-- Rows of the same length come in the order of their numbers. -/
theorem lt_iff_ofBig_lt {first second : List UInt8} (h : first.length = second.length) :
    first < second ↔ ofBig first < ofBig second := by
  induction first generalizing second with
  | nil =>
      obtain rfl : second = [] := List.length_eq_zero_iff.mp h.symm
      simp
  | cons byte rest ih =>
      cases second with
      | nil => cases h
      | cons other others =>
          have hlength : rest.length = others.length := Nat.succ.inj h
          have hrest := ofBig_lt rest
          have hothers := ofBig_lt others
          rw [List.cons_lt_cons_iff, ih hlength, ofBig_cons, ofBig_cons, ← hlength]
          rw [← hlength] at hothers
          -- The first byte counts for more than all that stands behind it.
          obtain hless | heq | hgreater := Nat.lt_trichotomy byte.toNat other.toNat
          · have hstep := Nat.mul_le_mul_left (span rest.length) hless
            rw [Nat.mul_succ] at hstep
            exact iff_of_true (.inl hless) (by omega)
          · obtain rfl : byte = other := UInt8.toNat.inj heq
            simp
          · have hstep := Nat.mul_le_mul_left (span rest.length) hgreater
            rw [Nat.mul_succ] at hstep
            refine iff_of_false ?_ (by omega)
            rintro (hless | ⟨rfl, -⟩)
            · exact absurd (UInt8.lt_iff_toNat_lt.mp hless) (Nat.lt_asymm hgreater)
            · exact absurd hgreater (Nat.lt_irrefl _)

end Word

/-! ## Texts of single bytes -/

/-- Of a text of ASCII characters each character is a byte. -/
theorem octets_toUTF8_of_ascii {text : String} (h : ∀ c ∈ text.toList, c.toNat < 128) :
    octets text.toUTF8 = text.toList.map Char.toUInt8 := by
  have hencoded : octets text.toUTF8 = text.toList.flatMap String.utf8EncodeChar := by
    rw [octets, String.toUTF8, ← String.utf8Encode_toList, List.utf8Encode, List.data_toByteArray]
  rw [hencoded, List.map_eq_flatMap, List.flatMap_def, List.flatMap_def]
  refine congrArg List.flatten (List.map_congr_left fun c hc => ?_)
  have hsize : c.utf8Size = 1 :=
    Char.utf8Size_eq_one_iff.mpr (UInt32.le_iff_toNat_le.mpr (Nat.le_of_lt_succ (h c hc)))
  exact String.utf8EncodeChar_eq_singleton hsize

/-- Its length is the same in characters and in bytes. -/
theorem utf8ByteSize_of_ascii {text : String} (h : ∀ c ∈ text.toList, c.toNat < 128) :
    text.utf8ByteSize = text.toList.length := by
  have hlength := congrArg List.length (octets_toUTF8_of_ascii h)
  rwa [length_octets, List.length_map] at hlength

namespace TypeCode

/-- The text that bytes show: what they encode, or a row of question
marks if they encode nothing. -/
def shown (bytes : List UInt8) : String :=
  (String.fromUTF8? (bytesOf bytes)).getD "????"

/-- What is written of a code that was read from a text. -/
structure Spells (code : TypeCode) (written : String) : Prop where
  text : code.text = written
  json : code.toJson = .text written
  bytes : octets written.toUTF8 = code.bytes
  decoded : String.fromUTF8? (bytesOf code.bytes) = some written
  shown : shown code.bytes = written

theorem ascii_text (code : TypeCode) : ∀ c ∈ code.text.toList, c.toNat < 128 := by
  obtain ⟨a, b, c, d, hascii⟩ := code
  simpa [text, chars] using hascii

theorem octets_toUTF8_text (code : TypeCode) : octets code.text.toUTF8 = code.bytes := by
  rw [octets_toUTF8_of_ascii code.ascii_text, text, String.toList_ofList, bytes]

theorem spells_text (code : TypeCode) : code.Spells code.text where
  text := rfl
  json := rfl
  bytes := code.octets_toUTF8_text
  decoded := by rw [← octets_toUTF8_text, bytesOf_octets, fromUTF8?_toUTF8]
  shown := by rw [shown, ← octets_toUTF8_text, bytesOf_octets, fromUTF8?_toUTF8, Option.getD_some]

theorem bytes_lt (code : TypeCode) : ∀ byte ∈ code.bytes, byte < 128 := by
  intro byte hbyte
  obtain ⟨c, hc, rfl⟩ := List.mem_map.mp hbyte
  have hascii : c.val.toNat < 128 := code.ascii_text c (by rwa [text, String.toList_ofList])
  apply UInt8.lt_iff_toNat_lt.mpr
  rw [Char.toUInt8, UInt32.toNat_toUInt8]
  exact Nat.lt_of_le_of_lt (Nat.mod_le _ _) hascii

/-- The texts of codes are the texts of four ASCII characters. -/
theorem exists_text_eq_iff {written : String} :
    (∃ code : TypeCode, code.text = written) ↔
      written.toList.length = 4 ∧ ∀ c ∈ written.toList, c.toNat < 128 := by
  constructor
  · rintro ⟨code, rfl⟩
    exact ⟨by simp [text, chars], code.ascii_text⟩
  · rintro ⟨hlength, hascii⟩
    obtain ⟨a, b, c, d, hchars⟩ := List.length_eq_four.mp hlength
    rw [hchars] at hascii
    refine ⟨⟨a, b, c, d, by simpa using hascii⟩, ?_⟩
    apply String.toList_inj.mp
    rw [hchars, text, String.toList_ofList, chars]

/-- The number of a code is that of its bytes. -/
theorem toNat_eq_ofBig (code : TypeCode) : code.toNat = Word.ofBig code.bytes := by
  obtain ⟨a, b, c, d, -⟩ := code
  simp only [toNat, bytes, chars, List.map_cons, List.map_nil, List.foldl_cons, List.foldl_nil,
    Word.ofBig_cons, Word.span, List.length_cons, List.length_nil]
  have hnil : Word.ofBig [] = 0 := rfl
  omega

theorem big_toNat (code : TypeCode) : Word.big 4 code.toNat = code.bytes := by
  have hbytes := Word.big_ofBig code.bytes
  rwa [length_bytes, ← toNat_eq_ofBig] at hbytes

/-- A code is found again in its bytes. -/
theorem bytes_injective : Function.Injective bytes := by
  intro first second h
  have hfirst := ofBytes?_bytes first
  rw [h, ofBytes?_bytes] at hfirst
  exact (Option.some.inj hfirst).symm

theorem lt_iff_toNat_lt {first second : TypeCode} :
    first < second ↔ first.toNat < second.toNat := by
  rw [toNat_eq_ofBig, toNat_eq_ofBig]
  exact Word.lt_iff_ofBig_lt (first.length_bytes.trans second.length_bytes.symm)

theorem toNat_injective : Function.Injective toNat := by
  intro first second h
  apply bytes_injective
  rw [← big_toNat, h, big_toNat]

theorem ofJson?_eq_some_iff {json : Json} {code : TypeCode} :
    ofJson? json = some code ↔ json = .text code.text := by
  unfold ofJson?
  cases json with
  | text written =>
      rw [Json.text?, Option.bind_some, ofString?_eq_some_iff, Json.text.injEq, eq_comm]
  | _ => simp [Json.text?]

/-- Reading a type code, from every text and from every JSON value. A text is read exactly if it has
four characters that are all ASCII, or, what comes to the same, four bytes of ASCII characters; any
other text is refused. A code that is read from a text or a JSON text shows that text again, as
text, in JSON and by decoding its bytes, so that nothing else is ever shown in its place. The number
of a code takes 32 bits, which are written as the bytes of the code, so that it tells the code, and
codes are ordered by their numbers. -/
theorem text_bytes_number_agree :
    (∀ written : String,
      ((∃ code, ofString written = .ok code) ↔
        written.toList.length = 4 ∧ ∀ c ∈ written.toList, c.toNat < 128) ∧
      ((∃ code, ofString written = .ok code) ↔
        written.utf8ByteSize = 4 ∧ ∀ c ∈ written.toList, c.toNat < 128) ∧
      (ofString written = .error (.invalidTypeCode written) ↔
        ¬∃ code, ofString written = .ok code)) ∧
    (∀ written code, ofString written = .ok code → code.Spells written) ∧
    (∀ json code, ofJson? json = some code →
      ∃ written, json = .text written ∧ ofString written = .ok code ∧ code.Spells written) ∧
    ∀ first second : TypeCode,
      (first < second ↔ first.toNat < second.toNat) ∧
      (first.toNat = second.toNat ↔ first = second) ∧
      first.toNat < Word.span 4 ∧ Word.big 4 first.toNat = first.bytes := by
  have hspells : ∀ written code, ofString written = .ok code → code.Spells written := by
    intro written code h
    obtain rfl := ofString_eq_ok_iff.mp h
    exact code.spells_text
  refine ⟨?texts, hspells, ?jsons, ?numbers⟩
  case texts =>
    intro written
    have hread : (∃ code, ofString written = .ok code) ↔
        written.toList.length = 4 ∧ ∀ c ∈ written.toList, c.toNat < 128 := by
      simp only [ofString_eq_ok_iff]
      exact exists_text_eq_iff
    refine ⟨hread, ?_, ?_⟩
    · rw [hread]
      refine and_congr_left fun hascii => ?_
      rw [utf8ByteSize_of_ascii hascii]
    · simp [ofString_eq_error_iff, ofString_eq_ok_iff]
  case jsons =>
    intro json code h
    have hwritten : ofString code.text = .ok code := ofString_eq_ok_iff.mpr rfl
    exact ⟨code.text, ofJson?_eq_some_iff.mp h, hwritten, hspells _ _ hwritten⟩
  case numbers =>
    intro first second
    refine ⟨lt_iff_toNat_lt, toNat_injective.eq_iff, ?_, first.big_toNat⟩
    rw [toNat_eq_ofBig, ← first.length_bytes]
    exact Word.ofBig_lt first.bytes

/-- Two codes, one read from a text and one from a JSON text, in the order of their bytes. -/
theorem text_bytes_number_agree_icon_picture :
    let icon : TypeCode := ⟨'I', 'C', 'O', 'N', by decide⟩
    let picture : TypeCode := ⟨'P', 'I', 'C', 'T', by decide⟩
    ofString "ICON" = .ok icon ∧ icon.Spells "ICON" ∧
      ofJson? (.text "PICT") = some picture ∧ picture.Spells "PICT" ∧
      icon < picture ∧ icon.toNat < picture.toNat := by
  intro icon picture
  obtain ⟨-, htexts, hjsons, hnumbers⟩ := text_bytes_number_agree
  have hicon : ofString "ICON" = .ok icon := by rfl
  have hpicture : ofJson? (.text "PICT") = some picture := by rfl
  obtain ⟨written, hjson, -, hspells⟩ := hjsons _ picture hpicture
  obtain rfl := Json.text.inj hjson
  have horder : icon.toNat < picture.toNat := by decide
  have hless : icon < picture := (hnumbers icon picture).1.mpr horder
  exact ⟨hicon, htexts _ icon hicon, hpicture, hspells, hless, horder⟩

/-- Neither four bytes nor four characters are enough. -/
example : "abé".utf8ByteSize = 4 ∧ ofString? "abé" = none ∧ ofString? "abcé" = none := by decide

end TypeCode

end ResourceAssembler
