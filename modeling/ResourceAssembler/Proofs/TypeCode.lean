import ResourceAssembler.TypeCode

/-!
# Type codes in bytes and text

A code is read back from its text and from its four bytes.
-/

namespace ResourceAssembler.TypeCode

/-- Reads a code from four ASCII bytes. -/
def ofBytes? (bytes : List UInt8) : Option TypeCode :=
  ofString? (String.ofList (bytes.map Char.ofUInt8))

@[simp] theorem length_bytes (code : TypeCode) : code.bytes.length = 4 := by
  simp [bytes, chars]

/-- A code is the only reading of its own text. -/
theorem ofString?_text (code : TypeCode) : ofString? code.text = some code := by
  simp [ofString?, text, chars, code.isAscii]

/-- Every text that is read as a code is the code's own. -/
theorem ofString?_eq_some_iff {written : String} {code : TypeCode} :
    ofString? written = some code ↔ code.text = written := by
  constructor
  · intro h
    unfold ofString? at h
    split at h
    case h_1 a b c d hwritten =>
      split at h
      · cases h
        apply String.toList_inj.mp
        rw [hwritten, text, String.toList_ofList]
        rfl
      · cases h
    case h_2 => cases h
  · rintro rfl
    exact ofString?_text code

theorem ofString_eq_ok_iff {written : String} {code : TypeCode} :
    ofString written = .ok code ↔ code.text = written := by
  rw [← ofString?_eq_some_iff, ofString]
  cases ofString? written with
  | none => simp
  | some found => simp

/-- A text is refused exactly when it is the text of no code. -/
theorem ofString_eq_error_iff {written : String} {error : DefinitionError} :
    ofString written = .error error ↔
      (∀ code : TypeCode, code.text ≠ written) ∧ error = .invalidTypeCode written := by
  rw [ofString]
  cases hfound : ofString? written with
  | none =>
      have hnone : ∀ code : TypeCode, code.text ≠ written := by
        intro code hcode
        rw [ofString?_eq_some_iff.mpr hcode] at hfound
        cases hfound
      simp [hnone, eq_comm]
  | some found =>
      have hcode : found.text = written := ofString?_eq_some_iff.mp hfound
      constructor
      · intro h
        cases h
      · exact fun h => absurd hcode (h.1 found)

/-- An ASCII character takes a single byte and is found again in it. -/
theorem ofUInt8_toUInt8 {c : Char} (h : c.toNat < 128) : Char.ofUInt8 c.toUInt8 = c := by
  have hval : c.val.toNat < 128 := h
  have hbyte : (Char.ofUInt8 c.toUInt8).val = c.val.toUInt8.toUInt32 := rfl
  apply Char.ext
  apply UInt32.toNat.inj
  rw [hbyte, UInt8.toNat_toUInt32, UInt32.toNat_toUInt8]
  omega

theorem map_ofUInt8_bytes (code : TypeCode) : code.bytes.map Char.ofUInt8 = code.chars := by
  obtain ⟨a, b, c, d, ha, hb, hc, hd⟩ := code
  simp only [bytes, chars, List.map_cons, List.map_nil, ofUInt8_toUInt8 ha, ofUInt8_toUInt8 hb,
    ofUInt8_toUInt8 hc, ofUInt8_toUInt8 hd]

theorem ofBytes?_bytes (code : TypeCode) : ofBytes? code.bytes = some code := by
  rw [ofBytes?, map_ofUInt8_bytes]
  exact ofString?_text code

end ResourceAssembler.TypeCode
