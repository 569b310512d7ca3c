import ResourceAssembler.Word

/-!
# Signed words

A two's complement is read back as the integer it came from, provided that the integer lies in the
half-open range of its width.
-/

namespace ResourceAssembler.Word

/-- The integer whose two's complement on `width` bytes is `n`. -/
def signed (width n : Nat) : Int :=
  if 2 * n < span width then n else n - span width

theorem span_pos (width : Nat) : 0 < span width := by
  induction width with
  | zero => simp [span]
  | succ width ih => simp only [span]; omega

theorem complement_lt_span (width : Nat) (i : Int) : complement width i < span width := by
  have hpos := span_pos width
  have hlt : i % (span width : Int) < span width := Int.emod_lt_of_pos i (by omega)
  have hnonneg : 0 ≤ i % (span width : Int) := Int.emod_nonneg i (by omega)
  rw [complement]
  omega

/-- Nothing is lost of an integer that fits the width. -/
theorem signed_complement {width : Nat} {i : Int} (hlow : -(span width : Int) ≤ 2 * i)
    (hhigh : 2 * i < span width) : signed width (complement width i) = i := by
  have hpos := span_pos width
  by_cases h : 0 ≤ i
  · have hmod : i % (span width : Int) = i := Int.emod_eq_of_lt h (by omega)
    rw [complement, hmod, signed, if_pos (by omega)]
    omega
  · have hmod : i % (span width : Int) = i + span width := by
      rw [← Int.add_emod_right]
      exact Int.emod_eq_of_lt (by omega) (by omega)
    rw [complement, hmod, signed, if_neg (by omega)]
    omega

/-- What is read back of an integer is the number in the range of the width that differs from it by
a multiple of the number of words. -/
theorem signed_complement_eq_bmod (width : Nat) (i : Int) :
    signed width (complement width i) = i.bmod (span width) := by
  have hpos := span_pos width
  have hnonneg : 0 ≤ i % (span width : Int) := Int.emod_nonneg i (by omega)
  rw [signed, complement, Int.bmod]
  split <;> split <;> omega

/-- The low bytes of a word are those of its number modulo the number of shorter words. -/
theorem little_mod_span (width n : Nat) : little width (n % span width) = little width n := by
  induction width generalizing n with
  | zero => rfl
  | succ width ih =>
      have hbyte : UInt8.ofNat (n % (256 * span width)) = UInt8.ofNat n := by
        apply UInt8.toNat.inj
        rw [UInt8.toNat_ofNat', UInt8.toNat_ofNat']
        exact Nat.mod_mul_right_mod n 256 (span width)
      rw [span, little, little, hbyte, Nat.mod_mul_right_div_self, ih]

theorem big_mod_span (width n : Nat) : big width (n % span width) = big width n := by
  rw [big, little_mod_span, big]

/-- A word is read back as the number it was written for if the number fits the width. -/
theorem ofBig_big_of_lt {width n : Nat} (h : n < span width) : ofBig (big width n) = n := by
  rw [ofBig_big, Nat.mod_eq_of_lt h]

theorem ofLittle_little_of_lt {width n : Nat} (h : n < span width) :
    ofLittle (little width n) = n := by
  rw [ofLittle_little, Nat.mod_eq_of_lt h]

end ResourceAssembler.Word
