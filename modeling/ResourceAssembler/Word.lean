/-!
# Fixed-width words as bytes

Numbers are cut to the width asked for: a word of `width` bytes holds its number
modulo the number of such words.
-/

namespace ResourceAssembler

/-- The bytes of a list. -/
def bytesOf (bytes : List UInt8) : ByteArray :=
  ⟨bytes.toArray⟩

namespace Word

/-- How many words of `width` bytes there are. -/
def span : (width : Nat) → Nat
  | 0 => 1
  | width + 1 => 256 * span width

/-- The low `width` bytes of `n`, least significant first. -/
def little : (width : Nat) → (n : Nat) → List UInt8
  | 0, _ => []
  | width + 1, n => UInt8.ofNat n :: little width (n / 256)

/-- The low `width` bytes of `n`, most significant first. -/
def big (width n : Nat) : List UInt8 :=
  (little width n).reverse

/-- The number that bytes stand for, least significant first. -/
def ofLittle : List UInt8 → Nat
  | [] => 0
  | b :: rest => b.toNat + 256 * ofLittle rest

/-- The number that bytes stand for, most significant first. -/
def ofBig (bytes : List UInt8) : Nat :=
  ofLittle bytes.reverse

/-- The two's complement of `i` on `width` bytes, as a natural number. -/
def complement (width : Nat) (i : Int) : Nat :=
  (i % (span width : Int)).toNat

@[simp] theorem length_little (width n : Nat) : (little width n).length = width := by
  induction width generalizing n with
  | zero => rfl
  | succ width ih => simp [little, ih]

@[simp] theorem length_big (width n : Nat) : (big width n).length = width := by
  simp [big]

theorem ofLittle_little (width n : Nat) : ofLittle (little width n) = n % span width := by
  induction width generalizing n with
  | zero => simp [little, ofLittle, span, Nat.mod_one]
  | succ width ih =>
    rw [little, ofLittle, ih, span, Nat.mod_mul]
    simp

theorem ofBig_big (width n : Nat) : ofBig (big width n) = n % span width := by
  simp [ofBig, big, ofLittle_little]

end Word

end ResourceAssembler
