import ResourceAssembler.Proofs.TypeCode
import ResourceAssembler.Proofs.Word
import ResourceAssembler.Container.Name
import Mathlib.Data.Option.Basic

/-!
# Where bytes stand

A container is read by offsets. `Holds bytes offset block` says that a block stands at an offset,
and what a reader finds there follows from it. As a block that is put together from two stands at an
offset exactly when its parts stand one behind the other, a layout written out as one row of blocks
says where each of them is.
-/

namespace ResourceAssembler

/-- The bytes of an array in order. -/
def octets (bytes : ByteArray) : List UInt8 :=
  bytes.data.toList

@[simp] theorem octets_bytesOf (bytes : List UInt8) : octets (bytesOf bytes) = bytes := by
  simp [octets, bytesOf]

@[simp] theorem bytesOf_octets (bytes : ByteArray) : bytesOf (octets bytes) = bytes := by
  simp [octets, bytesOf]

@[simp] theorem octets_append (first second : ByteArray) :
    octets (first ++ second) = octets first ++ octets second := by
  simp [octets]

@[simp] theorem length_octets (bytes : ByteArray) : (octets bytes).length = bytes.size := by
  simp [octets]

@[simp] theorem size_bytesOf (bytes : List UInt8) : (bytesOf bytes).size = bytes.length := by
  rw [← length_octets, octets_bytesOf]

@[simp] theorem bytesOf_nil : bytesOf [] = .empty := rfl

/-- Arrays of bytes are joined as their rows of bytes are. -/
theorem bytesOf_append (first second : List UInt8) :
    bytesOf (first ++ second) = bytesOf first ++ bytesOf second := by
  rw [← bytesOf_octets (bytesOf first ++ bytesOf second), octets_append, octets_bytesOf,
    octets_bytesOf]

namespace Container

section Holds

variable {α : Type} {whole : List α} {offset : Nat}

/-- The block stands in the whole at the offset. -/
def Holds (whole : List α) (offset : Nat) (block : List α) : Prop :=
  ∃ front back, whole = front ++ block ++ back ∧ front.length = offset

theorem holds_self (whole : List α) : Holds whole 0 whole :=
  ⟨[], [], by simp, rfl⟩

/-- A joined block stands where its first part does, with the second part right behind. -/
theorem holds_append {first second : List α} :
    Holds whole offset (first ++ second) ↔
      Holds whole offset first ∧ Holds whole (offset + first.length) second := by
  constructor
  · rintro ⟨front, back, rfl, rfl⟩
    exact ⟨⟨front, second ++ back, by simp, rfl⟩, ⟨front ++ first, back, by simp, by simp⟩⟩
  · rintro ⟨⟨front, back, rfl, rfl⟩, front', back', hwhole, hlength⟩
    rw [List.append_assoc front' second back'] at hwhole
    obtain ⟨-, hback⟩ := List.append_inj hwhole (by simpa using hlength.symm)
    exact ⟨front, back', by simp [hback], rfl⟩

/-- What stands in a block stands in the whole as far behind the block's own offset. -/
theorem Holds.trans {block part : List α} {position : Nat} (h : Holds whole offset block)
    (hpart : Holds block position part) : Holds whole (offset + position) part := by
  obtain ⟨front, back, rfl, rfl⟩ := h
  obtain ⟨before, after, rfl, rfl⟩ := hpart
  exact ⟨front ++ before, after ++ back, by simp, by simp⟩

theorem Holds.le {block : List α} (h : Holds whole offset block) :
    offset + block.length ≤ whole.length := by
  obtain ⟨front, back, rfl, rfl⟩ := h
  simp only [List.length_append]
  omega

theorem Holds.getElem? {item : α} (h : Holds whole offset [item]) :
    whole[offset]? = some item := by
  obtain ⟨front, back, rfl, rfl⟩ := h
  simp

end Holds

/-- `length` bytes from `offset` on, if there are that many. -/
def slice? (bytes : List UInt8) (offset length : Nat) : Option (List UInt8) :=
  if offset + length ≤ bytes.length then some ((bytes.drop offset).take length) else none

theorem Holds.slice {bytes : List UInt8} {offset : Nat} {block : List UInt8}
    (h : Holds bytes offset block) : slice? bytes offset block.length = some block := by
  obtain ⟨front, back, rfl, rfl⟩ := h
  have hroom : front.length + block.length ≤ (front ++ block ++ back).length := by simp
  rw [slice?, if_pos hroom]
  simp [List.append_assoc]

/-- What is read in a block is read in the whole as far behind the block's own offset. -/
theorem Holds.slice_trans {bytes : List UInt8} {offset position length : Nat}
    {block part : List UInt8}
    (h : Holds bytes offset block) (hpart : slice? block position length = some part) :
    slice? bytes (offset + position) length = some part := by
  unfold slice? at hpart
  split at hpart
  case isFalse => cases hpart
  case isTrue hroom =>
    have hlength : part.length = length := by
      rw [← Option.some.inj hpart, List.length_take, List.length_drop]
      omega
    have hholds : Holds block position part := by
      refine ⟨block.take position, block.drop (position + length), ?_, ?_⟩
      · rw [← Option.some.inj hpart, ← List.drop_drop, List.append_assoc, List.take_append_drop,
          List.take_append_drop]
      · rw [List.length_take]
        omega
    rw [← hlength]
    exact (h.trans hholds).slice

/-- The number of `width` bytes at an offset, most significant byte first. -/
def big? (width : Nat) (bytes : List UInt8) (offset : Nat) : Option Nat :=
  (slice? bytes offset width).map Word.ofBig

/-- The number of `width` bytes at an offset, least significant byte first. -/
def little? (width : Nat) (bytes : List UInt8) (offset : Nat) : Option Nat :=
  (slice? bytes offset width).map Word.ofLittle

theorem Holds.big {bytes : List UInt8} {offset width n : Nat}
    (h : Holds bytes offset (Word.big width n)) (hn : n < Word.span width) :
    big? width bytes offset = some n := by
  have hs := h.slice
  rw [Word.length_big] at hs
  rw [big?, hs, Option.map_some, Word.ofBig_big_of_lt hn]

theorem Holds.little {bytes : List UInt8} {offset width n : Nat}
    (h : Holds bytes offset (Word.little width n)) (hn : n < Word.span width) :
    little? width bytes offset = some n := by
  have hs := h.slice
  rw [Word.length_little] at hs
  rw [little?, hs, Option.map_some, Word.ofLittle_little_of_lt hn]

/-- The type code at an offset. -/
def code? (bytes : List UInt8) (offset : Nat) : Option TypeCode :=
  (slice? bytes offset 4).bind TypeCode.ofBytes?

theorem Holds.code {bytes : List UInt8} {offset : Nat} {code : TypeCode}
    (h : Holds bytes offset code.bytes) : code? bytes offset = some code := by
  have hs := h.slice
  rw [TypeCode.length_bytes] at hs
  rw [code?, hs, Option.bind_some, TypeCode.ofBytes?_bytes]

/-- Bytes with their number in front. -/
def counted (width : Nat) (content : ByteArray) : List UInt8 :=
  Word.big width content.size ++ octets content

@[simp] theorem length_counted (width : Nat) (content : ByteArray) :
    (counted width content).length = width + content.size := by
  simp [counted]

/-- The bytes at an offset at which their number stands. -/
def counted? (width : Nat) (bytes : List UInt8) (offset : Nat) : Option ByteArray := do
  let length ← big? width bytes offset
  let content ← slice? bytes (offset + width) length
  return bytesOf content

theorem Holds.counted {bytes : List UInt8} {offset width : Nat} {content : ByteArray}
    (h : Holds bytes offset (counted width content)) (hn : content.size < Word.span width) :
    counted? width bytes offset = some content := by
  obtain ⟨hlength, hcontent⟩ := holds_append.mp h
  have hs := hcontent.slice
  rw [Word.length_big, length_octets] at hs
  simp [counted?, hlength.big hn, hs]

/-- The text at an offset at which the number of its bytes stands. -/
def text? (bytes : List UInt8) (offset : Nat) : Option String :=
  (counted? 1 bytes offset).bind String.fromUTF8?

theorem fromUTF8?_toUTF8 (text : String) : String.fromUTF8? text.toUTF8 = some text := by
  simp [String.fromUTF8?, text.isValidUTF8, String.fromUTF8]

theorem Holds.text {bytes : List UInt8} {offset : Nat} {text : String}
    (h : Holds bytes offset (Container.counted 1 text.toUTF8)) (hn : text.toUTF8.size ≤ 255) :
    text? bytes offset = some text := by
  have hcounted := Holds.counted h (by simp only [Word.span]; omega)
  rw [text?, hcounted, Option.bind_some, fromUTF8?_toUTF8]

/-- A name of at most 255 bytes is written as a counted text. -/
theorem countedName_eq_ok_iff {code : TypeCode} {resource : Resource} {name : ByteArray} :
    countedName code resource = .ok name ↔
      resource.name.toUTF8.size ≤ 255 ∧ name = bytesOf (counted 1 resource.name.toUTF8) := by
  have hbytes : bytesOf [UInt8.ofNat resource.name.toUTF8.size] ++ resource.name.toUTF8 =
      bytesOf (counted 1 resource.name.toUTF8) := by
    rw [counted, bytesOf_append, bytesOf_octets]
    rfl
  simp only [countedName, hbytes]
  by_cases h : resource.name.toUTF8.size ≤ 255
  · rw [if_pos h]
    exact ⟨fun hok => ⟨h, (Except.ok.inj hok).symm⟩, fun hok => congrArg _ hok.2.symm⟩
  · rw [if_neg h]
    exact ⟨fun hok => (nomatch hok), fun hok => absurd hok.1 h⟩

section Rows

variable {α β : Type}

/-- Reads `count` items that stand `step` bytes apart. -/
def readRow (read : Nat → Option α) (step : Nat) : (count offset : Nat) → Option (List α)
  | 0, _ => some []
  | count + 1, offset => do
    let item ← read offset
    let rest ← readRow read step count (offset + step)
    return item :: rest

/-- Reads `count` items that stand one behind the other. Each of them says where it ends. -/
def readRun (read : Nat → Option (α × Nat)) : (count offset : Nat) → Option (List α × Nat)
  | 0, offset => some ([], offset)
  | count + 1, offset => do
    let (item, next) ← read offset
    let (rest, stop) ← readRun read count next
    return (item :: rest, stop)

/-- A row made of items, each with the weight of all items before it counted from `n` on. -/
def numbered (weight : α → Nat) (f : Nat → α → β) : (n : Nat) → List α → List β
  | _, [] => []
  | n, item :: rest => f n item :: numbered weight f (n + weight item) rest

/-- The weight of all items of a row. -/
def total (weight : α → Nat) : List α → Nat
  | [] => 0
  | item :: rest => weight item + total weight rest

theorem total_const (n : Nat) (items : List α) : total (fun _ => n) items = n * items.length := by
  induction items with
  | nil => rfl
  | cons item rest ih =>
      rw [total, ih, List.length_cons, Nat.mul_succ, Nat.add_comm]

theorem total_add (weight other : α → Nat) (items : List α) :
    total (fun item => weight item + other item) items =
      total weight items + total other items := by
  induction items with
  | nil => rfl
  | cons item rest ih =>
      simp only [total, ih]
      omega

theorem total_mul (n : Nat) (weight : α → Nat) (items : List α) :
    total (fun item => n * weight item) items = n * total weight items := by
  induction items with
  | nil => rfl
  | cons item rest ih => rw [total, ih, total, Nat.mul_add]

theorem total_append (weight : α → Nat) (first second : List α) :
    total weight (first ++ second) = total weight first + total weight second := by
  induction first with
  | nil => simp [total]
  | cons item rest ih =>
      rw [List.cons_append, total, ih, total, Nat.add_assoc]

theorem total_flatMap (weight : β → Nat) (part : α → List β) (items : List α) :
    total weight (items.flatMap part) = total (fun item => total weight (part item)) items := by
  induction items with
  | nil => rfl
  | cons item rest ih =>
      rw [List.flatMap_cons, total_append, ih, total]

theorem total_map (weight : β → Nat) (f : α → β) (items : List α) :
    total weight (items.map f) = total (fun item => weight (f item)) items := by
  induction items with
  | nil => rfl
  | cons item rest ih =>
      rw [List.map_cons, total, ih, total]

theorem total_filter (weight : α → Nat) (keep : α → Bool) (items : List α) :
    total weight (items.filter keep) =
      total (fun item => if keep item then weight item else 0) items := by
  induction items with
  | nil => rfl
  | cons item rest ih =>
      by_cases h : keep item
      · rw [List.filter_cons_of_pos h, total, ih, total, if_pos h]
      · rw [List.filter_cons_of_neg h, ih, total, if_neg h, Nat.zero_add]

theorem total_mono {weight other : α → Nat} (h : ∀ item, weight item ≤ other item)
    (items : List α) : total weight items ≤ total other items := by
  induction items with
  | nil => exact Nat.le_refl 0
  | cons item rest ih => exact Nat.add_le_add (h item) ih

/-- No item weighs more than all items together. -/
theorem le_total_of_mem (weight : α → Nat) {items : List α} {item : α} (h : item ∈ items) :
    weight item ≤ total weight items := by
  obtain ⟨before, after, rfl⟩ := List.append_of_mem h
  rw [total_append, total]
  omega

theorem total_length (part : α → List β) (items : List α) :
    total (fun item => (part item).length) items = (items.flatMap part).length := by
  induction items with
  | nil => rfl
  | cons item rest ih =>
      rw [total, ih, List.flatMap_cons, List.length_append]

variable {weight : α → Nat} {block : Nat → α → List UInt8} {value : Nat → α → β}
  {bytes : List UInt8} {read : Nat → Option (β × Nat)}

/-- Later items of a row count from behind the weight of earlier ones. -/
theorem numbered_append (weight : α → Nat) (f : Nat → α → β) (n : Nat) (first second : List α) :
    numbered weight f n (first ++ second) =
      numbered weight f n first ++ numbered weight f (n + total weight first) second := by
  induction first generalizing n with
  | nil => rfl
  | cons item rest ih =>
      rw [List.cons_append, numbered, ih, numbered, total, List.cons_append, Nat.add_assoc]

/-- A row of items that do not look at their numbers is the row of the items. -/
theorem numbered_const (weight : α → Nat) (f : α → β) (n : Nat) (items : List α) :
    numbered weight (fun _ => f) n items = items.map f := by
  induction items generalizing n with
  | nil => rfl
  | cons item rest ih => rw [numbered, ih, List.map_cons]

/-- Blocks whose lengths do not depend on their numbers take up these lengths. -/
theorem length_flatten_numbered {length : α → Nat}
    (hlength : ∀ n item, (block n item).length = length item) (n : Nat) (items : List α) :
    (numbered weight block n items).flatten.length = total length items := by
  induction items generalizing n with
  | nil => rfl
  | cons item rest ih =>
      rw [numbered, List.flatten_cons, List.length_append, hlength, ih, total]

/-- A reader that understands every block of a numbered row reads the whole row. Its blocks may ask
of their numbers that these stay below a limit. -/
theorem readRun_numbered (property : α → Prop) (limit : Nat)
    (hread : ∀ n item offset, property item → n + weight item ≤ limit →
      Holds bytes offset (block n item) →
      read offset = some (value n item, offset + (block n item).length))
    {items : List α} {n offset : Nat} (hitems : ∀ item ∈ items, property item)
    (hlimit : n + total weight items ≤ limit)
    (h : Holds bytes offset (numbered weight block n items).flatten) :
    readRun read items.length offset = some (numbered weight value n items,
      offset + (numbered weight block n items).flatten.length) := by
  induction items generalizing n offset with
  | nil => rfl
  | cons item rest ih =>
      rw [numbered, List.flatten_cons, holds_append] at h
      rw [total] at hlimit
      obtain ⟨hitem, hrest⟩ := List.forall_mem_cons.mp hitems
      have hfirst := hread n item offset hitem (by omega) h.1
      have htail := ih hrest (by omega) h.2
      simp [readRun, numbered, hfirst, htail, Nat.add_assoc]

end Rows

end Container

end ResourceAssembler
