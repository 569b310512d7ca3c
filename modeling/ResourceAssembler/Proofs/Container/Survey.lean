import ResourceAssembler.Proofs.Container.Fork
import ResourceAssembler.Proofs.Container.Region

/-!
# Surveying a fork

A survey of a fork writes down which region of it every offset, length and count that it
states leads to. It goes by the numbers in the fork alone. The classic fork and the extended
one state the same things with numbers of different widths, so that one survey serves both,
given the form of the numbers.

In a fork that was written the regions tile it: the header, zeros, the data, and the map with its
own header, the type list, the references and the names.
-/

namespace ResourceAssembler.Container.Survey

open Fork

/-- How a fork states its numbers. -/
structure Form where
  /-- Where the four words of the header are. -/
  wordsAt : Nat
  /-- The width of these words, and of the length in front of data. -/
  word : Nat
  /-- Where the map states the offsets of its two lists. -/
  listsAt : Nat
  /-- The width of ids, counts and offsets in the map. -/
  field : Nat
  /-- The width of the offset of data. -/
  place : Nat
  /-- The number of bytes of a reference behind the offset of its data. -/
  spare : Nat
  /-- The number that is stored for a count. -/
  stored : Nat → Nat
  /-- The count that a number is stored for. -/
  count : Nat → Nat
  /-- Whether the offsets of references count from the type list, and not from the map. -/
  fromTypeList : Bool

/-- The bytes of zeros and header in front of the data. -/
def headerArea : Nat := 256

namespace Form

variable (form : Form)

def headerLength : Nat :=
  form.wordsAt + 4 * form.word

def mapHeader : Nat :=
  form.listsAt + form.field + form.field

def entryLength : Nat :=
  4 + 2 * form.field

def referenceLength : Nat :=
  2 * form.field + 1 + form.place + form.spare

/-- The name offset of a resource without a name. -/
def absent : Nat :=
  Word.span form.field - 1

/-- Where in the map the offsets of references count from. -/
def origin (typeList : Nat) : Nat :=
  if form.fromTypeList then typeList else 0

end Form

/-- Where the offsets in a fork count from. -/
structure Origins where
  references : Nat
  data : Nat
  names : Nat

/-- What a reference leads to. -/
structure Slot where
  block : Region
  text : Option Region
deriving DecidableEq, Repr

/-- What an entry of the type list leads to. -/
structure Entry where
  code : TypeCode
  references : Region
  slots : List Slot
deriving DecidableEq, Repr

/-- The regions of a fork. -/
structure Plan where
  header : Region
  padding : Region
  data : Region
  map : Region
  mapHeader : Region
  typeList : Region
  entries : List Entry
  names : Region
deriving DecidableEq, Repr

namespace Plan

variable (plan : Plan)

/-- The lists of references, in the order of the type list. -/
def references : List Region :=
  plan.entries.map (·.references)

/-- What the references lead to, in their order. -/
def slots : List Slot :=
  plan.entries.flatMap (·.slots)

def blocks : List Region :=
  plan.slots.map (·.block)

def texts : List Region :=
  plan.slots.filterMap (·.text)

/-- All regions that have no parts of their own. -/
def regions : List Region :=
  [plan.header, plan.padding] ++ plan.blocks ++
    ([plan.mapHeader, plan.typeList] ++ plan.references ++ plan.texts)

end Plan

/-! ## The survey -/

/-- The block at an offset, with the length of `width` bytes in front of it. -/
def block? (width : Nat) (bytes : List UInt8) (offset : Nat) : Option Region := do
  let length ← big? width bytes offset
  return ⟨offset, offset + (width + length)⟩

namespace Form

variable (form : Form) (bytes : List UInt8) (origins : Origins)

/-- What the reference at an offset leads to. -/
def slot? (offset : Nat) : Option Slot := do
  let nameOffset ← big? form.field bytes (offset + form.field)
  let dataOffset ← big? form.place bytes (offset + (2 * form.field + 1))
  let block ← block? form.word bytes (origins.data + dataOffset)
  if nameOffset = form.absent then return ⟨block, none⟩
  let text ← block? 1 bytes (origins.names + nameOffset)
  return ⟨block, some text⟩

/-- What the entry of the type list at an offset leads to. -/
def listing? (offset : Nat) : Option Entry := do
  let code ← code? bytes offset
  let count ← big? form.field bytes (offset + 4)
  let references ← big? form.field bytes (offset + (4 + form.field))
  let start := origins.references + references
  let slots ← readRow (form.slot? bytes origins) form.referenceLength (form.count count) start
  return ⟨code, ⟨start, start + form.referenceLength * form.count count⟩, slots⟩

/-- The regions of a fork. -/
def plan? : Option Plan := do
  let dataAt ← big? form.word bytes form.wordsAt
  let mapAt ← big? form.word bytes (form.wordsAt + form.word)
  let dataLength ← big? form.word bytes (form.wordsAt + 2 * form.word)
  let mapLength ← big? form.word bytes (form.wordsAt + 3 * form.word)
  let typeList ← big? form.field bytes (mapAt + form.listsAt)
  let nameList ← big? form.field bytes (mapAt + (form.listsAt + form.field))
  let count ← big? form.field bytes (mapAt + typeList)
  let origins := ⟨mapAt + form.origin typeList, dataAt, mapAt + nameList⟩
  let entries ← readRow (form.listing? bytes origins) form.entryLength (form.count count)
    (mapAt + typeList + form.field)
  return {
    header := ⟨0, form.headerLength⟩
    padding := ⟨form.headerLength, dataAt⟩
    data := ⟨dataAt, dataAt + dataLength⟩
    map := ⟨mapAt, mapAt + mapLength⟩
    mapHeader := ⟨mapAt, mapAt + typeList⟩
    typeList := ⟨mapAt + typeList,
      mapAt + typeList + (form.field + form.entryLength * form.count count)⟩
    entries
    names := ⟨mapAt + nameList, mapAt + mapLength⟩ }

end Form

/-! ## What a survey finds

Every offset that is written is where the part in question begins, so a survey finds the regions
that the lengths of the parts lead to. -/

/-- The blocks of data of resources. -/
def blocksOf (width : Nat) (resources : List Resource) : List (List UInt8) :=
  resources.map fun resource => counted width resource.data

/-- The texts of those resources that have a name. -/
def textsOf (resources : List Resource) : List (List UInt8) :=
  (resources.filter (·.name ≠ "")).map fun resource => counted 1 resource.name.toUTF8

theorem flatten_textsOf (resources : List Resource) :
    (textsOf resources).flatten = namesOf resources := by
  induction resources with
  | nil => rfl
  | cons resource rest ih =>
      by_cases h : resource.name = ""
      · simpa [textsOf, nameBlock, h] using ih
      · simpa [textsOf, nameBlock, h] using ih

section Slots

variable (width : Nat) (origins : Origins) (dataAt nameAt : Nat)

/-- What the reference of a resource leads to, whose data and name are at the given offsets. -/
def slotOf (resource : Resource) : Slot where
  block := ⟨origins.data + dataAt, origins.data + dataAt + (width + resource.data.size)⟩
  text :=
    if resource.name.isEmpty then none
    else some ⟨origins.names + nameAt, origins.names + nameAt + (nameBlock resource).length⟩

/-- What the references of resources lead to, whose data and names start at the given offsets. -/
def slotsOf (resources : List Resource) : List Slot :=
  resourceItems width (slotOf width origins) dataAt nameAt resources

theorem map_block_slotsOf (resources : List Resource) :
    (slotsOf width origins dataAt nameAt resources).map (·.block) =
      regionsFrom (origins.data + dataAt) ((blocksOf width resources).map (·.length)) := by
  rw [slotsOf]
  induction resources generalizing dataAt nameAt with
  | nil => rfl
  | cons resource rest ih =>
      have hblocks : blocksOf width (resource :: rest) =
          counted width resource.data :: blocksOf width rest := rfl
      rw [resourceItems, List.map_cons, ih, ← Nat.add_assoc, hblocks, List.map_cons, regionsFrom,
        length_counted, slotOf]

theorem filterMap_text_slotsOf (resources : List Resource) :
    (slotsOf width origins dataAt nameAt resources).filterMap (·.text) =
      regionsFrom (origins.names + nameAt) ((textsOf resources).map (·.length)) := by
  rw [slotsOf]
  induction resources generalizing dataAt nameAt with
  | nil => rfl
  | cons resource rest ih =>
      by_cases h : resource.name = ""
      · have htexts : textsOf (resource :: rest) = textsOf rest := by simp [textsOf, h]
        simp [resourceItems, slotOf, htexts, ih, length_nameBlock, h]
      · have htexts : textsOf (resource :: rest) =
            counted 1 resource.name.toUTF8 :: textsOf rest := by simp [textsOf, h]
        simp [resourceItems, slotOf, htexts, ih, length_nameBlock, h, regionsFrom, Nat.add_assoc]

end Slots

namespace Form

variable (form : Form)

/-- A reference to data and a name at the given offsets. -/
def reference (dataAt nameAt : Nat) (resource : Resource) : List UInt8 :=
  Word.big form.field (Word.complement form.field resource.id.toInt) ++
    Word.big form.field (nameOffset form.absent nameAt resource) ++ [0] ++
      Word.big form.place dataAt ++ List.replicate form.spare 0

@[simp] theorem length_reference (dataAt nameAt : Nat) (resource : Resource) :
    (form.reference dataAt nameAt resource).length = form.referenceLength := by
  simp only [reference, referenceLength, List.length_append, Word.length_big,
    List.length_singleton, List.length_replicate]
  omega

/-- The entry of a group whose references start at `offset`. -/
def entry (offset : Nat) (group : ResourceGroup) : List UInt8 :=
  group.code.bytes ++ Word.big form.field (form.stored group.resources.length) ++
    Word.big form.field offset

@[simp] theorem length_entry (offset : Nat) (group : ResourceGroup) :
    (form.entry offset group).length = form.entryLength := by
  simp only [entry, entryLength, List.length_append, Word.length_big, TypeCode.length_bytes]
  omega

section Entries

variable (origins : Origins) (offset dataAt nameAt : Nat)

/-- What the entry of a group leads to, whose references, data and names
start at the given offsets. -/
def entryOf (group : ResourceGroup) : Entry where
  code := group.code
  references := ⟨origins.references + offset,
    origins.references + offset + form.referenceLength * group.resources.length⟩
  slots := slotsOf form.word origins dataAt nameAt group.resources

/-- What the type list of groups leads to, whose references, data and names
start at the given offsets. -/
def entriesFound (groups : List ResourceGroup) : List Entry :=
  groupItems form.word form.referenceLength (form.entryOf origins) offset dataAt nameAt groups

theorem map_code_entriesFound (groups : List ResourceGroup) :
    (form.entriesFound origins offset dataAt nameAt groups).map (·.code) =
      groups.map (·.code) := by
  rw [entriesFound]
  induction groups generalizing offset dataAt nameAt with
  | nil => rfl
  | cons group rest ih => rw [groupItems, List.map_cons, ih, List.map_cons, entryOf]

theorem map_references_entriesFound (groups : List ResourceGroup) :
    (form.entriesFound origins offset dataAt nameAt groups).map (·.references) =
      regionsFrom (origins.references + offset)
        (groups.map (form.referenceLength * ·.resources.length)) := by
  rw [entriesFound]
  induction groups generalizing offset dataAt nameAt with
  | nil => rfl
  | cons group rest ih =>
      rw [groupItems, List.map_cons, ih, List.map_cons, regionsFrom, entryOf, Nat.add_assoc]

theorem flatMap_slots_entriesFound (groups : List ResourceGroup) :
    (form.entriesFound origins offset dataAt nameAt groups).flatMap (·.slots) =
      slotsOf form.word origins dataAt nameAt (groups.flatMap (·.resources)) := by
  rw [entriesFound, slotsOf]
  induction groups generalizing offset dataAt nameAt with
  | nil => rfl
  | cons group rest ih =>
      rw [groupItems, List.flatMap_cons, ih, List.flatMap_cons, resourceItems_append, entryOf,
        slotsOf]

end Entries

/-- The offsets and the length that a resource brings into a fork fit their fields. -/
structure Fits (dataAt nameAt : Nat) (resource : Resource) : Prop where
  offset : dataAt < Word.span form.place
  length : resource.data.size < Word.span form.word
  name : resource.name.isEmpty = false →
    nameAt < form.absent ∧ resource.name.toUTF8.size ≤ 255

/-- A count comes back from the number that is stored for it. -/
structure Counts (n : Nat) : Prop where
  stored : form.stored n < Word.span form.field
  count : form.count (form.stored n) = n

/-- The numbers in the entry of a group fit their fields. -/
structure EntryFits (offset : Nat) (group : ResourceGroup) : Prop where
  offset : offset < Word.span form.field
  count : form.Counts group.resources.length

theorem absent_lt_span : form.absent < Word.span form.field :=
  Nat.sub_lt (Word.span_pos form.field) Nat.one_pos

section Finding

variable {form} {bytes : List UInt8} {origins : Origins} {offset dataAt nameAt : Nat}

theorem block?_eq {width : Nat} {content : ByteArray} (hn : content.size < Word.span width)
    (h : Holds bytes offset (counted width content)) :
    block? width bytes offset = some ⟨offset, offset + (width + content.size)⟩ := by
  have hlength := (holds_append.mp h).1.big hn
  rw [block?, hlength]
  rfl

/-- The data and the name of a resource are found from its reference. -/
theorem slot?_eq {resource : Resource} (hfits : form.Fits dataAt nameAt resource)
    (hreference : Holds bytes offset (form.reference dataAt nameAt resource))
    (hdata : Holds bytes (origins.data + dataAt) (counted form.word resource.data))
    (hname : Holds bytes (origins.names + nameAt) (nameBlock resource)) :
    form.slot? bytes origins offset = some (slotOf form.word origins dataAt nameAt resource) := by
  simp only [reference, holds_append, List.length_append, Word.length_big,
    List.length_singleton, ← Nat.two_mul] at hreference
  obtain ⟨⟨⟨⟨-, hnameOffset⟩, -⟩, hdataOffset⟩, -⟩ := hreference
  have hdataAt := hdataOffset.big hfits.offset
  have hblock := block?_eq hfits.length hdata
  cases hempty : resource.name.isEmpty with
  | true =>
      rw [nameOffset, if_pos hempty] at hnameOffset
      simp [slot?, slotOf, hnameOffset.big form.absent_lt_span, hdataAt, hblock, hempty]
  | false =>
      obtain ⟨hlt, hlength⟩ := hfits.name hempty
      have hne : ¬resource.name.isEmpty = true := by simp [hempty]
      rw [nameOffset, if_neg hne] at hnameOffset
      rw [nameBlock, if_neg hne] at hname
      have hnameAt := hnameOffset.big (Nat.lt_trans hlt form.absent_lt_span)
      have htext := block?_eq (by simp only [Word.span]; omega) hname
      simp [slot?, slotOf, hnameAt, hdataAt, hblock, hempty, Nat.ne_of_lt hlt, htext, nameBlock]

/-- The references of a group and what they lead to are found from its entry. -/
theorem listing?_eq {group : ResourceGroup} {position : Nat}
    (hentryFits : form.EntryFits offset group)
    (hfit : Fit form.word form.Fits dataAt nameAt group.resources)
    (hentry : Holds bytes position (form.entry offset group))
    (hreferences : Holds bytes (origins.references + offset)
      (referencesOf form.word form.reference dataAt nameAt group.resources))
    (hdata : Holds bytes (origins.data + dataAt) (dataOf form.word group.resources))
    (hnames : Holds bytes (origins.names + nameAt) (namesOf group.resources)) :
    form.listing? bytes origins position =
      some (form.entryOf origins offset dataAt nameAt group) := by
  simp only [entry, holds_append, List.length_append, Word.length_big,
    TypeCode.length_bytes] at hentry
  obtain ⟨⟨hcode, hstored⟩, hoffset⟩ := hentry
  have hslots := readRow_referencesOf form.length_reference
    (splits_holds_from bytes origins.data) (splits_holds_from bytes origins.names)
    (fun _ _ _ _ => slot?_eq) hfit hreferences hdata hnames
  simp [listing?, hcode.code, hstored.big hentryFits.count.stored, hoffset.big hentryFits.offset,
    hentryFits.count.count, hslots, entryOf, slotsOf]

/-- What the entries of a type list lead to is found from its first one on. -/
theorem readRow_listing? {groups : List ResourceGroup} {position : Nat}
    (hentriesFit : EntriesFit form.referenceLength form.EntryFits offset groups)
    (hfit : Fit form.word form.Fits dataAt nameAt (groups.flatMap (·.resources)))
    (hentries : Holds bytes position (entriesOf form.referenceLength form.entry offset groups))
    (hreferences : Holds bytes (origins.references + offset)
      (referencesOf form.word form.reference dataAt nameAt (groups.flatMap (·.resources))))
    (hdata : Holds bytes (origins.data + dataAt)
      (dataOf form.word (groups.flatMap (·.resources))))
    (hnames : Holds bytes (origins.names + nameAt) (namesOf (groups.flatMap (·.resources)))) :
    readRow (form.listing? bytes origins) form.entryLength groups.length position =
      some (form.entriesFound origins offset dataAt nameAt groups) :=
  readRow_entriesOf form.length_reference form.length_entry
    (splits_holds_from bytes origins.data) (splits_holds_from bytes origins.names)
    (fun _ _ _ _ _ => listing?_eq) hentriesFit hfit hentries hreferences hdata hnames

end Finding

end Form

end ResourceAssembler.Container.Survey
