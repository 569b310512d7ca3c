import ResourceAssembler.Proofs.Container.Tiling
import ResourceAssembler.Proofs.Container.Classic.Reading
import ResourceAssembler.Proofs.Container.Extended.Reading
import ResourceAssembler.Proofs.Container.Rez.Reading
import ResourceAssembler.Container.Encode

/-!
# Every byte of a container

Whatever the format, the offsets, lengths and counts in a container lead to regions that leave out
no byte of it and share none. The classic and the extended fork are two forms of one layout. An
archive has a layout of its own, in which an index says where each entry starts and how long it is.
-/

namespace ResourceAssembler.Container

open Survey Fork

namespace Classic

/-- The form of a classic fork. -/
def form : Form where
  wordsAt := 0
  word := 4
  listsAt := 24
  field := 2
  place := 3
  spare := 4
  stored := lessOne
  count := oneMore
  fromTypeList := true

/-- What stands in front of the offsets in the map. -/
def mapFront (file : ResourceFile) : List UInt8 :=
  headerWords file ++ Word.big 4 0 ++ Word.big 2 0 ++ Word.big 2 0

theorem fronts (file : ResourceFile) : form.Fronts [] (mapFront file) :=
  ⟨rfl, by simp [mapFront, form], by decide⟩

theorem layout_eq (file : ResourceFile) : layout file = form.layout [] (mapFront file) file :=
  rfl

theorem form_counts {n : Nat} (h : n < 0x10000) : form.Counts n :=
  ⟨lessOne_lt_span n, oneMore_lessOne h⟩

theorem form_fits {dataAt nameAt : Nat} {resource : Resource} (h : Fits dataAt nameAt resource) :
    form.Fits dataAt nameAt resource :=
  ⟨Nat.lt_succ_of_le h.offset, h.length, h.name⟩

theorem form_fileFits {file : ResourceFile} (h : FileFits file) : form.FileFits file := by
  obtain ⟨hgroups, hresources⟩ := counts_lt h.names
  constructor
  case groups => exact form_counts hgroups
  case counts =>
    intro group hgroup
    exact form_counts (Nat.lt_of_le_of_lt (length_resources_le hgroup) hresources)
  case resources =>
    apply (fit_iff file.resources 0 0).mpr
    intro before resource after hsplit
    exact form_fits ((fit_iff file.resources 0 0).mp h.resources before resource after hsplit)
  case names => exact h.names
  case data => exact h.data
  case map => exact h.map

end Classic

namespace Extended

/-- The form of an extended file. -/
def form : Form where
  wordsAt := 8
  word := 8
  listsAt := 0
  field := 8
  place := 8
  spare := 0
  stored := id
  count := id
  fromTypeList := false

theorem fronts : form.Fronts (Word.big 8 version) [] :=
  ⟨rfl, rfl, by decide⟩

theorem reference_eq : reference = form.reference := by
  funext dataAt nameAt resource
  exact (List.append_nil (reference dataAt nameAt resource)).symm

theorem namesAt_eq (file : ResourceFile) : namesAt file = form.namesAt file := by
  rw [namesAt, referenceLists, reference_eq]
  rfl

theorem mapLength_eq (file : ResourceFile) : mapLength file = form.mapLength file := by
  rw [mapLength, namesAt_eq]
  rfl

theorem layout_eq (file : ResourceFile) :
    layout file = form.layout (Word.big 8 version) [] file := by
  have hwords : headerWords file = Word.big 8 version ++ form.words file := by
    simp only [headerWords, mapLength_eq, Form.words, List.append_assoc]
    rfl
  rw [layout, mapOf, hwords, namesAt_eq, referenceLists, reference_eq]
  rfl

/-- In a file of fewer than 2 ^ 64 bytes every number is small enough, as it counts some of them. -/
theorem form_fileFits {file : ResourceFile}
    (hnames : ∀ resource ∈ file.resources, NameFits resource)
    (hsize : (layout file).length < Word.span 8) : form.FileFits file := by
  rw [length_layout, mapLength_eq] at hsize
  have hdata : dataLength file = blockBytes 8 file.resources := length_dataOf 8 file.resources
  have hnameList : (namesOf file.resources).length = nameListBytes file.resources :=
    length_namesOf file.resources
  have hreferences : (form.referenceLists file).length = 25 * file.resources.length :=
    length_referencesOf form.length_reference file.resources 0 0
  have hnamesAt : form.namesAt file =
      16 + (8 + 20 * file.groupCount) + 25 * file.resources.length := by
    rw [Form.namesAt, Form.length_typeListOf, hreferences]
    rfl
  have hmap : form.mapLength file = form.namesAt file + nameListBytes file.resources := by
    rw [Form.mapLength, hnameList]
  -- The length of the whole is now a sum in which every number of the file has a part.
  rw [hmap, hnamesAt, hdata, headerArea] at hsize
  constructor
  case groups => exact ⟨show file.groupCount < Word.span 8 by omega, rfl⟩
  case counts =>
    intro group hgroup
    have hcount : group.resources.length ≤ file.resources.length := length_resources_le hgroup
    exact ⟨show group.resources.length < Word.span 8 by omega, rfl⟩
  case resources =>
    apply (fit_iff file.resources 0 0).mpr
    intro before resource after hsplit
    have hresource : resource ∈ file.resources := by simp [hsplit]
    rw [hsplit, blockBytes, total_append, total, ← blockBytes, nameListBytes_append] at hsize
    have hoffset : 0 + blockBytes 8 before < Word.span 8 := by omega
    have hlength : resource.data.size < Word.span 8 := by omega
    have hname : 0 + nameListBytes before < Word.span 8 - 1 := by omega
    exact ⟨hoffset, hlength, fun _ => ⟨hname, hnames resource hresource⟩⟩
  case names =>
    rw [hnamesAt]
    exact show _ < Word.span 8 by omega
  case data =>
    rw [Form.dataLength, length_dataOf]
    exact show 256 + blockBytes 8 file.resources < Word.span 8 by omega
  case map =>
    rw [hmap, hnamesAt]
    exact show _ < Word.span 8 by omega

end Extended

namespace Rez

/-- The regions of an archive. -/
structure Plan where
  header : Region
  index : Region
  entries : List Region
deriving DecidableEq, Repr

def Plan.regions (plan : Plan) : List Region :=
  plan.header :: plan.index :: plan.entries

/-- The regions of a plan tile an archive that holds a file. -/
structure Tiled (bytes : List UInt8) (file : ResourceFile) (plan : Plan) : Prop where
  parts : Tiles 0 bytes.length plan.regions
  header : plan.header.length = 16
  index : plan.index.length = 8 * plan.entries.length
  /-- Behind the data of all resources stands the map, in the last entry. -/
  entries : ∃ map, readMap map = some (groupsOf file) ∧
    List.Forall₂ (Region.Contains bytes) plan.entries
      (file.resources.map (octets ·.data) ++ [map])

/-- The region of the entry whose offset and size stand at a place in the index. -/
def region? (bytes : List UInt8) (place : Nat) : Option Region := do
  let offset ← little? 4 bytes place
  let size ← little? 4 bytes (place + 4)
  return ⟨offset, offset + size⟩

/-- The regions that the header and the index of an archive state. -/
def plan? (bytes : List UInt8) : Option Plan := do
  let index ← little? 4 bytes 8
  let count ← little? 4 bytes 12
  let entries ← readRow (region? bytes) 8 count index
  return ⟨⟨0, index⟩, ⟨index, index + 8 * count⟩, entries⟩

/-- The regions of entries, the first of which starts at `offset`. -/
theorem numbered_region (offset : Nat) (entries : List ByteArray) :
    numbered ByteArray.size (fun offset entry => Region.mk offset (offset + entry.size)) offset
      entries = regionsFrom offset ((entries.map octets).map (·.length)) := by
  induction entries generalizing offset with
  | nil => rfl
  | cons entry rest ih =>
      rw [numbered, ih, List.map_cons, List.map_cons, regionsFrom, length_octets]

theorem readRow_region? {bytes : List UInt8} {entries : List ByteArray} {place offset : Nat}
    (hlength : bytes.length < Word.span 4) (hindex : Holds bytes place (indexOf offset entries))
    (hpayload : Holds bytes offset (payload entries)) :
    readRow (region? bytes) 8 entries.length place =
      some (regionsFrom offset ((entries.map octets).map (·.length))) := by
  have hread : ∀ place offset entry, Holds bytes place (indexRecord offset entry) →
      Holds bytes offset (octets entry) →
      region? bytes place = some ⟨offset, offset + entry.size⟩ := by
    intro place offset entry hrecord hentry
    obtain ⟨hoffset, hsize⟩ := little?_indexRecord hlength hrecord hentry
    simp [region?, hoffset, hsize]
  rw [readRow_records hread hindex hpayload, numbered_region]

/-- What the survey of an archive finds. -/
theorem plan?_layout {file : ResourceFile} (hlength : (layout file).length < Word.span 4) :
    plan? (layout file) = some ⟨⟨0, 16⟩, ⟨16, payloadAt file⟩,
      regionsFrom (payloadAt file) (((entriesOf file).map octets).map (·.length))⟩ := by
  obtain ⟨-, -, hindexOffset, hcount, hindex, hpayload⟩ :=
    placement_layout (holds_self (layout file))
  have hentries := readRow_region? hlength hindex hpayload
  have hcountFits : (entriesOf file).length < Word.span 4 := by
    rw [length_layout, payloadAt, indexEntry] at hlength
    omega
  simp only [plan?, Option.bind_eq_bind, Option.bind_eq_some_iff]
  exact ⟨_, hindexOffset.little (by decide), _, hcount.little hcountFits, _, hentries, rfl⟩

end Rez

section Covered

variable {file : ResourceFile} {bytes : ByteArray}

theorem existsUnique_region {regions : List Region} (h : Tiles 0 (octets bytes).length regions) :
    ∀ place < bytes.size, ∃! region, region ∈ regions ∧ region.Has place := by
  rw [length_octets] at h
  exact fun place => h.existsUnique (Nat.zero_le place)

theorem Classic.covered (h : file.encode .classic = .ok bytes) :
    ∃ plan, Classic.form.plan? (octets bytes) = some plan ∧
      Classic.form.Tiled (octets bytes) file plan ∧
      ∃ header, plan.header.Contains (octets bytes) header ∧
        Holds (octets bytes) plan.map.start header := by
  obtain ⟨hfits, rfl⟩ := encode_eq_ok_iff.mp h
  obtain ⟨hheader, -, -, -, -, -, hmap⟩ := placement_layout (holds_self (layout file))
  obtain ⟨hcopy, -⟩ := placement_mapOf (holds_self (mapOf file))
  have hplan : form.plan? (layout file) = some (form.planOf file) := by
    rw [layout_eq]
    exact Form.plan?_layout (fronts file) (form_fileFits hfits)
  have htiled : form.Tiled (layout file) file (form.planOf file) := by
    rw [layout_eq]
    exact Form.tiled_planOf (fronts file)
  rw [octets_bytesOf]
  exact ⟨_, hplan, htiled, headerWords file, ⟨rfl, hheader⟩, hmap.trans hcopy⟩

/-- The regions tile a file of any length. The numbers in it lead to them as
long as they fit 64 bits. -/
theorem Extended.covered (h : file.encode .extended = .ok bytes) :
    ∃ plan, (bytes.size < Word.span 8 → Extended.form.plan? (octets bytes) = some plan) ∧
      Extended.form.Tiled (octets bytes) file plan := by
  obtain ⟨hnames, rfl⟩ := encode_eq_ok_iff.mp h
  rw [octets_bytesOf, size_bytesOf]
  refine ⟨form.planOf file, ?_, ?_⟩
  · intro hsize
    rw [layout_eq]
    exact Form.plan?_layout fronts (form_fileFits hnames hsize)
  · rw [layout_eq]
    exact Form.tiled_planOf fronts

theorem Rez.covered (h : file.encode .rez = .ok bytes) :
    ∃ plan, Rez.plan? (octets bytes) = some plan ∧ Rez.Tiled (octets bytes) file plan := by
  obtain ⟨hfits, hlength, rfl⟩ := encode_eq_ok_iff.mp h
  obtain ⟨-, -, -, -, -, hpayload⟩ := placement_layout (holds_self (layout file))
  have hmap := readMap_entry hfits hlength
  rw [octets_bytesOf] at hmap
  have hentries : file.resources.map (octets ·.data) ++ [mapOf file] =
      (entriesOf file).map octets := by
    rw [entriesOf, List.map_append, List.map_map, List.map_singleton, octets_bytesOf]
    rfl
  have hparts : Tiles (payloadAt file) (layout file).length
      (regionsFrom (payloadAt file) (((entriesOf file).map octets).map (·.length))) := by
    rw [length_layout]
    exact tiles_blocks (payloadAt file) ((entriesOf file).map octets)
  have hindex : 16 ≤ payloadAt file := Nat.le_add_right 16 (indexEntry * (entriesOf file).length)
  rw [octets_bytesOf]
  refine ⟨_, plan?_layout hlength, ?_⟩
  constructor
  case parts => exact ⟨rfl, Nat.zero_le 16, rfl, hindex, hparts⟩
  case header => rfl
  case index => simp [Region.length, payloadAt, indexOffset, indexEntry]
  case entries =>
    refine ⟨mapOf file, hmap, ?_⟩
    rw [hentries]
    exact contains_regionsFrom hpayload

/-- Every byte of a container that is written belongs to exactly one region, and the regions are
those that its own offsets, lengths and counts lead to.

In a fork they are the header, zeros up to 256, a block for the data of each resource, the header of
the map, the type list, a list of references for each type, and a text for each name. Data and map
take up the rest of the fork, blocks and texts stand in the order of the resources, and the lists of
references in the order of the types. The map of a classic fork starts with a copy of the header.
The regions of an extended file are found by its numbers as far as 64 bits can count its bytes.

In an archive the regions are the header of 16 bytes, an index of eight bytes for each entry, and
the entries. The last entry is the map. -/
theorem every_byte_covered (file : ResourceFile) (bytes : ByteArray) :
    (file.encode .classic = .ok bytes →
      ∃ plan, Classic.form.plan? (octets bytes) = some plan ∧
        Classic.form.Tiled (octets bytes) file plan ∧
        (∀ place < bytes.size, ∃! region, region ∈ plan.regions ∧ region.Has place) ∧
        ∃ header, plan.header.Contains (octets bytes) header ∧
          Holds (octets bytes) plan.map.start header) ∧
    (file.encode .extended = .ok bytes →
      ∃ plan, (bytes.size < Word.span 8 → Extended.form.plan? (octets bytes) = some plan) ∧
        Extended.form.Tiled (octets bytes) file plan ∧
        ∀ place < bytes.size, ∃! region, region ∈ plan.regions ∧ region.Has place) ∧
    (file.encode .rez = .ok bytes →
      ∃ plan, Rez.plan? (octets bytes) = some plan ∧
        Rez.Tiled (octets bytes) file plan ∧
        ∀ place < bytes.size, ∃! region, region ∈ plan.regions ∧ region.Has place) := by
  refine ⟨?_, ?_, ?_⟩
  · intro h
    obtain ⟨plan, hplan, htiled, hcopy⟩ := Classic.covered h
    exact ⟨plan, hplan, htiled, existsUnique_region htiled.tiles_regions, hcopy⟩
  · intro h
    obtain ⟨plan, hplan, htiled⟩ := Extended.covered h
    exact ⟨plan, hplan, htiled, existsUnique_region htiled.tiles_regions⟩
  · intro h
    obtain ⟨plan, hplan, htiled⟩ := Rez.covered h
    exact ⟨plan, hplan, htiled, existsUnique_region htiled.parts⟩

end Covered

/-- Two types, with and without names and data. -/
def cursors : ResourceFile :=
  ⟨[⟨⟨'C', 'U', 'R', 'S', by decide⟩, [⟨-2, "arrow", bytesOf [1, 2]⟩, ⟨5, "", bytesOf [7]⟩]⟩,
    ⟨⟨'P', 'A', 'T', ' ', by decide⟩, [⟨9, "dots", .empty⟩]⟩]⟩

theorem every_byte_covered_cursors :
    (∃ bytes plan, cursors.encode .classic = .ok bytes ∧
        Classic.form.plan? (octets bytes) = some plan ∧
        Classic.form.Tiled (octets bytes) cursors plan) ∧
      (∃ bytes plan, cursors.encode .extended = .ok bytes ∧ bytes.size < Word.span 8 ∧
        Extended.form.plan? (octets bytes) = some plan ∧
        Extended.form.Tiled (octets bytes) cursors plan) ∧
      ∃ bytes plan, cursors.encode .rez = .ok bytes ∧ Rez.plan? (octets bytes) = some plan ∧
        Rez.Tiled (octets bytes) cursors plan := by
  have hclassic : cursors.encode .classic = .ok _ := rfl
  have hextended : cursors.encode .extended = .ok (bytesOf (Extended.layout cursors)) :=
    Extended.encode_eq_ok_iff.mpr ⟨by decide, rfl⟩
  have hsize : (bytesOf (Extended.layout cursors)).size < Word.span 8 := by
    rw [size_bytesOf, Extended.length_layout]
    decide
  have hrez : cursors.encode .rez = .ok _ := rfl
  obtain ⟨fork, hfork, hforkTiled, -⟩ := (every_byte_covered cursors _).1 hclassic
  obtain ⟨wide, hwide, hwideTiled, -⟩ := (every_byte_covered cursors _).2.1 hextended
  obtain ⟨archive, harchive, harchiveTiled, -⟩ := (every_byte_covered cursors _).2.2 hrez
  exact ⟨⟨_, fork, hclassic, hfork, hforkTiled⟩,
    ⟨_, wide, hextended, hsize, hwide hsize, hwideTiled⟩, _, archive, hrez, harchive, harchiveTiled⟩

example : (Rez.plan? (Rez.layout cursors)).map (·.regions) =
    some [⟨0, 16⟩, ⟨16, 48⟩, ⟨48, 50⟩, ⟨50, 51⟩, ⟨51, 51⟩, ⟨51, 107⟩] := by rfl

end ResourceAssembler.Container
