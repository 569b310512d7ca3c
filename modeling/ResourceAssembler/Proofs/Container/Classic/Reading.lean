import ResourceAssembler.Proofs.Container.Classic.Layout

/-!
# Reading a classic fork

The reader goes by the layout of a fork alone: the header says where the data and the map are, the
map where the type list and the names are, an entry of the type list where the references of its
group are, and a reference where a name and a block of data are. It finds in a fork exactly the file
that the fork was written for.
-/

namespace ResourceAssembler.Container.Classic

open Fork

/-- The resource whose reference stands at an offset of the map. -/
def readResource (areas : Areas) (offset : Nat) : Option Resource := do
  let id ← big? 2 areas.map offset
  let nameOffset ← big? 2 areas.map (offset + 2)
  let dataOffset ← big? 3 areas.map (offset + 5)
  let name ← readName 0xFFFF areas.names nameOffset
  let data ← counted? 4 areas.data dataOffset
  return { id := Int64.ofInt (Word.signed 2 id), name, data }

/-- How many entries there are when their number less one is stored. -/
def oneMore (stored : Nat) : Nat :=
  (stored + 1) % 0x10000

/-- The group whose entry stands at an offset of the map. -/
def readGroup (areas : Areas) (typeList offset : Nat) : Option ResourceGroup := do
  let code ← code? areas.map offset
  let count ← big? 2 areas.map (offset + 4)
  let references ← big? 2 areas.map (offset + 6)
  let resources ← readRow (readResource areas) 12 (oneMore count) (typeList + references)
  return { code, resources }

/-- The file in a classic fork. The map has to start with the first 16 bytes of the fork. -/
def read (fork : ByteArray) : Option ResourceFile := do
  let bytes := octets fork
  let dataOffset ← big? 4 bytes 0
  let mapOffset ← big? 4 bytes 4
  let dataLength ← big? 4 bytes 8
  let mapLength ← big? 4 bytes 12
  let data ← slice? bytes dataOffset dataLength
  let map ← slice? bytes mapOffset mapLength
  guard (slice? map 0 16 = slice? bytes 0 16)
  let typeList ← big? 2 map 24
  let nameList ← big? 2 map 26
  let count ← big? 2 map typeList
  let areas := { data, map, names := map.drop nameList }
  let groups ← readRow (readGroup areas typeList) 8 (oneMore count) (typeList + 2)
  return { groups }

theorem lessOne_lt_span (count : Nat) : lessOne count < Word.span 2 := by
  have hspan : Word.span 2 = 0x10000 := rfl
  rw [hspan, lessOne]
  exact Nat.mod_lt (count + 0xFFFF) (by decide)

theorem oneMore_lessOne {count : Nat} (h : count < 0x10000) : oneMore (lessOne count) = count := by
  rw [oneMore, lessOne]
  omega

/-- Ids that fit two bytes come back with their sign. -/
theorem signed_complement_id {id : Int64} (h : idFits id = true) :
    Int64.ofInt (Word.signed 2 (Word.complement 2 id.toInt)) = id := by
  rw [idFits, Bool.and_eq_true, decide_eq_true_eq, decide_eq_true_eq] at h
  have hspan : (Word.span 2 : Int) = 0x10000 := rfl
  rw [Word.signed_complement (by omega) (by omega), Int64.ofInt_toInt]

/-- A resource is found from its reference. -/
theorem readResource_eq {areas : Areas} {dataAt nameAt offset : Nat} {resource : Resource}
    (hfits : Fits dataAt nameAt resource)
    (hreference : Holds areas.map offset (reference dataAt nameAt resource))
    (hdata : Holds areas.data dataAt (counted 4 resource.data))
    (hname : Holds areas.names nameAt (nameBlock resource)) :
    readResource areas offset = some resource := by
  simp only [reference, holds_append, List.length_append, Word.length_big, List.length_singleton,
    Nat.reduceAdd] at hreference
  obtain ⟨⟨⟨⟨hid, hnameOffset⟩, -⟩, hdataOffset⟩, -⟩ := hreference
  have hfree : resource.name.isEmpty = false → nameAt ≠ 0xFFFF ∧
      resource.name.toUTF8.size ≤ 255 := by
    intro hempty
    obtain ⟨hlt, hlength⟩ := hfits.name hempty
    exact ⟨by simp only [noName] at hlt; omega, hlength⟩
  have hstored : nameOffset noName nameAt resource < Word.span 2 := by
    cases hempty : resource.name.isEmpty with
    | true => simp [nameOffset, hempty, noName, Word.span]
    | false =>
        obtain ⟨hlt, -⟩ := hfits.name hempty
        simp only [nameOffset, hempty, noName, Word.span] at hlt ⊢
        simp only [Bool.false_eq_true, if_false]
        omega
  have hdataAt : dataAt < Word.span 3 := Nat.lt_succ_of_le hfits.offset
  have hread : readName 0xFFFF areas.names (nameOffset noName nameAt resource) =
      some resource.name := readName_nameOffset hfree hname
  simp only [readResource, Option.bind_eq_bind, Option.bind_eq_some_iff]
  refine ⟨_, hid.big (Word.complement_lt_span 2 _), _, hnameOffset.big hstored, _,
    hdataOffset.big hdataAt, _, hread, _, hdata.counted hfits.length, ?_⟩
  rw [signed_complement_id hfits.id]
  rfl

/-- A group is found from its entry in the type list. -/
theorem readGroup_eq {areas : Areas} {typeList offset position dataAt nameAt : Nat}
    {group : ResourceGroup} (hentryFits : EntryFits offset group)
    (hcount : group.resources.length < 0x10000)
    (hfit : Fit 4 Fits dataAt nameAt group.resources)
    (hentry : Holds areas.map position (entry offset group))
    (hreferences : Holds areas.map (typeList + offset)
      (referencesOf 4 reference dataAt nameAt group.resources))
    (hdata : Holds areas.data dataAt (dataOf 4 group.resources))
    (hnames : Holds areas.names nameAt (namesOf group.resources)) :
    readGroup areas typeList position = some group := by
  simp only [entry, holds_append, List.length_append, Word.length_big, TypeCode.length_bytes,
    Nat.reduceAdd] at hentry
  obtain ⟨⟨hcode, hstored⟩, hoffset⟩ := hentry
  have hresources : readRow (readResource areas) 12 group.resources.length
      (typeList + offset) = some group.resources := by
    have hitems := readRow_referencesOf length_reference (splits_holds areas.data)
      (splits_holds areas.names) (fun _ _ _ _ => readResource_eq) hfit hreferences hdata hnames
    rw [resourceItems_const, List.map_id'] at hitems
    exact hitems
  rw [← oneMore_lessOne hcount] at hresources
  simp only [readGroup, Option.bind_eq_bind, Option.bind_eq_some_iff]
  exact ⟨_, hcode.code, _, hstored.big (lessOne_lt_span _), _,
    hoffset.big hentryFits.offset, _, hresources, rfl⟩

/-- The map of a fork that fits holds fewer groups and resources than a count can tell apart. -/
theorem counts_lt {file : ResourceFile} (h : namesAt file < 0x10000) :
    file.groupCount < 0x10000 ∧ file.resources.length < 0x10000 := by
  have hresources : file.resources.length = file.resourceCount := rfl
  rw [namesAt_eq] at h
  omega

/-- Where the parts of a map stand in it. -/
theorem placement_mapOf {file : ResourceFile} {bytes : List UInt8}
    (h : Holds bytes 0 (mapOf file)) :
    Holds bytes 0 (headerWords file) ∧ Holds bytes 24 (Word.big 2 mapHeader) ∧
      Holds bytes 26 (Word.big 2 (namesAt file)) ∧
      Holds bytes 28 (Word.big 2 (lessOne file.groupCount)) ∧
      Holds bytes 30
        (entriesOf referenceEntry entry (2 + typeEntry * file.groupCount) file.groups) ∧
      Holds bytes (28 + (2 + typeEntry * file.groupCount)) (referenceLists file) := by
  simp only [mapOf, typeList, holds_append, List.length_append, Word.length_big,
    length_headerWords, Nat.reduceAdd, length_entriesOf length_entry, Nat.zero_add] at h
  obtain ⟨⟨⟨⟨⟨⟨⟨⟨hheader, -⟩, -⟩, -⟩, htypes⟩, hnames⟩, hcount, hentries⟩, hreferences⟩, -⟩ := h
  exact ⟨hheader, htypes, hnames, hcount, hentries, hreferences⟩

/-- Where the parts of a fork stand in it. -/
theorem placement_layout {file : ResourceFile} {bytes : List UInt8}
    (h : Holds bytes 0 (layout file)) :
    Holds bytes 0 (headerWords file) ∧ Holds bytes 0 (Word.big 4 headerArea) ∧
      Holds bytes 4 (Word.big 4 (headerArea + dataLength file)) ∧
      Holds bytes 8 (Word.big 4 (dataLength file)) ∧
      Holds bytes 12 (Word.big 4 (mapLength file)) ∧
      Holds bytes headerArea (dataOf 4 file.resources) ∧
      Holds bytes (headerArea + dataLength file) (mapOf file) := by
  simp only [layout, holds_append, List.length_append, length_headerWords,
    List.length_replicate, Nat.reduceAdd, Nat.zero_add] at h
  obtain ⟨⟨⟨hheader, -⟩, hdata⟩, hmap⟩ := h
  have hwords := hheader
  simp only [headerWords, holds_append, List.length_append, Word.length_big, Nat.reduceAdd,
    Nat.zero_add] at hwords
  obtain ⟨⟨⟨hstart, hmapOffset⟩, hdataLength⟩, hmapLength⟩ := hwords
  exact ⟨hheader, hstart, hmapOffset, hdataLength, hmapLength, hdata, hmap⟩

/-- Every group of a fork that fits is read back. -/
theorem readGroups_eq {file : ResourceFile} (hfits : FileFits file) :
    readRow (readGroup ⟨dataOf 4 file.resources, mapOf file, namesOf file.resources⟩ 28) 8
      file.groupCount 30 = some file.groups := by
  obtain ⟨-, hresources⟩ := counts_lt hfits.names
  obtain ⟨-, -, -, -, hentries, hreferences⟩ := placement_mapOf (holds_self (mapOf file))
  have hcounts : ∀ group ∈ file.groups, group.resources.length < 0x10000 :=
    fun group hgroup => Nat.lt_of_le_of_lt (length_resources_le hgroup) hresources
  have hread := fun offset group position dataAt nameAt
      (h : EntryFits offset group ∧ group.resources.length < 0x10000) =>
    @readGroup_eq ⟨dataOf 4 file.resources, mapOf file, namesOf file.resources⟩ 28 offset position
      dataAt nameAt group h.1 h.2
  have hitems := readRow_entriesOf length_reference length_entry
    (splits_holds (dataOf 4 file.resources)) (splits_holds (namesOf file.resources)) hread
    (hfits.entries.and_of_mem hcounts) hfits.resources hentries hreferences (holds_self _)
    (holds_self _)
  rw [groupItems_const, List.map_id'] at hitems
  exact hitems

/-- The names of a file are what stands behind its references. -/
theorem drop_mapOf (file : ResourceFile) :
    (mapOf file).drop (namesAt file) = namesOf file.resources := by
  rw [mapOf]
  apply List.drop_left'
  simp [namesAt, mapHeader]
  omega

/-- The reader accepts every classic fork that was written and finds in it the file it was written
for: the same groups in the same order, with the same resources in the same order, and each with its
id, its name and its data. -/
theorem classic_reads_back {file : ResourceFile} {bytes : ByteArray}
    (h : encode file = .ok bytes) : read bytes = some file := by
  obtain ⟨hfits, rfl⟩ := encode_eq_ok_iff.mp h
  obtain ⟨hheader, hstart, hmapOffset, hdataLength, hmapLength, hdata, hmap⟩ :=
    placement_layout (holds_self (layout file))
  obtain ⟨hcopy, htypes, hnames, hcount, -, -⟩ := placement_mapOf (holds_self (mapOf file))
  obtain ⟨hgroupCount, -⟩ := counts_lt hfits.names
  have hdataFits := hfits.data
  have hdataSlice : slice? (layout file) headerArea (dataLength file) =
      some (dataOf 4 file.resources) := hdata.slice
  have hmapSlice := hmap.slice
  rw [length_mapOf] at hmapSlice
  have hheaders : guard (slice? (mapOf file) 0 16 = slice? (layout file) 0 16) = some () := by
    have hcopySlice := hcopy.slice
    have hheaderSlice := hheader.slice
    rw [length_headerWords] at hcopySlice hheaderSlice
    rw [hcopySlice, hheaderSlice]
    exact if_pos rfl
  have hgroups := readGroups_eq hfits
  rw [← oneMore_lessOne hgroupCount, ← drop_mapOf] at hgroups
  simp only [read, octets_bytesOf, Option.bind_eq_bind, Option.bind_eq_some_iff]
  refine ⟨_, hstart.big (by decide), _, hmapOffset.big hdataFits, _,
    hdataLength.big (by simp only [Word.span]; omega), _, hmapLength.big hfits.map, _, hdataSlice,
    _, hmapSlice, _, hheaders, _, htypes.big (by decide), _,
    hnames.big hfits.names, _, hcount.big (lessOne_lt_span _), _, hgroups, rfl⟩

/-- Two groups with ids of both signs, a name and no name, data and no data. -/
def twoGroups : ResourceFile :=
  ⟨[⟨⟨'S', 'T', 'R', ' ', by decide⟩, [⟨-1, "", .empty⟩, ⟨128, "Hi", bytesOf [1, 2, 3]⟩]⟩,
    ⟨⟨'D', 'A', 'T', 'A', by decide⟩, [⟨-32768, "x", bytesOf [9]⟩]⟩]⟩

theorem classic_reads_back_two_groups :
    ∃ bytes, encode twoGroups = .ok bytes ∧ read bytes = some twoGroups := by
  have hencode : encode twoGroups = .ok _ := rfl
  exact ⟨_, hencode, classic_reads_back hencode⟩

end ResourceAssembler.Container.Classic
