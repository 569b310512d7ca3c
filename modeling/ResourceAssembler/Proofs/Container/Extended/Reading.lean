import ResourceAssembler.Proofs.Container.Extended.Layout

/-!
# Reading an extended file

The reader goes by the layout alone, as that of the classic fork does, but the references of a group
are found from the start of the map. The writer checks no number against its field. A file of fewer
than 2 ^ 64 bytes needs no such check: every number in it is the length of some of its bytes or the
place of some.
-/

namespace ResourceAssembler.Container.Extended

open Fork

/-- The resource whose reference stands at an offset of the map. -/
def readResource (areas : Areas) (offset : Nat) : Option Resource := do
  let id ← big? 8 areas.map offset
  let nameOffset ← big? 8 areas.map (offset + 8)
  let dataOffset ← big? 8 areas.map (offset + 17)
  let name ← readName 0xFFFFFFFFFFFFFFFF areas.names nameOffset
  let data ← counted? 8 areas.data dataOffset
  return { id := Int64.ofInt (Word.signed 8 id), name, data }

/-- The group whose entry stands at an offset of the map. -/
def readGroup (areas : Areas) (offset : Nat) : Option ResourceGroup := do
  let code ← code? areas.map offset
  let count ← big? 8 areas.map (offset + 4)
  let references ← big? 8 areas.map (offset + 12)
  let resources ← readRow (readResource areas) 25 count references
  return { code, resources }

/-- The file in an extended container of version 1. -/
def read (container : ByteArray) : Option ResourceFile := do
  let bytes := octets container
  let version ← big? 8 bytes 0
  guard (version = 1)
  let dataOffset ← big? 8 bytes 8
  let mapOffset ← big? 8 bytes 16
  let dataLength ← big? 8 bytes 24
  let mapLength ← big? 8 bytes 32
  let data ← slice? bytes dataOffset dataLength
  let map ← slice? bytes mapOffset mapLength
  let typeList ← big? 8 map 0
  let nameList ← big? 8 map 8
  let count ← big? 8 map typeList
  let areas := { data, map, names := map.drop nameList }
  let groups ← readRow (readGroup areas) 20 count (typeList + 8)
  return { groups }

/-- The areas of a file of fewer than 2 ^ 64 bytes. The header in front of them keeps the offsets of
names away from the number that stands for no name. -/
structure Small (areas : Areas) : Prop where
  data : areas.data.length < Word.span 8
  map : areas.map.length < Word.span 8
  names : areas.names.length < noName

/-- Every id fits eight bytes and comes back with its sign. -/
theorem signed_complement_id (id : Int64) :
    Int64.ofInt (Word.signed 8 (Word.complement 8 id.toInt)) = id := by
  have hspan : (Word.span 8 : Int) = 2 ^ 64 := rfl
  have hlow := id.le_toInt
  have hhigh := id.toInt_lt
  rw [Word.signed_complement (by omega) (by omega), Int64.ofInt_toInt]

/-- A resource is found from its reference. -/
theorem readResource_eq {areas : Areas} (hsmall : Small areas) {dataAt nameAt offset : Nat}
    {resource : Resource} (hfits : NameFits resource)
    (hreference : Holds areas.map offset (reference dataAt nameAt resource))
    (hdata : Holds areas.data dataAt (counted 8 resource.data))
    (hname : Holds areas.names nameAt (nameBlock resource)) :
    readResource areas offset = some resource := by
  simp only [reference, holds_append, List.length_append, Word.length_big, List.length_singleton,
    Nat.reduceAdd] at hreference
  obtain ⟨⟨⟨hid, hnameOffset⟩, -⟩, hdataOffset⟩ := hreference
  have hdataRoom := Nat.lt_of_le_of_lt hdata.le hsmall.data
  have hnameRoom := Nat.lt_of_le_of_lt hname.le hsmall.names
  rw [length_counted] at hdataRoom
  have hnameAt : nameAt < noName := by omega
  have hread : readName 0xFFFFFFFFFFFFFFFF areas.names (nameOffset noName nameAt resource) =
      some resource.name :=
    readName_nameOffset (fun _ => ⟨Nat.ne_of_lt hnameAt, hfits⟩) hname
  have hstored : nameOffset noName nameAt resource < Word.span 8 := by
    have hnoName : noName < Word.span 8 := by decide
    rw [nameOffset]
    split
    · exact hnoName
    · exact Nat.lt_trans hnameAt hnoName
  simp only [readResource, Option.bind_eq_bind, Option.bind_eq_some_iff]
  refine ⟨_, hid.big (Word.complement_lt_span 8 _), _, hnameOffset.big hstored, _,
    hdataOffset.big (by omega), _, hread, _, hdata.counted (by omega), ?_⟩
  rw [signed_complement_id]
  rfl

/-- A group is found from its entry in the type list. -/
theorem readGroup_eq {areas : Areas} (hsmall : Small areas)
    {offset position dataAt nameAt : Nat} {group : ResourceGroup}
    (hfit : Fit 8 (fun _ _ => NameFits) dataAt nameAt group.resources)
    (hentry : Holds areas.map position (entry offset group))
    (hreferences : Holds areas.map offset
      (referencesOf 8 reference dataAt nameAt group.resources))
    (hdata : Holds areas.data dataAt (dataOf 8 group.resources))
    (hnames : Holds areas.names nameAt (namesOf group.resources)) :
    readGroup areas position = some group := by
  simp only [entry, holds_append, List.length_append, Word.length_big, TypeCode.length_bytes,
    Nat.reduceAdd] at hentry
  obtain ⟨⟨hcode, hcount⟩, hoffset⟩ := hentry
  have hroom := Nat.lt_of_le_of_lt hreferences.le hsmall.map
  rw [length_referencesOf length_reference, referenceEntry] at hroom
  have hresources : readRow (readResource areas) 25 group.resources.length offset =
      some group.resources := by
    have hitems := readRow_referencesOf length_reference (splits_holds areas.data)
      (splits_holds areas.names) (fun _ _ _ _ => readResource_eq hsmall) hfit hreferences hdata
      hnames
    rw [resourceItems_const, List.map_id'] at hitems
    exact hitems
  simp only [readGroup, Option.bind_eq_bind, Option.bind_eq_some_iff]
  exact ⟨_, hcode.code, _, hcount.big (by omega), _,
    hoffset.big (by omega), _, hresources, rfl⟩

/-- Where the parts of a map stand in it. -/
theorem placement_mapOf {file : ResourceFile} {bytes : List UInt8}
    (h : Holds bytes 0 (mapOf file)) :
    Holds bytes 0 (Word.big 8 mapHeader) ∧ Holds bytes 8 (Word.big 8 (namesAt file)) ∧
      Holds bytes 16 (Word.big 8 file.groupCount) ∧
      Holds bytes 24 (entriesOf referenceEntry entry (mapHeader + 8 + typeEntry * file.groupCount)
        file.groups) ∧
      Holds bytes (mapHeader + 8 + typeEntry * file.groupCount) (referenceLists file) := by
  simp only [mapOf, typeList, holds_append, List.length_append, Word.length_big, Nat.reduceAdd,
    length_entriesOf length_entry, Nat.zero_add] at h
  obtain ⟨⟨⟨⟨htypes, hnames⟩, hcount, hentries⟩, hreferences⟩, -⟩ := h
  rw [← Nat.add_assoc] at hreferences
  exact ⟨htypes, hnames, hcount, hentries, hreferences⟩

/-- Where the parts of a container stand in it. -/
theorem placement_layout {file : ResourceFile} {bytes : List UInt8}
    (h : Holds bytes 0 (layout file)) :
    Holds bytes 0 (Word.big 8 version) ∧ Holds bytes 8 (Word.big 8 headerArea) ∧
      Holds bytes 16 (Word.big 8 (headerArea + dataLength file)) ∧
      Holds bytes 24 (Word.big 8 (dataLength file)) ∧
      Holds bytes 32 (Word.big 8 (mapLength file)) ∧
      Holds bytes headerArea (dataOf 8 file.resources) ∧
      Holds bytes (headerArea + dataLength file) (mapOf file) := by
  simp only [layout, headerWords, holds_append, List.length_append, Word.length_big,
    List.length_replicate, Nat.reduceAdd, Nat.zero_add] at h
  obtain ⟨⟨⟨⟨⟨⟨⟨hversion, hstart⟩, hmapOffset⟩, hdataLength⟩, hmapLength⟩, -⟩, hdata⟩, hmap⟩ := h
  exact ⟨hversion, hstart, hmapOffset, hdataLength, hmapLength, hdata, hmap⟩

/-- The areas of a file. -/
def areasOf (file : ResourceFile) : Areas where
  data := dataOf 8 file.resources
  map := mapOf file
  names := namesOf file.resources

theorem small_areasOf {file : ResourceFile} (h : (layout file).length < Word.span 8) :
    Small (areasOf file) := by
  rw [length_layout, headerArea, mapLength] at h
  have hspan : Word.span 8 = noName + 1 := rfl
  constructor
  · simp only [areasOf]
    rw [← dataLength]
    omega
  · simp only [areasOf]
    rw [length_mapOf, mapLength]
    omega
  · simp only [areasOf]
    omega

/-- Every group of a file is read back. -/
theorem readGroups_eq {file : ResourceFile} (hsmall : Small (areasOf file))
    (hfits : ∀ resource ∈ file.resources, NameFits resource) :
    readRow (readGroup (areasOf file)) 20 file.groupCount 24 = some file.groups := by
  obtain ⟨-, -, -, hentries, hreferences⟩ := placement_mapOf (holds_self (mapOf file))
  rw [← Nat.zero_add (mapHeader + 8 + typeEntry * file.groupCount)] at hreferences
  have hentriesFit : EntriesFit referenceEntry (fun _ _ => True)
      (mapHeader + 8 + typeEntry * file.groupCount) file.groups :=
    entriesFit_of_forall (fun _ _ => trivial) _
  have hread : ∀ offset group position dataAt nameAt, True →
      Fit 8 (fun _ _ => NameFits) dataAt nameAt group.resources →
      Holds (mapOf file) position (entry offset group) →
      Holds (mapOf file) (0 + offset)
        (referencesOf 8 reference dataAt nameAt group.resources) →
      Holds (areasOf file).data dataAt (dataOf 8 group.resources) →
      Holds (areasOf file).names nameAt (namesOf group.resources) →
      readGroup (areasOf file) position = some group := by
    intro offset group position dataAt nameAt _ hfit hentry hgroupReferences hdata hnames
    rw [Nat.zero_add] at hgroupReferences
    exact readGroup_eq hsmall hfit hentry hgroupReferences hdata hnames
  have hitems := readRow_entriesOf length_reference length_entry (splits_holds (areasOf file).data)
    (splits_holds (areasOf file).names) hread hentriesFit (fit_of_forall hfits 0 0) hentries
    hreferences (holds_self _) (holds_self _)
  rw [groupItems_const, List.map_id'] at hitems
  exact hitems

/-- The names of a file are what stands behind its references. -/
theorem drop_mapOf (file : ResourceFile) :
    (mapOf file).drop (namesAt file) = namesOf file.resources := by
  rw [mapOf]
  apply List.drop_left'
  simp [namesAt, mapHeader]
  omega

/-- The reader accepts every extended file of fewer than 2 ^ 64 bytes that was written and finds in
it the file it was written for: the same groups in the same order, with the same resources in the
same order, and each with its id, its name and its data. -/
theorem extended_reads_back {file : ResourceFile} {bytes : ByteArray}
    (h : encode file = .ok bytes) (hsize : bytes.size < Word.span 8) : read bytes = some file := by
  obtain ⟨hfits, rfl⟩ := encode_eq_ok_iff.mp h
  rw [size_bytesOf] at hsize
  have hsmall := small_areasOf hsize
  obtain ⟨hversion, hstart, hmapOffset, hdataLength, hmapLength, hdata, hmap⟩ :=
    placement_layout (holds_self (layout file))
  obtain ⟨htypes, hnames, hcount, hentries, -⟩ := placement_mapOf (holds_self (mapOf file))
  have hmapSlice := hmap.slice
  rw [length_mapOf] at hmapSlice
  have hdataSlice : slice? (layout file) headerArea (dataLength file) =
      some (dataOf 8 file.resources) := hdata.slice
  rw [length_layout] at hsize
  have hnamesAt : namesAt file < Word.span 8 := by
    rw [mapLength] at hsize
    omega
  have hgroupCount : file.groupCount < Word.span 8 := by
    have hroom := Nat.lt_of_le_of_lt hentries.le hsmall.map
    rw [length_entriesOf length_entry, typeEntry] at hroom
    rw [ResourceFile.groupCount]
    omega
  have hgroups := readGroups_eq hsmall hfits
  rw [areasOf, ← drop_mapOf] at hgroups
  simp only [read, octets_bytesOf, Option.bind_eq_bind, Option.bind_eq_some_iff]
  exact ⟨_, hversion.big (by decide), _, rfl, _, hstart.big (by decide), _,
    hmapOffset.big (by omega), _, hdataLength.big (by omega), _, hmapLength.big (by omega), _,
    hdataSlice, _, hmapSlice, _, htypes.big (by decide), _, hnames.big hnamesAt, _,
    hcount.big hgroupCount, _, hgroups, rfl⟩

/-- Two groups with the least and the greatest of all ids. -/
def extremes : ResourceFile :=
  ⟨[⟨⟨'s', 'n', 'd', ' ', by decide⟩,
      [⟨Int64.minValue, "", .empty⟩, ⟨Int64.maxValue, "Hi", bytesOf [1, 2, 3]⟩]⟩,
    ⟨⟨'I', 'C', 'N', '#', by decide⟩, [⟨-1, "x", bytesOf [9]⟩]⟩]⟩

theorem extended_reads_back_extremes :
    ∃ bytes, encode extremes = .ok bytes ∧ bytes.size < Word.span 8 ∧
      read bytes = some extremes := by
  have hencode : encode extremes = .ok (bytesOf (layout extremes)) :=
    encode_eq_ok_iff.mpr ⟨by decide, rfl⟩
  have hsize : (bytesOf (layout extremes)).size < Word.span 8 := by
    rw [size_bytesOf, length_layout]
    decide
  exact ⟨_, hencode, hsize, extended_reads_back hencode hsize⟩

end ResourceAssembler.Container.Extended
