import ResourceAssembler.Proofs.Container.Fork
import ResourceAssembler.Proofs.Outcome
import ResourceAssembler.Container.Extended

/-!
# What an extended file consists of

The buffers of the classic fork with wider numbers. As no number is checked against its field, the
only file that is not written is one with a name of more than 255 bytes.
-/

namespace ResourceAssembler.Container.Extended

open Fork Outcome

/-- A reference to data and a name at the given offsets. -/
def reference (dataAt nameAt : Nat) (resource : Resource) : List UInt8 :=
  Word.big 8 (Word.complement 8 resource.id.toInt) ++
    Word.big 8 (nameOffset noName nameAt resource) ++ [0] ++ Word.big 8 dataAt

@[simp] theorem length_reference (dataAt nameAt : Nat) (resource : Resource) :
    (reference dataAt nameAt resource).length = referenceEntry := by
  simp [reference, referenceEntry]

/-- The entry of a group whose references start at `offset`. -/
def entry (offset : Nat) (group : ResourceGroup) : List UInt8 :=
  group.code.bytes ++ Word.big 8 group.resources.length ++ Word.big 8 offset

@[simp] theorem length_entry (offset : Nat) (group : ResourceGroup) :
    (entry offset group).length = typeEntry := by
  simp [entry, typeEntry]

/-- The name of a resource can be written. -/
def NameFits (resource : Resource) : Prop :=
  resource.name.toUTF8.size ≤ 255

instance : DecidablePred NameFits :=
  fun resource => Nat.decLe resource.name.toUTF8.size 255

theorem addName_eq_ok_iff {names after : ByteArray} {code : TypeCode} {resource : Resource}
    {offset : Nat} :
    addName names code resource = .ok (offset, after) ↔
      NameFits resource ∧ offset = nameOffset noName names.size resource ∧
        after = names ++ bytesOf (nameBlock resource) := by
  cases h : resource.name.isEmpty with
  | true =>
      have hempty : resource.name = "" := String.isEmpty_iff.mp h
      have hfits : NameFits resource := by
        rw [NameFits, hempty]
        decide
      simp [addName, hfits, nameOffset, nameBlock, h, eq_comm]
  | false =>
      simp only [addName, NameFits, nameOffset, nameBlock, h, Bool.false_eq_true, if_false,
        bind_eq_ok_iff, countedName_eq_ok_iff, pure_eq_ok_iff, Prod.mk.injEq, and_assoc,
        exists_and_left, exists_eq_left]

/-- The parts after the given resources. -/
def Parts.addAll (parts : Parts) (resources : List Resource) : Parts where
  data := parts.data ++ bytesOf (dataOf 8 resources)
  types := parts.types
  references := parts.references ++
    bytesOf (referencesOf 8 reference parts.data.size parts.names.size resources)
  names := parts.names ++ bytesOf (namesOf resources)

theorem Parts.addAll_nil (parts : Parts) : parts.addAll [] = parts := by
  simp [addAll, dataOf, referencesOf, namesOf]

theorem Parts.addAll_append (parts : Parts) (first second : List Resource) :
    (parts.addAll first).addAll second = parts.addAll (first ++ second) := by
  simp [addAll, referencesOf_append, bytesOf_append, ByteArray.append_assoc]

theorem addResource_eq_ok_iff {code : TypeCode} {parts after : Parts} {resource : Resource} :
    addResource code parts resource = .ok after ↔
      NameFits resource ∧ after = parts.addAll [resource] := by
  have hafter : parts.addAll [resource] =
      { parts with
        data := parts.data ++ bytesOf (Word.big 8 resource.data.size) ++ resource.data
        references := parts.references ++
          bytesOf (reference parts.data.size parts.names.size resource)
        names := parts.names ++ bytesOf (nameBlock resource) } := by
    simp [Parts.addAll, dataOf, referencesOf, namesOf, counted, bytesOf_append,
      ByteArray.append_assoc]
  simp only [addResource, bind_eq_ok_iff, pure_eq_ok_iff, Prod.exists, addName_eq_ok_iff, hafter]
  constructor
  · rintro ⟨_, _, ⟨hname, rfl, rfl⟩, rfl⟩
    exact ⟨hname, rfl⟩
  · rintro ⟨hname, rfl⟩
    exact ⟨_, _, ⟨hname, rfl, rfl⟩, rfl⟩

/-- The resources of a group are written exactly when all their names fit. -/
theorem foldlM_addResource_eq_ok_iff {code : TypeCode} {resources : List Resource}
    {parts after : Parts} :
    resources.foldlM (addResource code) parts = .ok after ↔
      (∀ resource ∈ resources, NameFits resource) ∧ after = parts.addAll resources := by
  induction resources generalizing parts with
  | nil => simp [pure_eq_ok_iff, Parts.addAll_nil]
  | cons resource rest ih =>
      have hrow : parts.addAll (resource :: rest) = (parts.addAll [resource]).addAll rest := by
        rw [Parts.addAll_append, List.singleton_append]
      simp only [List.foldlM_cons, bind_eq_ok_iff, addResource_eq_ok_iff, ih, hrow,
        List.forall_mem_cons, and_assoc, exists_and_left, exists_eq_left]

/-- The parts with more entries in the type list. -/
def Parts.addTypes (parts : Parts) (bytes : List UInt8) : Parts :=
  { parts with types := parts.types ++ bytesOf bytes }

/-- The groups of a file are written exactly when all names fit. -/
theorem addGroups_eq_ok_iff {groups : List ResourceGroup} {offset : Nat} {parts after : Parts} :
    addGroups offset parts groups = .ok after ↔
      (∀ resource ∈ groups.flatMap (·.resources), NameFits resource) ∧
        after = (parts.addTypes (entriesOf referenceEntry entry offset groups)).addAll
          (groups.flatMap (·.resources)) := by
  induction groups generalizing offset parts with
  | nil => simp [addGroups, entriesOf, numbered, Parts.addTypes, Parts.addAll_nil, eq_comm]
  | cons group rest ih =>
      have hrow : (parts.addTypes (entriesOf referenceEntry entry offset (group :: rest))).addAll
            ((group :: rest).flatMap (·.resources)) =
          (((parts.addTypes (entry offset group)).addAll group.resources).addTypes
              (entriesOf referenceEntry entry
                (offset + referenceEntry * group.resources.length) rest)).addAll
            (rest.flatMap (·.resources)) := by
        simp [Parts.addAll, Parts.addTypes, entriesOf_cons, referencesOf_append, bytesOf_append,
          ByteArray.append_assoc]
      rw [hrow]
      simp only [addGroups, addGroup, bind_eq_ok_iff, foldlM_addResource_eq_ok_iff, ih,
        List.flatMap_cons, List.forall_mem_append, and_assoc, exists_and_left, exists_eq_left]
      rfl

/-- The type list of a file. -/
def typeList (file : ResourceFile) : List UInt8 :=
  Word.big 8 file.groupCount ++
    entriesOf referenceEntry entry (mapHeader + 8 + typeEntry * file.groupCount) file.groups

/-- The references of a file. -/
def referenceLists (file : ResourceFile) : List UInt8 :=
  referencesOf 8 reference 0 0 file.resources

/-- Where the names of a file start in its map. -/
def namesAt (file : ResourceFile) : Nat :=
  mapHeader + (typeList file).length + (referenceLists file).length

/-- The length of the map of a file. -/
def mapLength (file : ResourceFile) : Nat :=
  namesAt file + (namesOf file.resources).length

/-- The length of the data of a file. -/
def dataLength (file : ResourceFile) : Nat :=
  (dataOf 8 file.resources).length

/-- The version and the four numbers behind it. -/
def headerWords (file : ResourceFile) : List UInt8 :=
  Word.big 8 version ++ Word.big 8 headerArea ++ Word.big 8 (headerArea + dataLength file) ++
    Word.big 8 (dataLength file) ++ Word.big 8 (mapLength file)

/-- The map of a file. -/
def mapOf (file : ResourceFile) : List UInt8 :=
  Word.big 8 mapHeader ++ Word.big 8 (namesAt file) ++ typeList file ++ referenceLists file ++
    namesOf file.resources

/-- The whole of a file. -/
def layout (file : ResourceFile) : List UInt8 :=
  headerWords file ++ List.replicate 216 0 ++ dataOf 8 file.resources ++ mapOf file

@[simp] theorem length_headerWords (file : ResourceFile) : (headerWords file).length = 40 := by
  simp [headerWords]

theorem length_mapOf (file : ResourceFile) : (mapOf file).length = mapLength file := by
  simp [mapOf, mapLength, namesAt, mapHeader]
  omega

theorem length_layout (file : ResourceFile) :
    (layout file).length = headerArea + dataLength file + mapLength file := by
  rw [layout, List.length_append, List.length_append, List.length_append, length_headerWords,
    List.length_replicate, length_mapOf, headerArea, dataLength]

/-- The length of the extended file of a file: 280 bytes, 20 for a type, and 33 for a resource
beside its data and its name in the list of names. -/
def fileLength (file : ResourceFile) : Nat :=
  280 + 33 * file.resourceCount + 20 * file.groupCount + nameListBytes file.resources +
    payloadBytes file.resources

theorem length_layout_eq (file : ResourceFile) : (layout file).length = fileLength file := by
  have htypes : (typeList file).length = 8 + typeEntry * file.groupCount := by
    rw [typeList, List.length_append, Word.length_big, length_entriesOf length_entry,
      ResourceFile.groupCount]
  have hreferences : (referenceLists file).length = referenceEntry * file.resourceCount :=
    length_referencesOf length_reference file.resources 0 0
  have hresources : file.resources.length = file.resourceCount := rfl
  rw [length_layout, dataLength, length_dataOf, blockBytes_eq, mapLength, namesAt, htypes,
    hreferences, length_namesOf, headerArea, mapHeader, typeEntry, referenceEntry, hresources,
    fileLength]
  omega

/-- All four buffers of a file. -/
def partsOf (file : ResourceFile) : Parts where
  data := bytesOf (dataOf 8 file.resources)
  types := bytesOf (typeList file)
  references := bytesOf (referenceLists file)
  names := bytesOf (namesOf file.resources)

/-- An extended file is written exactly when all names fit, and then it is the layout of its
file. -/
theorem encode_eq_ok_iff {file : ResourceFile} {bytes : ByteArray} :
    encode file = .ok bytes ↔
      (∀ resource ∈ file.resources, NameFits resource) ∧ bytes = bytesOf (layout file) := by
  have hparts : (Parts.addTypes { types := bytesOf (Word.big 8 file.groupCount) }
        (entriesOf referenceEntry entry (mapHeader + 8 + typeEntry * file.groupCount)
          file.groups)).addAll (file.groups.flatMap (·.resources)) = partsOf file := by
    simp [Parts.addTypes, Parts.addAll, partsOf, typeList, referenceLists,
      ResourceFile.resources, bytesOf_append]
  have hnames : mapHeader + (partsOf file).types.size + (partsOf file).references.size =
      namesAt file := by
    simp [partsOf, namesAt]
  have hmap : namesAt file + (partsOf file).names.size = mapLength file := by
    simp [partsOf, mapLength]
  have hdata : (partsOf file).data.size = dataLength file := by
    simp [partsOf, dataLength]
  have hwords : [version, headerArea, headerArea + dataLength file, dataLength file,
      mapLength file].flatMap (Word.big 8) = headerWords file := by
    simp [headerWords]
  simp only [encode, bind_eq_ok_iff, pure_eq_ok_iff, addGroups_eq_ok_iff, and_assoc,
    exists_and_left, exists_eq_left, hparts, hnames, hmap, hdata, hwords, length_headerWords]
  have hbytes : bytesOf (headerWords file ++ List.replicate (headerArea - 40) 0) ++
        (partsOf file).data ++ bytesOf (Word.big 8 mapHeader ++ Word.big 8 (namesAt file)) ++
        (partsOf file).types ++ (partsOf file).references ++ (partsOf file).names =
      bytesOf (layout file) := by
    simp only [partsOf, layout, mapOf, headerArea, Nat.reduceSub, bytesOf_append,
      ByteArray.append_assoc]
  rw [hbytes]
  rfl

end ResourceAssembler.Container.Extended
