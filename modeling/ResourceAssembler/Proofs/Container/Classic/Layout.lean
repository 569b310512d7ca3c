import ResourceAssembler.Proofs.Container.Fork
import ResourceAssembler.Proofs.Outcome
import ResourceAssembler.Container.Classic

/-!
# What a classic fork consists of

The four buffers of a fork grow in step. Written out as one row of blocks, a fork is its header, the
data, and a map of type list, references and names, and it is written exactly when every number in
it fits its field.
-/

namespace ResourceAssembler.Container.Classic

open Fork Outcome

/-- A reference to data and a name at the given offsets. -/
def reference (dataAt nameAt : Nat) (resource : Resource) : List UInt8 :=
  Word.big 2 (Word.complement 2 resource.id.toInt) ++
    Word.big 2 (nameOffset noName nameAt resource) ++ [0] ++ Word.big 3 dataAt ++ Word.big 4 0

@[simp] theorem length_reference (dataAt nameAt : Nat) (resource : Resource) :
    (reference dataAt nameAt resource).length = referenceEntry := by
  simp [reference, referenceEntry]

/-- A name that goes to `nameAt` can be written there. -/
def NameFits (nameAt : Nat) (resource : Resource) : Prop :=
  resource.name.isEmpty = false → nameAt < noName ∧ resource.name.toUTF8.size ≤ 255

/-- A resource can be written with its data and its name at the given offsets. -/
structure Fits (dataAt nameAt : Nat) (resource : Resource) : Prop where
  id : idFits resource.id = true
  name : NameFits nameAt resource
  offset : dataAt ≤ maxDataOffset
  length : resource.data.size < 0x100000000

/-- A count less one, in 16 bits. -/
def lessOne (count : Nat) : Nat :=
  (count + 0xFFFF) % 0x10000

/-- The entry of a group whose references start at `offset`. -/
def entry (offset : Nat) (group : ResourceGroup) : List UInt8 :=
  group.code.bytes ++ Word.big 2 (lessOne group.resources.length) ++ Word.big 2 offset

@[simp] theorem length_entry (offset : Nat) (group : ResourceGroup) :
    (entry offset group).length = typeEntry := by
  simp [entry, typeEntry]

/-- A group can be entered into the type list with its references at `offset`. -/
structure EntryFits (offset : Nat) (group : ResourceGroup) : Prop where
  count : group.resources.length ≤ 0x10000
  offset : offset < 0x10000

theorem word_eq_ok_iff {n m : Nat} {field : String} :
    word n field = .ok m ↔ n < 0x10000 ∧ m = n := by
  by_cases h : n < 0x10000
  · simp [word, h, eq_comm]
  · simp [word, h]

theorem storedCount_eq_ok_iff {n m : Nat} {kind : String} :
    storedCount n kind = .ok m ↔ n ≤ 0x10000 ∧ m = lessOne n := by
  by_cases h : n ≤ 0x10000
  · simp [storedCount, lessOne, h, eq_comm]
  · simp [storedCount, h]

theorem addName_eq_ok_iff {names after : ByteArray} {code : TypeCode} {resource : Resource}
    {offset : Nat} :
    addName names code resource = .ok (offset, after) ↔
      NameFits names.size resource ∧ offset = nameOffset noName names.size resource ∧
        after = names ++ bytesOf (nameBlock resource) := by
  cases h : resource.name.isEmpty with
  | true => simp [addName, NameFits, nameOffset, nameBlock, h, eq_comm]
  | false =>
      simp only [addName, NameFits, nameOffset, nameBlock, h, Bool.false_eq_true, if_false,
        throw_bind, bind_eq_ok_iff, guard_eq_ok_iff, word_eq_ok_iff, countedName_eq_ok_iff,
        pure_eq_ok_iff, Prod.mk.injEq, forall_const]
      constructor
      · rintro ⟨_, ⟨hword, rfl⟩, hfree, _, ⟨hlength, rfl⟩, rfl, rfl⟩
        exact ⟨⟨by simp only [noName] at hfree ⊢; omega, hlength⟩, rfl, rfl⟩
      · rintro ⟨⟨hfree, hlength⟩, rfl, rfl⟩
        simp only [noName] at hfree
        exact ⟨_, ⟨by omega, rfl⟩, by simp only [noName]; omega, _, ⟨hlength, rfl⟩, rfl, rfl⟩

/-- The parts after the given resources. -/
def Parts.addAll (parts : Parts) (resources : List Resource) : Parts where
  data := parts.data ++ bytesOf (dataOf 4 resources)
  types := parts.types
  references := parts.references ++
    bytesOf (referencesOf 4 reference parts.data.size parts.names.size resources)
  names := parts.names ++ bytesOf (namesOf resources)

theorem Parts.addAll_nil (parts : Parts) : parts.addAll [] = parts := by
  simp [addAll, dataOf, referencesOf, namesOf]

theorem Parts.addAll_append (parts : Parts) (first second : List Resource) :
    (parts.addAll first).addAll second = parts.addAll (first ++ second) := by
  simp [addAll, referencesOf_append, bytesOf_append, ByteArray.append_assoc]

theorem addResource_eq_ok_iff {code : TypeCode} {parts after : Parts} {resource : Resource} :
    addResource code parts resource = .ok after ↔
      Fits parts.data.size parts.names.size resource ∧ after = parts.addAll [resource] := by
  have hafter : parts.addAll [resource] =
      { parts with
        data := parts.data ++ bytesOf (Word.big 4 resource.data.size) ++ resource.data
        references := parts.references ++
          bytesOf (reference parts.data.size parts.names.size resource)
        names := parts.names ++ bytesOf (nameBlock resource) } := by
    simp [Parts.addAll, dataOf, referencesOf, namesOf, counted, bytesOf_append,
      ByteArray.append_assoc]
  simp only [addResource, throw_bind, bind_eq_ok_iff, guard_eq_ok_iff, pure_eq_ok_iff, Prod.exists,
    addName_eq_ok_iff, hafter]
  constructor
  · rintro ⟨hid, _, _, ⟨hname, rfl, rfl⟩, hoffset, hlength, rfl⟩
    exact ⟨⟨by simpa using hid, hname, by omega, by omega⟩, rfl⟩
  · rintro ⟨⟨hid, hname, hoffset, hlength⟩, rfl⟩
    exact ⟨by simp [hid], _, _, ⟨hname, rfl, rfl⟩, by omega, by omega, rfl⟩

/-- The resources of a group are written exactly when each fits where it goes. -/
theorem foldlM_addResource_eq_ok_iff {code : TypeCode} {resources : List Resource}
    {parts after : Parts} :
    resources.foldlM (addResource code) parts = .ok after ↔
      Fit 4 Fits parts.data.size parts.names.size resources ∧ after = parts.addAll resources := by
  induction resources generalizing parts with
  | nil => simp only [List.foldlM_nil, pure_eq_ok_iff, Fit, Parts.addAll_nil, true_and]
  | cons resource rest ih =>
      have hrow : parts.addAll (resource :: rest) = (parts.addAll [resource]).addAll rest := by
        rw [Parts.addAll_append, List.singleton_append]
      simp only [List.foldlM_cons, bind_eq_ok_iff, addResource_eq_ok_iff, ih, Fit, hrow]
      constructor
      · rintro ⟨_, ⟨hfirst, rfl⟩, hrest, rfl⟩
        exact ⟨⟨hfirst, by simpa [Parts.addAll, dataOf, namesOf] using hrest⟩, rfl⟩
      · rintro ⟨⟨hfirst, hrest⟩, rfl⟩
        exact ⟨_, ⟨hfirst, rfl⟩, by simpa [Parts.addAll, dataOf, namesOf] using hrest, rfl⟩

/-- The parts with more entries in the type list. -/
def Parts.addTypes (parts : Parts) (bytes : List UInt8) : Parts :=
  { parts with types := parts.types ++ bytesOf bytes }

theorem addGroup_eq_ok_iff {offset : Nat} {parts after : Parts} {group : ResourceGroup} :
    addGroup offset parts group = .ok after ↔
      EntryFits offset group ∧ Fit 4 Fits parts.data.size parts.names.size group.resources ∧
        after = (parts.addTypes (entry offset group)).addAll group.resources := by
  simp only [addGroup, bind_eq_ok_iff, storedCount_eq_ok_iff, word_eq_ok_iff,
    foldlM_addResource_eq_ok_iff, and_assoc, exists_and_left, exists_eq_left]
  constructor
  · rintro ⟨hcount, hoffset, hfit, rfl⟩
    exact ⟨⟨hcount, hoffset⟩, hfit, rfl⟩
  · rintro ⟨⟨hcount, hoffset⟩, hfit, rfl⟩
    exact ⟨hcount, hoffset, hfit, rfl⟩

/-- The groups of a file are written exactly when every entry fits and every resource does. -/
theorem addGroups_eq_ok_iff {groups : List ResourceGroup} {offset : Nat} {parts after : Parts} :
    addGroups offset parts groups = .ok after ↔
      EntriesFit referenceEntry EntryFits offset groups ∧
        Fit 4 Fits parts.data.size parts.names.size (groups.flatMap (·.resources)) ∧
        after = (parts.addTypes (entriesOf referenceEntry entry offset groups)).addAll
          (groups.flatMap (·.resources)) := by
  induction groups generalizing offset parts with
  | nil =>
      simp [addGroups, EntriesFit, Fit, entriesOf, numbered, Parts.addTypes, Parts.addAll_nil,
        eq_comm]
  | cons group rest ih =>
      have hrow : (parts.addTypes (entriesOf referenceEntry entry offset (group :: rest))).addAll
            ((group :: rest).flatMap (·.resources)) =
          (((parts.addTypes (entry offset group)).addAll group.resources).addTypes
              (entriesOf referenceEntry entry
                (offset + referenceEntry * group.resources.length) rest)).addAll
            (rest.flatMap (·.resources)) := by
        simp [Parts.addAll, Parts.addTypes, entriesOf_cons, referencesOf_append, bytesOf_append,
          ByteArray.append_assoc]
      simp only [addGroups, bind_eq_ok_iff, addGroup_eq_ok_iff, ih, EntriesFit, List.flatMap_cons,
        fit_append]
      rw [← List.flatMap_cons, hrow]
      constructor
      · rintro ⟨_, ⟨hentry, hfirst, rfl⟩, hentries, hrest, rfl⟩
        exact ⟨⟨hentry, hentries⟩,
          ⟨hfirst, by simpa [Parts.addAll, Parts.addTypes] using hrest⟩, rfl⟩
      · rintro ⟨⟨hentry, hentries⟩, ⟨hfirst, hrest⟩, rfl⟩
        exact ⟨_, ⟨hentry, hfirst, rfl⟩, hentries,
          by simpa [Parts.addAll, Parts.addTypes] using hrest, rfl⟩

/-- The type list of a file. -/
def typeList (file : ResourceFile) : List UInt8 :=
  Word.big 2 (lessOne file.groupCount) ++
    entriesOf referenceEntry entry (2 + typeEntry * file.groupCount) file.groups

/-- The references of a file. -/
def referenceLists (file : ResourceFile) : List UInt8 :=
  referencesOf 4 reference 0 0 file.resources

/-- Where the names of a file start in its map. -/
def namesAt (file : ResourceFile) : Nat :=
  mapHeader + (typeList file).length + (referenceLists file).length

/-- Behind the fixed part of a map, a type takes eight bytes and a resource twelve. -/
theorem namesAt_eq (file : ResourceFile) :
    namesAt file = 30 + 8 * file.groupCount + 12 * file.resourceCount := by
  have htypes : (typeList file).length = 2 + typeEntry * file.groupCount := by
    rw [typeList, List.length_append, Word.length_big, length_entriesOf length_entry,
      ResourceFile.groupCount]
  have hreferences : (referenceLists file).length = referenceEntry * file.resourceCount :=
    length_referencesOf length_reference file.resources 0 0
  rw [namesAt, htypes, hreferences, mapHeader, typeEntry, referenceEntry]
  omega

/-- The length of the map of a file. -/
def mapLength (file : ResourceFile) : Nat :=
  namesAt file + (namesOf file.resources).length

/-- The length of the data of a file. -/
def dataLength (file : ResourceFile) : Nat :=
  (dataOf 4 file.resources).length

/-- The four numbers at the start of a fork and of its map. -/
def headerWords (file : ResourceFile) : List UInt8 :=
  Word.big 4 headerArea ++ Word.big 4 (headerArea + dataLength file) ++
    Word.big 4 (dataLength file) ++ Word.big 4 (mapLength file)

/-- The map of a file. -/
def mapOf (file : ResourceFile) : List UInt8 :=
  headerWords file ++ Word.big 4 0 ++ Word.big 2 0 ++ Word.big 2 0 ++ Word.big 2 mapHeader ++
    Word.big 2 (namesAt file) ++ typeList file ++ referenceLists file ++ namesOf file.resources

/-- The fork of a file. -/
def layout (file : ResourceFile) : List UInt8 :=
  headerWords file ++ List.replicate 240 0 ++ dataOf 4 file.resources ++ mapOf file

/-- All numbers of the fork of a file fit their fields. -/
structure FileFits (file : ResourceFile) : Prop where
  count : file.groupCount ≤ 0x10000
  entries : EntriesFit referenceEntry EntryFits (2 + typeEntry * file.groupCount) file.groups
  resources : Fit 4 Fits 0 0 file.resources
  names : namesAt file < 0x10000
  data : headerArea + dataLength file < 0x100000000
  map : mapLength file < 0x100000000

@[simp] theorem length_headerWords (file : ResourceFile) : (headerWords file).length = 16 := by
  simp [headerWords]

theorem length_mapOf (file : ResourceFile) : (mapOf file).length = mapLength file := by
  simp [mapOf, mapLength, namesAt, mapHeader]
  omega

theorem header_eq_ok_iff {dataLength mapLength : Nat} {words : List UInt8} :
    header dataLength mapLength = .ok words ↔
      headerArea + dataLength < 0x100000000 ∧ mapLength < 0x100000000 ∧
        words = Word.big 4 headerArea ++ Word.big 4 (headerArea + dataLength) ++
          Word.big 4 dataLength ++ Word.big 4 mapLength := by
  simp only [header, throw_bind, guard_eq_ok_iff, pure_eq_ok_iff]
  have hany : ¬([headerArea, headerArea + dataLength, dataLength, mapLength].any
        (· ≥ 0x100000000)) = true ↔
      headerArea + dataLength < 0x100000000 ∧ mapLength < 0x100000000 := by
    simp [headerArea]
    omega
  rw [hany, and_assoc]
  simp

/-- All four buffers of a file. -/
def partsOf (file : ResourceFile) : Parts where
  data := bytesOf (dataOf 4 file.resources)
  types := bytesOf (typeList file)
  references := bytesOf (referenceLists file)
  names := bytesOf (namesOf file.resources)

theorem addGroups_start_eq_ok_iff {file : ResourceFile} {parts : Parts} :
    addGroups (2 + typeEntry * file.groupCount)
        { types := bytesOf (Word.big 2 (lessOne file.groupCount)) } file.groups = .ok parts ↔
      EntriesFit referenceEntry EntryFits (2 + typeEntry * file.groupCount) file.groups ∧
        Fit 4 Fits 0 0 file.resources ∧ parts = partsOf file := by
  have hparts : (Parts.addTypes { types := bytesOf (Word.big 2 (lessOne file.groupCount)) }
        (entriesOf referenceEntry entry (2 + typeEntry * file.groupCount) file.groups)).addAll
          (file.groups.flatMap (·.resources)) = partsOf file := by
    simp [Parts.addTypes, Parts.addAll, partsOf, typeList, referenceLists,
      ResourceFile.resources, bytesOf_append]
  rw [addGroups_eq_ok_iff, hparts]
  rfl

/-- A classic fork is written exactly when all its numbers fit, and then it is the layout of its
file. -/
theorem encode_eq_ok_iff {file : ResourceFile} {bytes : ByteArray} :
    encode file = .ok bytes ↔ FileFits file ∧ bytes = bytesOf (layout file) := by
  have hnames : mapHeader + (partsOf file).types.size + (partsOf file).references.size =
      namesAt file := by
    simp [partsOf, namesAt]
  have hmap : namesAt file + (partsOf file).names.size = mapLength file := by
    simp [partsOf, mapLength]
  have hdata : (partsOf file).data.size = dataLength file := by
    simp [partsOf, dataLength]
  simp only [encode, bind_eq_ok_iff, pure_eq_ok_iff, storedCount_eq_ok_iff,
    addGroups_start_eq_ok_iff, word_eq_ok_iff, header_eq_ok_iff, and_assoc, exists_and_left,
    exists_eq_left, hnames, hmap, hdata]
  rw [← headerWords, length_headerWords]
  have hbytes : bytesOf (headerWords file ++ List.replicate (headerArea - 16) 0) ++
        (partsOf file).data ++
        bytesOf (headerWords file ++ Word.big 4 0 ++ Word.big 2 0 ++ Word.big 2 0 ++
          Word.big 2 mapHeader ++ Word.big 2 (namesAt file)) ++
        (partsOf file).types ++ (partsOf file).references ++ (partsOf file).names =
      bytesOf (layout file) := by
    simp only [partsOf, layout, mapOf, headerArea, Nat.reduceSub, bytesOf_append,
      ByteArray.append_assoc]
  rw [hbytes]
  constructor
  · rintro ⟨hcount, hentries, hresources, hnames, hdata, hmap, hbytes⟩
    exact ⟨⟨hcount, hentries, hresources, hnames, hdata, hmap⟩, hbytes⟩
  · rintro ⟨⟨hcount, hentries, hresources, hnames, hdata, hmap⟩, hbytes⟩
    exact ⟨hcount, hentries, hresources, hnames, hdata, hmap, hbytes⟩

end ResourceAssembler.Container.Classic
