import ResourceAssembler.Proofs.Container.Measures
import ResourceAssembler.Proofs.Outcome
import ResourceAssembler.Container.Rez

/-!
# What a rez archive consists of

An archive is its header, the index, the data of all resources and the map. The writer checks many
numbers on its way, but none of them can be greater than the length of the whole: an archive is
written exactly when its ids and names fit and it has fewer than 2 ^ 32 bytes.
-/

namespace ResourceAssembler.Container.Rez

open Outcome

/-- The map can hold the id and the name of a resource. -/
structure Fits (resource : Resource) : Prop where
  id : idFits resource.id = true
  name : resource.name.toUTF8.size ≤ 255

/-- The map's record of a resource whose data is the entry of the given number. -/
def record (number : Nat) (resource : Resource) : List UInt8 :=
  Word.big 4 (Word.complement 4 resource.id.toInt) ++ Word.big 4 number ++
    counted 1 resource.name.toUTF8

/-- The records of resources whose data are the entries from `first` on. -/
def recordsOf (first : Nat) (resources : List Resource) : List UInt8 :=
  (numbered (fun _ => 1) record first resources).flatten

/-- The map's record of a group, with those of its resources. -/
def groupRecord (first : Nat) (group : ResourceGroup) : List UInt8 :=
  group.code.bytes ++ Word.big 4 group.resources.length ++ recordsOf first group.resources

/-- The records of groups, the data of whose resources are the entries from `first` on. -/
def groupRecordsOf (first : Nat) (groups : List ResourceGroup) : List UInt8 :=
  (numbered (·.resources.length) groupRecord first groups).flatten

/-- The map of a file. -/
def mapOf (file : ResourceFile) : List UInt8 :=
  Word.big 4 file.groupCount ++ groupRecordsOf 0 file.groups

/-- The entries of a file. -/
def entriesOf (file : ResourceFile) : List ByteArray :=
  file.resources.map (·.data) ++ [bytesOf (mapOf file)]

/-- The index entry of an entry that starts at `offset`. -/
def indexRecord (offset : Nat) (entry : ByteArray) : List UInt8 :=
  Word.little 4 offset ++ Word.little 4 entry.size

@[simp] theorem length_indexRecord (offset : Nat) (entry : ByteArray) :
    (indexRecord offset entry).length = indexEntry := by
  simp [indexRecord, indexEntry]

/-- The index of entries, the first of which starts at `offset`. -/
def indexOf (offset : Nat) (entries : List ByteArray) : List UInt8 :=
  (numbered ByteArray.size indexRecord offset entries).flatten

/-- The bytes of entries, one entry behind the other. -/
def payload (entries : List ByteArray) : List UInt8 :=
  entries.flatMap octets

/-- The header of an archive of `count` entries. -/
def headerOf (count : Nat) : List UInt8 :=
  magic ++ Word.little 4 version ++ Word.little 4 indexOffset ++ Word.little 4 count

@[simp] theorem length_headerOf (count : Nat) : (headerOf count).length = indexOffset := by
  simp [headerOf, magic, indexOffset]

/-- Where the entries of a file start. -/
def payloadAt (file : ResourceFile) : Nat :=
  indexOffset + indexEntry * (entriesOf file).length

/-- The archive of a file. -/
def layout (file : ResourceFile) : List UInt8 :=
  headerOf (entriesOf file).length ++ indexOf (payloadAt file) (entriesOf file) ++
    payload (entriesOf file)

@[simp] theorem length_entriesOf (file : ResourceFile) :
    (entriesOf file).length = file.resourceCount + 1 := by
  simp [entriesOf, ResourceFile.resources, ResourceFile.resourceCount]

@[simp] theorem payload_cons (entry : ByteArray) (rest : List ByteArray) :
    payload (entry :: rest) = octets entry ++ payload rest := by
  simp [payload]

@[simp] theorem indexOf_cons (offset : Nat) (entry : ByteArray) (rest : List ByteArray) :
    indexOf offset (entry :: rest) =
      indexRecord offset entry ++ indexOf (offset + entry.size) rest := by
  simp [indexOf, numbered]

theorem length_indexOf (offset : Nat) (entries : List ByteArray) :
    (indexOf offset entries).length = indexEntry * entries.length := by
  rw [indexOf, length_flatten_numbered length_indexRecord, total_const]

theorem length_layout (file : ResourceFile) :
    (layout file).length = payloadAt file + (payload (entriesOf file)).length := by
  rw [layout, List.length_append, List.length_append, length_headerOf, length_indexOf, payloadAt]

theorem length_payload_entriesOf (file : ResourceFile) :
    (payload (entriesOf file)).length =
      (payload (file.resources.map (·.data))).length + (mapOf file).length := by
  simp [payload, entriesOf]

theorem length_record (number : Nat) (resource : Resource) :
    (record number resource).length = 9 + resource.name.toUTF8.size := by
  simp only [record, List.length_append, Word.length_big, length_counted]
  omega

/-- A group takes eight bytes of the map, and each of its resources nine and its name. -/
theorem length_groupRecord (first : Nat) (group : ResourceGroup) :
    (groupRecord first group).length =
      8 + total (fun resource => 9 + resource.name.toUTF8.size) group.resources := by
  rw [groupRecord, List.length_append, List.length_append, TypeCode.length_bytes, Word.length_big,
    recordsOf, length_flatten_numbered length_record]

theorem length_mapOf (file : ResourceFile) :
    (mapOf file).length =
      4 + 8 * file.groupCount + 9 * file.resourceCount + nameBytes file.resources := by
  have hgroups : (groupRecordsOf 0 file.groups).length = 8 * file.groups.length +
      (9 * file.resources.length + nameBytes file.resources) := by
    rw [groupRecordsOf, length_flatten_numbered length_groupRecord, total_add, total_const,
      ← total_flatMap, total_add, total_const]
    rfl
  have hresources : file.resources.length = file.resourceCount := rfl
  rw [mapOf, List.length_append, Word.length_big, hgroups, hresources, ResourceFile.groupCount]
  omega

/-- The length of the archive of a file: 28 bytes, 17 for a resource beside its name and its
data, and eight for a type. -/
def archiveLength (file : ResourceFile) : Nat :=
  28 + 17 * file.resourceCount + 8 * file.groupCount + nameBytes file.resources +
    payloadBytes file.resources

theorem length_layout_eq (file : ResourceFile) : (layout file).length = archiveLength file := by
  have hpayload : (payload (file.resources.map (·.data))).length =
      payloadBytes file.resources := by
    rw [payload, ← total_length, total_map]
    simp only [length_octets]
    rfl
  rw [length_layout, length_payload_entriesOf, hpayload, length_mapOf, payloadAt,
    length_entriesOf, indexOffset, indexEntry, archiveLength]
  omega

/-- The numbers from `first` on, `count` of them, fit 32 bits. -/
def Room (first count : Nat) : Prop :=
  count = 0 ∨ first + count ≤ 0x100000000

theorem room_succ {first count : Nat} :
    Room first (count + 1) ↔ first < 0x100000000 ∧ Room (first + 1) count := by
  simp only [Room]
  omega

theorem room_add {first count more : Nat} :
    Room first (count + more) ↔ Room first count ∧ Room (first + count) more := by
  simp only [Room]
  omega

theorem long_eq_ok_iff {n m : Nat} : long n = .ok m ↔ n < 0x100000000 ∧ m = n := by
  by_cases h : n < 0x100000000
  · simp [long, h, eq_comm]
  · simp [long, h]

/-- The parts after the given resources. -/
def Parts.addAll (parts : Parts) (resources : List Resource) : Parts where
  map := parts.map ++ bytesOf (recordsOf parts.entries resources)
  entries := parts.entries + resources.length

theorem Parts.addAll_nil (parts : Parts) : parts.addAll [] = parts := by
  simp [addAll, recordsOf, numbered]

theorem Parts.addAll_cons (parts : Parts) (resource : Resource) (rest : List Resource) :
    parts.addAll (resource :: rest) = (parts.addAll [resource]).addAll rest := by
  have hentries : parts.entries + (rest.length + 1) = parts.entries + 1 + rest.length := by omega
  simp [addAll, recordsOf, numbered, bytesOf_append, ByteArray.append_assoc, hentries]

theorem addResource_eq_ok_iff {code : TypeCode} {parts after : Parts} {resource : Resource} :
    addResource code parts resource = .ok after ↔
      Fits resource ∧ parts.entries < 0x100000000 ∧ after = parts.addAll [resource] := by
  have hafter : parts.addAll [resource] =
      { map := parts.map ++ bytesOf (Word.big 4 (Word.complement 4 resource.id.toInt) ++
          Word.big 4 parts.entries) ++ bytesOf (counted 1 resource.name.toUTF8)
        entries := parts.entries + 1 } := by
    simp [Parts.addAll, recordsOf, numbered, record, bytesOf_append, ByteArray.append_assoc]
  simp only [addResource, throw_bind, bind_eq_ok_iff, guard_eq_ok_iff, pure_eq_ok_iff,
    long_eq_ok_iff, countedName_eq_ok_iff, hafter]
  constructor
  · rintro ⟨hid, _, ⟨hentries, rfl⟩, _, ⟨hname, rfl⟩, rfl⟩
    exact ⟨⟨by simpa using hid, hname⟩, hentries, rfl⟩
  · rintro ⟨⟨hid, hname⟩, hentries, rfl⟩
    exact ⟨by simp [hid], _, ⟨hentries, rfl⟩, _, ⟨hname, rfl⟩, rfl⟩

/-- The resources of a group are written exactly when each fits and there are numbers for their
entries. -/
theorem foldlM_addResource_eq_ok_iff {code : TypeCode} {resources : List Resource}
    {parts after : Parts} :
    resources.foldlM (addResource code) parts = .ok after ↔
      (∀ resource ∈ resources, Fits resource) ∧ Room parts.entries resources.length ∧
        after = parts.addAll resources := by
  induction resources generalizing parts with
  | nil => simp [pure_eq_ok_iff, Parts.addAll_nil, Room]
  | cons resource rest ih =>
      simp only [List.foldlM_cons, bind_eq_ok_iff, addResource_eq_ok_iff, ih,
        Parts.addAll_cons parts resource rest, List.forall_mem_cons, List.length_cons, room_succ]
      constructor
      · rintro ⟨_, ⟨hfirst, hentries, rfl⟩, hrest, hroom, rfl⟩
        exact ⟨⟨hfirst, hrest⟩, ⟨hentries, hroom⟩, rfl⟩
      · rintro ⟨⟨hfirst, hrest⟩, ⟨hentries, hroom⟩, rfl⟩
        exact ⟨_, ⟨hfirst, hentries, rfl⟩, hrest, hroom, rfl⟩

/-- The parts after the given groups. -/
def Parts.addGroups (parts : Parts) (groups : List ResourceGroup) : Parts where
  map := parts.map ++ bytesOf (groupRecordsOf parts.entries groups)
  entries := parts.entries + (groups.flatMap (·.resources)).length

theorem Parts.addGroups_cons (parts : Parts) (group : ResourceGroup) (rest : List ResourceGroup) :
    parts.addGroups (group :: rest) = (parts.addGroups [group]).addGroups rest := by
  simp [addGroups, groupRecordsOf, numbered, bytesOf_append, ByteArray.append_assoc, Nat.add_assoc]

theorem addGroup_eq_ok_iff {parts after : Parts} {group : ResourceGroup} :
    addGroup parts group = .ok after ↔
      group.resources.length < 0x100000000 ∧ (∀ resource ∈ group.resources, Fits resource) ∧
        Room parts.entries group.resources.length ∧ after = parts.addGroups [group] := by
  have hafter : parts.addGroups [group] =
      ({ parts with map := parts.map ++ bytesOf (group.code.bytes ++
          Word.big 4 group.resources.length) } : Parts).addAll group.resources := by
    simp [Parts.addGroups, Parts.addAll, groupRecordsOf, numbered, groupRecord, bytesOf_append,
      ByteArray.append_assoc]
  simp only [addGroup, bind_eq_ok_iff, long_eq_ok_iff, foldlM_addResource_eq_ok_iff, hafter,
    and_assoc, exists_and_left, exists_eq_left]

/-- The groups of a file are written exactly when every resource fits, no group has too many of them
and there are numbers for all entries. -/
theorem foldlM_addGroup_eq_ok_iff {groups : List ResourceGroup} {parts after : Parts} :
    groups.foldlM addGroup parts = .ok after ↔
      (∀ group ∈ groups, group.resources.length < 0x100000000) ∧
        (∀ resource ∈ groups.flatMap (·.resources), Fits resource) ∧
        Room parts.entries (groups.flatMap (·.resources)).length ∧
        after = parts.addGroups groups := by
  induction groups generalizing parts with
  | nil => simp [pure_eq_ok_iff, Parts.addGroups, groupRecordsOf, numbered, Room]
  | cons group rest ih =>
      have hentries : (parts.addGroups [group]).entries =
          parts.entries + group.resources.length := by
        simp [Parts.addGroups]
      simp only [List.foldlM_cons, bind_eq_ok_iff, addGroup_eq_ok_iff, ih,
        Parts.addGroups_cons parts group rest, List.flatMap_cons, List.forall_mem_append,
        List.forall_mem_cons, List.length_append, room_add]
      constructor
      · rintro ⟨_, ⟨hcount, hfirst, hroom, rfl⟩, hcounts, hrest, hrooms, rfl⟩
        rw [hentries] at hrooms
        exact ⟨⟨hcount, hcounts⟩, ⟨hfirst, hrest⟩, ⟨hroom, hrooms⟩, rfl⟩
      · rintro ⟨⟨hcount, hcounts⟩, ⟨hfirst, hrest⟩, ⟨hroom, hrooms⟩, rfl⟩
        rw [← hentries] at hrooms
        exact ⟨_, ⟨hcount, hfirst, hroom, rfl⟩, hcounts, hrest, hrooms, rfl⟩

/-- The numbers of a map that is written fit their fields. -/
structure MapFits (file : ResourceFile) : Prop where
  groupCount : file.groupCount < 0x100000000
  counts : ∀ group ∈ file.groups, group.resources.length < 0x100000000
  resources : ∀ resource ∈ file.resources, Fits resource
  entries : Room 0 file.resourceCount

theorem map_eq_ok_iff {file : ResourceFile} {bytes : ByteArray} :
    map file = .ok bytes ↔ MapFits file ∧ bytes = bytesOf (mapOf file) := by
  have hmap : (Parts.addGroups { map := bytesOf (Word.big 4 file.groupCount), entries := 0 }
      file.groups).map = bytesOf (mapOf file) := by
    simp [Parts.addGroups, mapOf, bytesOf_append]
  simp only [map, bind_eq_ok_iff, long_eq_ok_iff, foldlM_addGroup_eq_ok_iff, pure_eq_ok_iff]
  constructor
  · rintro ⟨_, ⟨hgroups, rfl⟩, _, ⟨hcounts, hresources, hroom, rfl⟩, rfl⟩
    exact ⟨⟨hgroups, hcounts, hresources, hroom⟩, hmap⟩
  · rintro ⟨⟨hgroups, hcounts, hresources, hroom⟩, rfl⟩
    exact ⟨_, ⟨hgroups, rfl⟩, _, ⟨hcounts, hresources, hroom, rfl⟩, hmap.symm⟩

/-- An index is written up to an end within 32 bits exactly when its entries end there. -/
theorem index_eq_ok_iff {entries : List ByteArray} {offset stop : Nat}
    {written after : ByteArray} :
    index offset written entries = .ok (after, stop) ∧ stop < 0x100000000 ↔
      offset + (payload entries).length < 0x100000000 ∧
        after = written ++ bytesOf (indexOf offset entries) ∧
        stop = offset + (payload entries).length := by
  induction entries generalizing offset written with
  | nil =>
      simp only [index, Except.ok.injEq, Prod.mk.injEq, payload, List.flatMap_nil, List.length_nil,
        indexOf, numbered, List.flatten_nil, bytesOf_nil, ByteArray.append_empty, Nat.add_zero]
      constructor
      · rintro ⟨⟨rfl, rfl⟩, hstop⟩
        exact ⟨hstop, rfl, rfl⟩
      · rintro ⟨hstop, rfl, rfl⟩
        exact ⟨⟨rfl, rfl⟩, hstop⟩
  | cons entry rest ih =>
      have hwritten : written ++ bytesOf (Word.little 4 offset ++ Word.little 4 entry.size) ++
            bytesOf (indexOf (offset + entry.size) rest) =
          written ++ bytesOf (indexOf offset (entry :: rest)) := by
        simp [indexRecord, bytesOf_append, ByteArray.append_assoc]
      have hlength : (payload (entry :: rest)).length = entry.size + (payload rest).length := by
        simp
      have hstep : index (offset + entry.size)
            (written ++ bytesOf (Word.little 4 offset ++ Word.little 4 entry.size)) rest =
              .ok (after, stop) ∧ stop < 0x100000000 ↔
          offset + (payload (entry :: rest)).length < 0x100000000 ∧
            after = written ++ bytesOf (indexOf offset (entry :: rest)) ∧
            stop = offset + (payload (entry :: rest)).length := by
        rw [ih, hwritten, Nat.add_assoc, ← hlength]
      simp only [index, bind_eq_ok_iff, long_eq_ok_iff]
      constructor
      · rintro ⟨⟨_, ⟨-, rfl⟩, _, ⟨-, rfl⟩, hrest⟩, hstop⟩
        exact hstep.mp ⟨hrest, hstop⟩
      · intro h
        obtain ⟨hrest, hstop⟩ := hstep.mpr h
        have hroom := h.1
        rw [hlength] at hroom
        exact ⟨⟨_, ⟨by omega, rfl⟩, _, ⟨by omega, rfl⟩, hrest⟩, hstop⟩

/-- A file whose archive has fewer than 2 ^ 32 bytes has no number that is too great for its map. -/
theorem mapFits_of_length_lt {file : ResourceFile}
    (hresources : ∀ resource ∈ file.resources, Fits resource)
    (hlength : (layout file).length < 0x100000000) : MapFits file := by
  rw [length_layout_eq, archiveLength] at hlength
  constructor
  · omega
  · intro group hgroup
    have hcount := length_resources_le hgroup
    rw [ResourceFile.resourceCount] at hlength
    omega
  · exact hresources
  · right
    omega

theorem foldl_append (entries : List ByteArray) (start : ByteArray) :
    entries.foldl (· ++ ·) start = start ++ bytesOf (payload entries) := by
  induction entries generalizing start with
  | nil => simp [payload]
  | cons entry rest ih =>
      rw [List.foldl_cons, ih, payload_cons, bytesOf_append, bytesOf_octets, ByteArray.append_assoc]

/-- An archive is written exactly when every id and every name fits and it has fewer than 2 ^ 32
bytes, and then it is the layout of its file. -/
theorem encode_eq_ok_iff {file : ResourceFile} {bytes : ByteArray} :
    encode file = .ok bytes ↔
      (∀ resource ∈ file.resources, Fits resource) ∧ (layout file).length < 0x100000000 ∧
        bytes = bytesOf (layout file) := by
  have hentries : file.groups.flatMap (·.resources.map (·.data)) ++ [bytesOf (mapOf file)] =
      entriesOf file := by
    rw [entriesOf, ResourceFile.resources, List.map_flatMap]
  have hbytes : bytesOf (headerOf (entriesOf file).length) ++
        bytesOf (indexOf (payloadAt file) (entriesOf file)) ++ bytesOf (payload (entriesOf file)) =
      bytesOf (layout file) := by
    rw [layout, bytesOf_append, bytesOf_append]
  simp only [encode, bind_eq_ok_iff, pure_eq_ok_iff, long_eq_ok_iff, map_eq_ok_iff, Prod.exists,
    foldl_append, and_assoc, exists_and_left, exists_eq_left, hentries]
  rw [← headerOf, ← payloadAt]
  constructor
  · rintro ⟨hmap, -, index, stop, hindex, hstop, rfl⟩
    obtain ⟨hlength, rfl, rfl⟩ := index_eq_ok_iff.mp ⟨hindex, hstop⟩
    rw [← length_layout] at hlength
    exact ⟨hmap.resources, hlength, hbytes⟩
  · rintro ⟨hresources, hlength, rfl⟩
    have hmap := mapFits_of_length_lt hresources hlength
    rw [length_layout] at hlength
    obtain ⟨hindex, hstop⟩ := index_eq_ok_iff.mpr ⟨hlength, rfl, rfl⟩
    have hcount : (entriesOf file).length < 0x100000000 := by
      rw [payloadAt, indexEntry] at hlength
      omega
    exact ⟨hmap, hcount, _, _, hindex, hstop, hbytes.symm⟩

end ResourceAssembler.Container.Rez
