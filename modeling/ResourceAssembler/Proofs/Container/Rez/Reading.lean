import ResourceAssembler.Proofs.Container.Rez.Layout

/-!
# Reading a rez archive

The reader goes by the layout of an archive alone. The header says where the index is and how many
entries it has, the index where the entries are, and the last entry is the map. The map is a run of
records of different lengths, each of which says by a number which entry holds the data of its
resource. The numbers turn out to be those of the entries in order.
-/

namespace ResourceAssembler.Container.Rez

/-- What the map says of a resource: its id, the number of its entry and its name. -/
structure MapRecord where
  id : Int64
  entry : Nat
  name : String

/-- What the map says of a group. -/
structure MapGroup where
  code : TypeCode
  records : List MapRecord

/-- The entries of an archive and what its map says. -/
structure Archive where
  entries : List ByteArray
  groups : List MapGroup

/-- The numbers by which the map names entries, in the order of the map. -/
def Archive.numbers (archive : Archive) : List Nat :=
  archive.groups.flatMap fun group => group.records.map (·.entry)

/-- The resource that a record of the map describes. -/
def resource? (entries : List ByteArray) (record : MapRecord) : Option Resource := do
  let data ← entries[record.entry]?
  return { id := record.id, name := record.name, data }

/-- The group that the map describes. -/
def group? (entries : List ByteArray) (group : MapGroup) : Option ResourceGroup := do
  let resources ← group.records.mapM (resource? entries)
  return { code := group.code, resources }

/-- The file that the map of an archive describes. -/
def Archive.file? (archive : Archive) : Option ResourceFile := do
  let groups ← archive.groups.mapM (group? archive.entries)
  return { groups }

/-- The record of a resource at an offset of the map, and where it ends. -/
def readRecord (map : List UInt8) (offset : Nat) : Option (MapRecord × Nat) := do
  let id ← big? 4 map offset
  let entry ← big? 4 map (offset + 4)
  let name ← text? map (offset + 8)
  return ({ id := Int64.ofInt (Word.signed 4 id), entry, name }, offset + (9 + name.toUTF8.size))

/-- The record of a group at an offset of the map, and where its last resource ends. -/
def readGroup (map : List UInt8) (offset : Nat) : Option (MapGroup × Nat) := do
  let code ← code? map offset
  let count ← big? 4 map (offset + 4)
  let (records, stop) ← readRun (readRecord map) count (offset + 8)
  return ({ code, records }, stop)

/-- What a map says. Nothing may stand behind its last group. -/
def readMap (map : List UInt8) : Option (List MapGroup) := do
  let count ← big? 4 map 0
  let (groups, stop) ← readRun (readGroup map) count 4
  guard (stop = map.length)
  return groups

/-- The entry whose offset and size stand at a place in the index. -/
def readEntry (bytes : List UInt8) (place : Nat) : Option ByteArray := do
  let offset ← little? 4 bytes place
  let size ← little? 4 bytes (place + 4)
  let entry ← slice? bytes offset size
  return bytesOf entry

/-- The entries of an archive of version 1 and what the last of them, the map, says. -/
def readArchive (archive : ByteArray) : Option Archive := do
  let bytes := octets archive
  let start ← slice? bytes 0 4
  guard (start = [0x42, 0x52, 0x47, 0x52])
  let version ← little? 4 bytes 4
  guard (version = 1)
  let index ← little? 4 bytes 8
  let count ← little? 4 bytes 12
  let entries ← readRow (readEntry bytes) 8 count index
  let map ← entries.getLast?
  let groups ← readMap (octets map)
  return { entries, groups }

/-- The file in a rez archive. -/
def read (archive : ByteArray) : Option ResourceFile := do
  let archive ← readArchive archive
  archive.file?

/-- What the map says of a resource whose data is the entry of the given number. -/
def recordOf (number : Nat) (resource : Resource) : MapRecord where
  id := resource.id
  entry := number
  name := resource.name

/-- What the map says of a group, the data of whose resources are the entries from `first` on. -/
def groupOf (first : Nat) (group : ResourceGroup) : MapGroup where
  code := group.code
  records := numbered (fun _ => 1) recordOf first group.resources

/-- What the map of a file says. -/
def groupsOf (file : ResourceFile) : List MapGroup :=
  numbered (·.resources.length) groupOf 0 file.groups

section Map

variable {map : List UInt8} {n offset : Nat}

/-- Ids that fit four bytes come back with their sign. -/
theorem signed_complement_id {id : Int64} (h : idFits id = true) :
    Int64.ofInt (Word.signed 4 (Word.complement 4 id.toInt)) = id := by
  rw [idFits, Bool.and_eq_true, decide_eq_true_eq, decide_eq_true_eq] at h
  have hspan : (Word.span 4 : Int) = 0x100000000 := rfl
  rw [Word.signed_complement (by omega) (by omega), Int64.ofInt_toInt]

/-- A record is read as what it was written for. -/
theorem readRecord_eq {resource : Resource} (hfits : Fits resource) (hn : n < 0x100000000)
    (h : Holds map offset (record n resource)) :
    readRecord map offset = some (recordOf n resource, offset + (record n resource).length) := by
  have hlength : (record n resource).length = 9 + resource.name.toUTF8.size := by
    simp [record]
    omega
  simp only [record, holds_append, List.length_append, Word.length_big, Nat.reduceAdd] at h
  obtain ⟨⟨hid, hnumber⟩, hname⟩ := h
  simp only [readRecord, Option.bind_eq_bind, Option.bind_eq_some_iff]
  refine ⟨_, hid.big (Word.complement_lt_span 4 _), _, hnumber.big hn, _, hname.text hfits.name, ?_⟩
  rw [signed_complement_id hfits.id, hlength]
  rfl

/-- A group is read as what it was written for. -/
theorem readGroup_eq {group : ResourceGroup}
    (hfits : ∀ resource ∈ group.resources, Fits resource)
    (hn : n + group.resources.length ≤ 0xFFFFFFFF) (h : Holds map offset (groupRecord n group)) :
    readGroup map offset = some (groupOf n group, offset + (groupRecord n group).length) := by
  have hlength : (groupRecord n group).length =
      8 + (recordsOf n group.resources).length := by
    simp [groupRecord]
    omega
  simp only [groupRecord, holds_append, List.length_append, Word.length_big, TypeCode.length_bytes,
    Nat.reduceAdd] at h
  obtain ⟨⟨hcode, hcount⟩, hrecords⟩ := h
  have hrun : readRun (readRecord map) group.resources.length (offset + 8) =
      some (numbered (fun _ => 1) recordOf n group.resources,
        offset + 8 + (recordsOf n group.resources).length) := by
    refine readRun_numbered Fits 0xFFFFFFFF ?_ hfits ?_ hrecords
    · intro number resource place hresource hnumber hrecord
      exact readRecord_eq hresource (by omega) hrecord
    · rw [total_const, Nat.one_mul]
      exact hn
  have hgroupCount : group.resources.length < Word.span 4 := by
    simp only [Word.span]
    omega
  simp only [readGroup, Option.bind_eq_bind, Option.bind_eq_some_iff]
  refine ⟨_, hcode.code, _, hcount.big hgroupCount, _, hrun, ?_⟩
  rw [hlength, ← Nat.add_assoc]
  rfl

end Map

/-- The map of a file is read to its end. -/
theorem readMap_entry {file : ResourceFile} (hfits : ∀ resource ∈ file.resources, Fits resource)
    (hlength : (layout file).length < 0x100000000) :
    readMap (octets (bytesOf (mapOf file))) = some (groupsOf file) := by
  have hgroups := (mapFits_of_length_lt hfits hlength).groupCount
  rw [length_layout, payloadAt, length_entriesOf, indexEntry] at hlength
  rw [octets_bytesOf]
  have hmap := holds_self (mapOf file)
  rw [mapOf, holds_append, Word.length_big, Nat.zero_add, ← mapOf] at hmap
  obtain ⟨hcount, hrecords⟩ := hmap
  have hrun : readRun (readGroup (mapOf file)) file.groupCount 4 =
      some (groupsOf file, 4 + (groupRecordsOf 0 file.groups).length) := by
    refine readRun_numbered (fun group => ∀ resource ∈ group.resources, Fits resource) 0xFFFFFFFF
      ?_ ?_ ?_ hrecords
    · intro number group place hgroup hnumber hrecord
      exact readGroup_eq hgroup hnumber hrecord
    · intro group hgroup resource hresource
      exact hfits resource (List.mem_flatMap.mpr ⟨group, hgroup, hresource⟩)
    · have htotal : total (·.resources.length) file.groups = file.resourceCount :=
        total_length ResourceGroup.resources file.groups
      rw [htotal]
      omega
  have hend : 4 + (groupRecordsOf 0 file.groups).length = (mapOf file).length := by
    simp [mapOf]
  simp only [readMap, Option.bind_eq_bind, Option.bind_eq_some_iff]
  exact ⟨_, hcount.big hgroups, _, hrun, (), if_pos hend, rfl⟩

/-- A reader that understands every record of an index reads the whole index. -/
theorem readRow_records {β : Type} {bytes : List UInt8} {read : Nat → Option β}
    {found : Nat → ByteArray → β}
    (hread : ∀ place offset entry, Holds bytes place (indexRecord offset entry) →
      Holds bytes offset (octets entry) → read place = some (found offset entry))
    {entries : List ByteArray} {place offset : Nat}
    (hindex : Holds bytes place (indexOf offset entries))
    (hpayload : Holds bytes offset (payload entries)) :
    readRow read 8 entries.length place =
      some (numbered ByteArray.size found offset entries) := by
  induction entries generalizing place offset with
  | nil => rfl
  | cons entry rest ih =>
      rw [indexOf_cons, holds_append, length_indexRecord] at hindex
      rw [payload_cons, holds_append, length_octets] at hpayload
      have hfirst := hread place offset entry hindex.1 hpayload.1
      simp only [List.length_cons, readRow, Option.bind_eq_bind, Option.bind_eq_some_iff]
      exact ⟨_, hfirst, _, ih hindex.2 hpayload.2, rfl⟩

/-- The offset and the size of an entry are read from its record, as they lie within the archive. -/
theorem little?_indexRecord {bytes : List UInt8} (hlength : bytes.length < Word.span 4)
    {entry : ByteArray} {place offset : Nat}
    (hrecord : Holds bytes place (indexRecord offset entry))
    (hentry : Holds bytes offset (octets entry)) :
    little? 4 bytes place = some offset ∧ little? 4 bytes (place + 4) = some entry.size := by
  have hroom := hentry.le
  rw [length_octets] at hroom
  rw [indexRecord, holds_append, Word.length_little] at hrecord
  exact ⟨hrecord.1.little (by omega), hrecord.2.little (by omega)⟩

/-- The entries of an index are found where it says they are. -/
theorem readRow_indexOf {bytes : List UInt8} {entries : List ByteArray} {place offset : Nat}
    (hlength : bytes.length < Word.span 4) (hindex : Holds bytes place (indexOf offset entries))
    (hpayload : Holds bytes offset (payload entries)) :
    readRow (readEntry bytes) 8 entries.length place = some entries := by
  have hread : ∀ place offset entry, Holds bytes place (indexRecord offset entry) →
      Holds bytes offset (octets entry) → readEntry bytes place = some entry := by
    intro place offset entry hrecord hentry
    obtain ⟨hoffset, hsize⟩ := little?_indexRecord hlength hrecord hentry
    have hslice := hentry.slice
    rw [length_octets] at hslice
    simp [readEntry, hoffset, hsize, hslice]
  rw [readRow_records hread hindex hpayload, numbered_const, List.map_id']

section Entries

variable {entries : List ByteArray}

/-- The resources of a group are found by the numbers of their entries. -/
theorem mapM_resource?_numbered {resources : List Resource} {first : Nat}
    (h : Holds entries first (resources.map (·.data))) :
    (numbered (fun _ => 1) recordOf first resources).mapM (resource? entries) =
      some resources := by
  induction resources generalizing first with
  | nil => rfl
  | cons resource rest ih =>
      rw [List.map_cons, ← List.singleton_append, holds_append] at h
      obtain ⟨hdata, hrest⟩ := h
      have hfirst : resource? entries (recordOf first resource) = some resource := by
        simp [resource?, recordOf, hdata.getElem?]
      have htail := ih hrest
      rw [List.length_singleton] at htail
      rw [numbered, List.mapM_cons, hfirst, htail]
      rfl

/-- The groups of a file are found by the numbers of their entries. -/
theorem mapM_group?_numbered {groups : List ResourceGroup} {first : Nat}
    (h : Holds entries first ((groups.flatMap (·.resources)).map (·.data))) :
    (numbered (·.resources.length) groupOf first groups).mapM (group? entries) = some groups := by
  induction groups generalizing first with
  | nil => rfl
  | cons group rest ih =>
      rw [List.flatMap_cons, List.map_append, holds_append, List.length_map] at h
      obtain ⟨hresources, hrest⟩ := h
      have hfirst : group? entries (groupOf first group) = some group := by
        rw [group?, groupOf, mapM_resource?_numbered hresources]
        rfl
      rw [numbered, List.mapM_cons, hfirst, ih hrest]
      rfl

end Entries

/-- The numbers of the entries of a group follow one another. -/
theorem map_entry_numbered (first : Nat) (resources : List Resource) :
    (numbered (fun _ => 1) recordOf first resources).map (·.entry) =
      List.range' first resources.length := by
  induction resources generalizing first with
  | nil => rfl
  | cons resource rest ih =>
      rw [numbered, List.map_cons, ih, List.length_cons, List.range'_succ]
      rfl

/-- The numbers of the entries of a group follow those of the group before. -/
theorem flatMap_entry_numbered (first : Nat) (groups : List ResourceGroup) :
    (numbered (·.resources.length) groupOf first groups).flatMap
        (fun group => group.records.map (·.entry)) =
      List.range' first (groups.flatMap (·.resources)).length := by
  induction groups generalizing first with
  | nil => rfl
  | cons group rest ih =>
      rw [numbered, List.flatMap_cons, ih, groupOf, map_entry_numbered, List.flatMap_cons,
        List.length_append, List.range'_append_1]

/-- Where the parts of an archive stand in it. -/
theorem placement_layout {file : ResourceFile} {bytes : List UInt8}
    (h : Holds bytes 0 (layout file)) :
    Holds bytes 0 magic ∧ Holds bytes 4 (Word.little 4 version) ∧
      Holds bytes 8 (Word.little 4 indexOffset) ∧
      Holds bytes 12 (Word.little 4 (entriesOf file).length) ∧
      Holds bytes 16 (indexOf (payloadAt file) (entriesOf file)) ∧
      Holds bytes (payloadAt file) (payload (entriesOf file)) := by
  have hmagic : magic.length = 4 := rfl
  simp only [layout, headerOf, holds_append, List.length_append, Word.length_little, hmagic,
    Nat.reduceAdd, Nat.zero_add, length_indexOf] at h
  obtain ⟨⟨⟨⟨⟨hmagic, hversion⟩, hindexOffset⟩, hcount⟩, hindex⟩, hpayload⟩ := h
  exact ⟨hmagic, hversion, hindexOffset, hcount, hindex, hpayload⟩

/-- The entry behind those of the resources is the map. -/
theorem getElem?_entriesOf (file : ResourceFile) :
    (entriesOf file)[file.resourceCount]? = some (bytesOf (mapOf file)) := by
  have hcount : file.resourceCount = (file.resources.map (·.data)).length := by
    rw [List.length_map, ResourceFile.resources, ResourceFile.resourceCount]
  rw [entriesOf, hcount, List.getElem?_concat_length]

/-- What the reader finds in the archive of a file. -/
def archiveOf (file : ResourceFile) : Archive where
  entries := entriesOf file
  groups := groupsOf file

theorem readArchive_layout {file : ResourceFile}
    (hfits : ∀ resource ∈ file.resources, Fits resource)
    (hlength : (layout file).length < 0x100000000) :
    readArchive (bytesOf (layout file)) = some (archiveOf file) := by
  obtain ⟨hmagic, hversion, hindexOffset, hcount, hindex, hpayload⟩ :=
    placement_layout (holds_self (layout file))
  have hspan : Word.span 4 = 0x100000000 := rfl
  have hentries := readRow_indexOf (hspan ▸ hlength) hindex hpayload
  have hlast : (entriesOf file).getLast? = some (bytesOf (mapOf file)) := by
    rw [entriesOf, List.getLast?_concat]
  have hgroups := readMap_entry hfits hlength
  have hentryCount : (entriesOf file).length < Word.span 4 := by
    rw [length_layout, payloadAt, indexEntry] at hlength
    omega
  simp only [readArchive, octets_bytesOf, Option.bind_eq_bind, Option.bind_eq_some_iff]
  exact ⟨_, hmagic.slice, _, rfl, _, hversion.little (by decide), _, rfl, _,
    hindexOffset.little (by decide), _, hcount.little hentryCount, _, hentries, _, hlast, _,
    hgroups, rfl⟩

theorem file?_archiveOf (file : ResourceFile) : (archiveOf file).file? = some file := by
  have hdata : Holds (entriesOf file) 0 (file.resources.map (·.data)) :=
    (holds_append.mp (holds_self (entriesOf file))).1
  rw [Archive.file?, archiveOf, groupsOf, mapM_group?_numbered hdata]
  rfl

theorem numbers_archiveOf (file : ResourceFile) :
    (archiveOf file).numbers = List.range file.resourceCount := by
  rw [Archive.numbers, archiveOf, groupsOf, flatMap_entry_numbered, List.range_eq_range',
    ResourceFile.resourceCount]

/-- The reader accepts every archive that was written and finds in it the file it was written for:
the same groups in the same order, with the same resources in the same order, and each with its id,
its name and its data. The map names the entries in their order, each of them once, and it is itself
the entry behind them. -/
theorem rez_reads_back {file : ResourceFile} {bytes : ByteArray} (h : encode file = .ok bytes) :
    read bytes = some file ∧
      ∃ archive, readArchive bytes = some archive ∧
        archive.numbers = List.range file.resourceCount ∧
        archive.entries.length = file.resourceCount + 1 ∧
        ∃ map, archive.entries[file.resourceCount]? = some map ∧
          readMap (octets map) = some archive.groups := by
  obtain ⟨hfits, hlength, rfl⟩ := encode_eq_ok_iff.mp h
  have harchive := readArchive_layout hfits hlength
  constructor
  · rw [read, harchive]
    exact file?_archiveOf file
  · refine ⟨archiveOf file, harchive, numbers_archiveOf file, length_entriesOf file, _,
      getElem?_entriesOf file, ?_⟩
    exact readMap_entry hfits hlength

/-- Two groups with the least id, a name and no name, data and no data. -/
def twoGroups : ResourceFile :=
  ⟨[⟨⟨'P', 'N', 'G', ' ', by decide⟩, [⟨-0x80000000, "", .empty⟩, ⟨128, "Hi", bytesOf [1, 2, 3]⟩]⟩,
    ⟨⟨'T', 'E', 'X', 'T', by decide⟩, [⟨-1, "x", bytesOf [9]⟩]⟩]⟩

theorem rez_reads_back_two_groups :
    ∃ bytes, encode twoGroups = .ok bytes ∧ read bytes = some twoGroups ∧
      ∃ archive, readArchive bytes = some archive ∧ archive.numbers = [0, 1, 2] ∧
        archive.entries.length = 4 := by
  have hencode : encode twoGroups = .ok _ := rfl
  obtain ⟨hread, archive, harchive, hnumbers, hentries, -⟩ := rez_reads_back hencode
  exact ⟨_, hencode, hread, archive, harchive, hnumbers, hentries⟩

end ResourceAssembler.Container.Rez
