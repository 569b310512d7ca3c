import ResourceAssembler.Proofs.Container.Classic.Reading
import Mathlib.Data.List.Induction

/-!
# What a classic fork can hold

The writer of a fork looks at a number whenever it writes one, at some of them after it has written
a part of the fork. Six limits on the file say all that these checks come to. In particular a file
within the limits has far fewer types and resources than a count can tell apart, so that the count
of a list with something in it is stored as it is and never as that of an empty list.
-/

namespace ResourceAssembler.Container.Classic

open Fork

/-- The limits of a classic fork. An offset depends on the resources before it, so that the last
name and the last block of data may reach beyond what an offset can hold. -/
structure Limits (file : ResourceFile) : Prop where
  ids : ∀ resource ∈ file.resources, -32768 ≤ resource.id.toInt ∧ resource.id.toInt ≤ 32767
  names : ∀ resource ∈ file.resources, resource.name.toUTF8.size ≤ 255
  nameOffsets : ∀ before resource after, file.resources = before ++ resource :: after →
    resource.name ≠ "" → nameListBytes before ≤ 65534
  dataOffsets : ∀ before resource after, file.resources = before ++ resource :: after →
    blockBytes 4 before ≤ 0xFFFFFF
  entries : 30 + 8 * file.groupCount + 12 * file.resourceCount ≤ 65535
  data : 256 + blockBytes 4 file.resources < 0x100000000

/-! ## The limits and the checks -/

theorem idFits_iff {id : Int64} : idFits id = true ↔ -32768 ≤ id.toInt ∧ id.toInt ≤ 32767 := by
  rw [idFits, Bool.and_eq_true, decide_eq_true_eq, decide_eq_true_eq]
  omega

theorem nameFits_iff {nameAt : Nat} {resource : Resource} :
    NameFits nameAt resource ↔
      resource.name.toUTF8.size ≤ 255 ∧ (resource.name ≠ "" → nameAt ≤ 65534) := by
  by_cases h : resource.name = ""
  · simp [NameFits, h]
  · simp only [NameFits, String.isEmpty_eq_false_iff, noName, ne_eq, h, not_false_eq_true,
      forall_const]
    omega

theorem dataLength_eq (file : ResourceFile) : dataLength file = blockBytes 4 file.resources :=
  length_dataOf 4 file.resources

/-- The list of names ends at most one name behind the greatest offset of a name. -/
theorem nameListBytes_le {resources : List Resource}
    (hnames : ∀ resource ∈ resources, resource.name.toUTF8.size ≤ 255)
    (hoffsets : ∀ before resource after, resources = before ++ resource :: after →
      resource.name ≠ "" → nameListBytes before ≤ 65534) :
    nameListBytes resources ≤ 65790 := by
  induction resources using List.reverseRecOn with
  | nil => exact Nat.zero_le 65790
  | append_singleton earlier last ih =>
      rw [nameListBytes_append, nameListBytes_eq [last], total, total]
      by_cases h : last.name = ""
      · rw [if_pos h]
        apply ih
        · intro resource hresource
          exact hnames resource (List.mem_append_left [last] hresource)
        · intro before resource after hearlier
          apply hoffsets before resource (after ++ [last])
          rw [hearlier, List.append_assoc, List.cons_append]
      · have hoffset := hoffsets earlier last [] rfl h
        have hname := hnames last (List.mem_append_right earlier (List.mem_singleton_self last))
        rw [if_neg h]
        omega

theorem limits_of_fileFits {file : ResourceFile} (h : FileFits file) : Limits file := by
  have hresources := (fit_iff file.resources 0 0).mp h.resources
  simp only [Nat.zero_add] at hresources
  have hfits : ∀ resource ∈ file.resources, ∃ dataAt nameAt, Fits dataAt nameAt resource := by
    intro resource hresource
    obtain ⟨before, after, hsplit⟩ := List.append_of_mem hresource
    exact ⟨_, _, hresources before resource after hsplit⟩
  constructor
  case ids =>
    intro resource hresource
    obtain ⟨dataAt, nameAt, hfit⟩ := hfits resource hresource
    exact idFits_iff.mp hfit.id
  case names =>
    intro resource hresource
    obtain ⟨dataAt, nameAt, hfit⟩ := hfits resource hresource
    exact (nameFits_iff.mp hfit.name).1
  case nameOffsets =>
    intro before resource after hsplit
    exact (nameFits_iff.mp (hresources before resource after hsplit).name).2
  case dataOffsets =>
    intro before resource after hsplit
    exact (hresources before resource after hsplit).offset
  case entries =>
    have hnames := h.names
    rw [namesAt_eq] at hnames
    omega
  case data =>
    have hdata := h.data
    rwa [dataLength_eq] at hdata

theorem fileFits_of_limits {file : ResourceFile} (h : Limits file) : FileFits file := by
  have hentries := h.entries
  constructor
  case count => omega
  case entries =>
    -- All references end before the names, which start at a 16-bit offset.
    have hend : 2 + typeEntry * file.groupCount + referenceEntry * file.resourceCount ≤ 65535 := by
      rw [typeEntry, referenceEntry]
      omega
    refine entriesFit_of_le ?_ hend
    intro group hgroup offset hoffset
    have hcount : group.resources.length ≤ file.resourceCount := length_resources_le hgroup
    exact ⟨by omega, by omega⟩
  case resources =>
    apply (fit_iff file.resources 0 0).mpr
    intro before resource after hsplit
    have hmem : resource ∈ file.resources := by
      rw [hsplit]
      exact List.mem_append_right before List.mem_cons_self
    have hblock : 4 + resource.data.size ≤ blockBytes 4 file.resources :=
      le_total_of_mem (fun resource : Resource => 4 + resource.data.size) hmem
    have hdata := h.data
    rw [Nat.zero_add, Nat.zero_add]
    constructor
    case id => exact idFits_iff.mpr (h.ids resource hmem)
    case name =>
      exact nameFits_iff.mpr ⟨h.names resource hmem, h.nameOffsets before resource after hsplit⟩
    case offset => exact h.dataOffsets before resource after hsplit
    case length => omega
  case names =>
    rw [namesAt_eq]
    omega
  case data =>
    rw [dataLength_eq]
    exact h.data
  case map =>
    have hlist := nameListBytes_le h.names h.nameOffsets
    rw [mapLength, namesAt_eq, length_namesOf]
    omega

theorem exists_fork_iff {file : ResourceFile} :
    (∃ fork, encode file = .ok fork) ↔ Limits file := by
  constructor
  · rintro ⟨fork, hfork⟩
    exact limits_of_fileFits (encode_eq_ok_iff.mp hfork).1
  · intro hlimits
    exact ⟨_, encode_eq_ok_iff.mpr ⟨fileFits_of_limits hlimits, rfl⟩⟩

/-! ## Counts -/

/-- Where the type list of the fork of a file starts. -/
def typeListAt (file : ResourceFile) : Nat :=
  256 + blockBytes 4 file.resources + 28

/-- At an offset of a fork stands a count less one, which is not the number that stands for none. -/
def StoresCount (fork : ByteArray) (offset count : Nat) : Prop :=
  ∃ stored, big? 2 (octets fork) offset = some stored ∧ stored + 1 = count ∧ stored ≠ 0xFFFF

/-- A count of at least one and fewer than 2 ^ 16 is stored without wrapping around. -/
theorem storesCount_of_holds {fork : ByteArray} {offset count : Nat}
    (h : Holds (octets fork) offset (Word.big 2 (lessOne count))) (hpos : 0 < count)
    (hlt : count < 0x10000) : StoresCount fork offset count := by
  have hstored : lessOne count + 1 = count := by
    rw [lessOne]
    omega
  exact ⟨lessOne count, h.big (lessOne_lt_span count), hstored, by omega⟩

/-- The counts of all lists that hold something are stored as they are. -/
theorem storesCounts {file : ResourceFile} (hlimits : Limits file) :
    (file.groups ≠ [] →
        StoresCount (bytesOf (layout file)) (typeListAt file) file.groupCount) ∧
      ∀ before group after, file.groups = before ++ group :: after → group.resources ≠ [] →
        StoresCount (bytesOf (layout file)) (typeListAt file + (2 + 8 * before.length + 4))
          group.resources.length := by
  have hentries := hlimits.entries
  obtain ⟨-, -, -, -, -, -, hmap⟩ := placement_layout (holds_self (layout file))
  obtain ⟨-, -, -, hcount, hlist, -⟩ := placement_mapOf (holds_self (mapOf file))
  have htypeList : ∀ position, headerArea + dataLength file + (28 + position) =
      typeListAt file + position := by
    intro position
    rw [typeListAt, dataLength_eq, headerArea]
    omega
  constructor
  · intro hgroups
    have hplace := hmap.trans hcount
    rw [htypeList 0] at hplace
    have hpos : 0 < file.groupCount := List.length_pos_iff.mpr hgroups
    exact storesCount_of_holds (by rwa [octets_bytesOf]) hpos (by omega)
  · intro before group after hsplit hresources
    have hmem : group ∈ file.groups := by
      rw [hsplit]
      exact List.mem_append_right before List.mem_cons_self
    have hlength : group.resources.length ≤ file.resourceCount := length_resources_le hmem
    rw [hsplit] at hlist
    obtain ⟨references, hentry⟩ := holds_entry length_entry hlist
    simp only [entry, holds_append, TypeCode.length_bytes] at hentry
    have hplace := hmap.trans hentry.1.2
    have hposition : 30 + typeEntry * before.length + 4 = 28 + (2 + 8 * before.length + 4) := by
      rw [typeEntry]
      omega
    rw [hposition, htypeList] at hplace
    have hpos : 0 < group.resources.length := List.length_pos_iff.mpr hresources
    exact storesCount_of_holds (by rwa [octets_bytesOf]) hpos (by omega)

/-- A classic fork is written for exactly those files that keep within the limits: no other check of
the writer ever decides. In a fork that was written, the type list and each list of references that
holds something has its count less one stored as it is. -/
theorem classic_written_iff (file : ResourceFile) :
    ((∃ fork, encode file = .ok fork) ↔ Limits file) ∧
      ∀ fork, encode file = .ok fork →
        (file.groups ≠ [] → StoresCount fork (typeListAt file) file.groupCount) ∧
          ∀ before group after, file.groups = before ++ group :: after → group.resources ≠ [] →
            StoresCount fork (typeListAt file + (2 + 8 * before.length + 4))
              group.resources.length := by
  refine ⟨exists_fork_iff, ?_⟩
  intro fork hfork
  have hlimits := exists_fork_iff.mp ⟨fork, hfork⟩
  obtain ⟨-, rfl⟩ := encode_eq_ok_iff.mp hfork
  exact storesCounts hlimits

/-- Two types with the least and the greatest of all ids that fit, a name and no name. -/
def idsAtLimits : ResourceFile :=
  ⟨[⟨⟨'D', 'I', 'T', 'L', by decide⟩, [⟨-32768, "Two", bytesOf [7, 7]⟩, ⟨32767, "", .empty⟩]⟩,
    ⟨⟨'D', 'L', 'O', 'G', by decide⟩, [⟨0, "One", .empty⟩]⟩]⟩

theorem classic_written_at_limits :
    ∃ fork, encode idsAtLimits = .ok fork ∧ Limits idsAtLimits ∧ StoresCount fork 298 2 ∧
      StoresCount fork 304 2 ∧ StoresCount fork 312 1 := by
  have hencode : encode idsAtLimits = .ok _ := rfl
  obtain ⟨hwritten, hcounts⟩ := classic_written_iff idsAtLimits
  obtain ⟨htypes, hreferences⟩ := hcounts _ hencode
  exact ⟨_, hencode, hwritten.mp ⟨_, hencode⟩, htypes (by decide),
    hreferences [] _ _ rfl (by decide), hreferences [_] _ _ rfl (by decide)⟩

end ResourceAssembler.Container.Classic
