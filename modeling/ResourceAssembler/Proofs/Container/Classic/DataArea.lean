import ResourceAssembler.Proofs.Container.Blame

/-!
# How much data a classic fork holds

A reference has 24 bits for the place of its data. The writer checks for every resource that
its block starts at such a place, and it checks nothing else until the header, in which the
length of all data has 32 bits. So the blocks before the last one keep below 2 ^ 24 bytes, and
the last one may reach beyond.
-/

namespace ResourceAssembler.Container.Classic

open Outcome

/-- Where the last block of the data starts. -/
def lastBlockAt (file : ResourceFile) : Nat :=
  blockBytes 4 file.resources.dropLast

/-- The limits of a classic fork apart from those on its data. -/
structure LimitsBesideData (file : ResourceFile) : Prop where
  ids : ∀ resource ∈ file.resources, -32768 ≤ resource.id.toInt ∧ resource.id.toInt ≤ 32767
  names : ∀ resource ∈ file.resources, resource.name.toUTF8.size ≤ 255
  nameOffsets : ∀ before resource after, file.resources = before ++ resource :: after →
    resource.name ≠ "" → nameListBytes before ≤ 65534
  entries : 30 + 8 * file.groupCount + 12 * file.resourceCount ≤ 65535

/-- All blocks start within a bound if the last one does. -/
theorem blockBytes_le_iff {resources : List Resource} {bound : Nat} :
    (∀ before resource after, resources = before ++ resource :: after →
        blockBytes 4 before ≤ bound) ↔ blockBytes 4 resources.dropLast ≤ bound := by
  constructor
  · intro h
    rcases List.eq_nil_or_concat resources with rfl | ⟨before, last, rfl⟩
    · exact Nat.zero_le bound
    · rw [List.concat_eq_append, List.dropLast_concat]
      exact h before last [] List.concat_eq_append
  · rintro h before resource after rfl
    rw [List.dropLast_append_cons, blockBytes, total_append] at h
    exact Nat.le_of_add_right_le h

/-- The limits on data come down to where the last block starts and where it ends. -/
theorem limits_iff {file : ResourceFile} :
    Limits file ↔ LimitsBesideData file ∧ lastBlockAt file < 0x1000000 ∧
      256 + blockBytes 4 file.resources < 0x100000000 := by
  have hblocks : (∀ before resource after, file.resources = before ++ resource :: after →
      blockBytes 4 before ≤ 0xFFFFFF) ↔ lastBlockAt file ≤ 0xFFFFFF := blockBytes_le_iff
  constructor
  · rintro ⟨hids, hnames, hnameOffsets, hdataOffsets, hentries, hdata⟩
    have hlast := hblocks.mp hdataOffsets
    exact ⟨⟨hids, hnames, hnameOffsets, hentries⟩, Nat.lt_succ_of_le hlast, hdata⟩
  · rintro ⟨⟨hids, hnames, hnameOffsets, hentries⟩, hlast, hdata⟩
    have hdataOffsets := hblocks.mpr (Nat.le_of_lt_succ hlast)
    exact ⟨hids, hnames, hnameOffsets, hdataOffsets, hentries, hdata⟩

/-- The header of a fork states the length of all blocks together. -/
theorem dataLength_stated {file : ResourceFile} {fork : ByteArray} (h : encode file = .ok fork) :
    big? 4 (octets fork) 8 = some (blockBytes 4 file.resources) := by
  obtain ⟨hfits, rfl⟩ := encode_eq_ok_iff.mp h
  have hdata := hfits.data
  obtain ⟨-, -, -, hlength, -⟩ := placement_layout (holds_self (layout file))
  rw [octets_bytesOf, ← dataLength_eq]
  apply hlength.big
  simp only [Word.span]
  omega

/-- If neither an id nor a name is to blame, a file is refused for its size. -/
theorem LimitsBesideData.tooLarge {file : ResourceFile} (h : LimitsBesideData file)
    {error : ContainerError} (herror : encode file = .error error) :
    ∃ limit, error = .tooLarge .classic limit := by
  cases encode_error herror with
  | @offender before after code resource _ hrow _ hreport =>
      have hplaced : (code, resource) ∈ file.placed := by
        rw [hrow]
        exact List.mem_append_right before List.mem_cons_self
      have hmem : resource ∈ file.resources := by
        rw [← file.map_snd_placed]
        exact List.mem_map_of_mem hplaced
      cases hreport with
      | idOutOfRange hid => exact absurd (h.ids resource hmem) hid
      | nameTooLong _ hname => exact absurd (h.names resource hmem) (Nat.not_le_of_lt hname)
  | number _ limit => exact ⟨limit, rfl⟩

/-- In every fork that was written the header states the length of all blocks of data, and the last
of them starts below 2 ^ 24. A file whose last block would start there or further behind is refused.
Of the files that keep the other limits, those are refused as too large whose last block starts too
far behind, or whose data would end too far behind for an offset of 32 bits, and no others: a last
block may reach beyond 2 ^ 24. -/
theorem data_limited_at_last_block (file : ResourceFile) :
    (∀ fork, encode file = .ok fork →
      big? 4 (octets fork) 8 = some (blockBytes 4 file.resources) ∧
        lastBlockAt file < 0x1000000) ∧
      (0x1000000 ≤ lastBlockAt file → ∃ error, encode file = .error error) ∧
      (LimitsBesideData file →
        ((∃ limit, encode file = .error (.tooLarge .classic limit)) ↔
          0x1000000 ≤ lastBlockAt file ∨ 0x100000000 ≤ 256 + blockBytes 4 file.resources)) := by
  have hwritten : (∃ fork, encode file = .ok fork) ↔ _ := exists_fork_iff.trans limits_iff
  refine ⟨?_, ?_, ?_⟩
  · intro fork hfork
    exact ⟨dataLength_stated hfork, (hwritten.mp ⟨fork, hfork⟩).2.1⟩
  · intro hlast
    rw [exists_eq_error_iff, hwritten]
    rintro ⟨-, hbelow, -⟩
    omega
  · intro hbeside
    constructor
    · rintro ⟨limit, herror⟩
      have hrefused := exists_eq_error_iff.mp ⟨_, herror⟩
      by_contra hfits
      exact hrefused (hwritten.mpr ⟨hbeside, by omega, by omega⟩)
    · intro hreaches
      have hrefused : ¬∃ fork, encode file = .ok fork := by
        rw [hwritten]
        rintro ⟨-, hbelow, hend⟩
        omega
      obtain ⟨error, herror⟩ := exists_eq_error_iff.mpr hrefused
      obtain ⟨limit, rfl⟩ := hbeside.tooLarge herror
      exact ⟨limit, herror⟩

/-- Two resources without a name and with nothing but zeros as their data. -/
def zeroBlocks (first second : Nat) : ResourceFile :=
  ⟨[⟨⟨'z', 'e', 'r', 'o', by decide⟩,
      [⟨1, "", bytesOf (List.replicate first 0)⟩, ⟨2, "", bytesOf (List.replicate second 0)⟩]⟩]⟩

theorem resources_zeroBlocks (first second : Nat) :
    (zeroBlocks first second).resources =
      [⟨1, "", bytesOf (List.replicate first 0)⟩, ⟨2, "", bytesOf (List.replicate second 0)⟩] := rfl

theorem blockBytes_zeroBlocks (first second : Nat) :
    blockBytes 4 (zeroBlocks first second).resources = first + second + 8 := by
  simp only [resources_zeroBlocks, blockBytes, total, size_bytesOf, List.length_replicate]
  omega

theorem lastBlockAt_zeroBlocks (first second : Nat) :
    lastBlockAt (zeroBlocks first second) = first + 4 := by
  simp only [lastBlockAt, resources_zeroBlocks, List.dropLast, blockBytes, total, size_bytesOf,
    List.length_replicate]
  omega

theorem limitsBesideData_zeroBlocks (first second : Nat) :
    LimitsBesideData (zeroBlocks first second) := by
  have hnames : ∀ resource ∈ (zeroBlocks first second).resources, resource.name = "" := by
    simp [resources_zeroBlocks]
  constructor
  case ids =>
    simp only [resources_zeroBlocks, List.forall_mem_cons]
    decide
  case names =>
    intro resource hresource
    rw [hnames resource hresource]
    decide
  case nameOffsets =>
    intro before resource after hsplit hname
    have hresource : resource ∈ (zeroBlocks first second).resources := by
      rw [hsplit]
      exact List.mem_append_right before List.mem_cons_self
    exact absurd (hnames resource hresource) hname
  case entries =>
    have hgroups : (zeroBlocks first second).groupCount = 1 := rfl
    have hresources : (zeroBlocks first second).resourceCount = 2 := rfl
    omega

theorem encode_zeroBlocks (first second : Nat) (hfirst : first + 4 < 0x1000000)
    (hsecond : second < 0x1000000) : ∃ fork, encode (zeroBlocks first second) = .ok fork := by
  rw [exists_fork_iff, limits_iff, lastBlockAt_zeroBlocks, blockBytes_zeroBlocks]
  exact ⟨limitsBesideData_zeroBlocks first second, hfirst, by omega⟩

/-- A last block can bring the data to 2 ^ 24 bytes. -/
theorem data_reaches_limit :
    ∃ fork, encode (zeroBlocks 0 16777208) = .ok fork ∧
      big? 4 (octets fork) 8 = some 0x1000000 := by
  obtain ⟨fork, hfork⟩ := encode_zeroBlocks 0 16777208 (by omega) (by omega)
  have hstated := dataLength_stated hfork
  rw [blockBytes_zeroBlocks] at hstated
  exact ⟨fork, hfork, hstated⟩

theorem data_limited_at_last_block_zeroBlocks :
    (∃ fork, encode (zeroBlocks 16777211 5) = .ok fork ∧
        big? 4 (octets fork) 8 = some 16777224) ∧
      ∃ limit, encode (zeroBlocks 16777212 0) = .error (.tooLarge .classic limit) := by
  constructor
  · obtain ⟨fork, hfork⟩ := encode_zeroBlocks 16777211 5 (by omega) (by omega)
    have hstated := ((data_limited_at_last_block (zeroBlocks 16777211 5)).1 fork hfork).1
    rw [blockBytes_zeroBlocks] at hstated
    exact ⟨fork, hfork, hstated⟩
  · have hrefused := (data_limited_at_last_block (zeroBlocks 16777212 0)).2.2
      (limitsBesideData_zeroBlocks 16777212 0)
    rw [lastBlockAt_zeroBlocks, blockBytes_zeroBlocks] at hrefused
    exact hrefused.mpr (.inl (by omega))

end ResourceAssembler.Container.Classic
