import ResourceAssembler.Proofs.Container.Classic.Limits
import ResourceAssembler.Proofs.Container.Extended.Layout
import ResourceAssembler.Proofs.Container.Rez.Layout
import ResourceAssembler.Container.Encode

/-!
# What the wide formats can hold

An extended file is written whenever the names fit, and an archive whenever the ids and names fit
and it has fewer than 2 ^ 32 bytes as a whole. So a file that one format can hold can be held by a
wider one. Only the way from a classic fork to an archive has a limit of its own: a fork may hold
almost 2 ^ 32 bytes of data, and the index and the map of an archive come on top of these.
-/

namespace ResourceAssembler.Container

/-- All names have at most 255 bytes. -/
def NamesFit (file : ResourceFile) : Prop :=
  ∀ resource ∈ file.resources, resource.name.toUTF8.size ≤ 255

/-- All ids fit 32 bits with their sign. -/
def IdsFit (file : ResourceFile) : Prop :=
  ∀ resource ∈ file.resources,
    -0x80000000 ≤ resource.id.toInt ∧ resource.id.toInt ≤ 0x7FFFFFFF

theorem exists_extended_iff {file : ResourceFile} :
    (∃ bytes, file.encode .extended = .ok bytes) ↔ NamesFit file := by
  constructor
  · rintro ⟨bytes, hbytes⟩
    exact (Extended.encode_eq_ok_iff.mp hbytes).1
  · intro hnames
    exact ⟨_, Extended.encode_eq_ok_iff.mpr ⟨hnames, rfl⟩⟩

theorem Rez.fits_iff {resource : Resource} :
    Rez.Fits resource ↔
      (-0x80000000 ≤ resource.id.toInt ∧ resource.id.toInt ≤ 0x7FFFFFFF) ∧
        resource.name.toUTF8.size ≤ 255 := by
  have hid : Rez.idFits resource.id = true ↔
      -0x80000000 ≤ resource.id.toInt ∧ resource.id.toInt ≤ 0x7FFFFFFF := by
    rw [Rez.idFits, Bool.and_eq_true, decide_eq_true_eq, decide_eq_true_eq]
    omega
  rw [← hid]
  exact ⟨fun h => ⟨h.id, h.name⟩, fun h => ⟨h.1, h.2⟩⟩

theorem exists_rez_iff {file : ResourceFile} :
    (∃ bytes, file.encode .rez = .ok bytes) ↔
      IdsFit file ∧ NamesFit file ∧ Rez.archiveLength file ≤ 0xFFFFFFFF := by
  constructor
  · rintro ⟨bytes, hbytes⟩
    obtain ⟨hfits, hlength, -⟩ := Rez.encode_eq_ok_iff.mp hbytes
    rw [Rez.length_layout_eq] at hlength
    refine ⟨?_, ?_, by omega⟩
    · intro resource hresource
      exact (Rez.fits_iff.mp (hfits resource hresource)).1
    · intro resource hresource
      exact (Rez.fits_iff.mp (hfits resource hresource)).2
  · rintro ⟨hids, hnames, hlength⟩
    have hfits : ∀ resource ∈ file.resources, Rez.Fits resource := by
      intro resource hresource
      exact Rez.fits_iff.mpr ⟨hids resource hresource, hnames resource hresource⟩
    refine ⟨_, Rez.encode_eq_ok_iff.mpr ⟨hfits, ?_, rfl⟩⟩
    rw [Rez.length_layout_eq]
    omega

/-- An extended file is written exactly when no name is too long. An archive is written exactly
when no name is too long, every id fits 32 bits, and the bytes of the whole archive can be
counted with 32 bits: none of the numbers that are checked while it is built is refused
otherwise. Both then have the length that follows from the numbers of types and resources and
from the bytes of names and data. -/
theorem wide_written_iff (file : ResourceFile) :
    ((∃ bytes, file.encode .extended = .ok bytes) ↔
        ∀ resource ∈ file.resources, resource.name.toUTF8.size ≤ 255) ∧
      ((∃ bytes, file.encode .rez = .ok bytes) ↔
        (∀ resource ∈ file.resources,
            -0x80000000 ≤ resource.id.toInt ∧ resource.id.toInt ≤ 0x7FFFFFFF) ∧
          (∀ resource ∈ file.resources, resource.name.toUTF8.size ≤ 255) ∧
          28 + 17 * file.resourceCount + 8 * file.groupCount + nameBytes file.resources +
            payloadBytes file.resources ≤ 0xFFFFFFFF) ∧
      (∀ bytes, file.encode .rez = .ok bytes →
        bytes.size = 28 + 17 * file.resourceCount + 8 * file.groupCount +
          nameBytes file.resources + payloadBytes file.resources) ∧
      ∀ bytes, file.encode .extended = .ok bytes →
        bytes.size = 280 + 33 * file.resourceCount + 20 * file.groupCount +
          nameListBytes file.resources + payloadBytes file.resources := by
  refine ⟨exists_extended_iff, exists_rez_iff, ?_, ?_⟩
  · intro bytes hbytes
    obtain ⟨-, -, rfl⟩ := Rez.encode_eq_ok_iff.mp hbytes
    rw [size_bytesOf, Rez.length_layout_eq, Rez.archiveLength]
  · intro bytes hbytes
    obtain ⟨-, rfl⟩ := Extended.encode_eq_ok_iff.mp hbytes
    rw [size_bytesOf, Extended.length_layout_eq, Extended.fileLength]

/-- The least and the greatest of the ids that an archive can hold, with a name of more than
one byte for a character. -/
def archiveExtremes : ResourceFile :=
  ⟨[⟨⟨'c', 'r', 's', 'r', by decide⟩,
      [⟨-0x80000000, "Ü", bytesOf [3]⟩, ⟨0x7FFFFFFF, "", bytesOf [1, 4]⟩]⟩]⟩

theorem wide_written_extremes :
    (∃ bytes, archiveExtremes.encode .rez = .ok bytes ∧ bytes.size = 75) ∧
      ∃ bytes, archiveExtremes.encode .extended = .ok bytes ∧ bytes.size = 372 := by
  have hrez : archiveExtremes.encode .rez = .ok _ := rfl
  have hextended : archiveExtremes.encode .extended = .ok _ := rfl
  obtain ⟨-, -, hrezSize, hextendedSize⟩ := wide_written_iff archiveExtremes
  exact ⟨⟨_, hrez, hrezSize _ hrez⟩, ⟨_, hextended, hextendedSize _ hextended⟩⟩

/-- What is written as an archive can be written as an extended file. What is written as a classic
fork can be written as an extended file too, and also as an archive if it has at most 2 ^ 32 - 2 ^
18 bytes of data: the limits of a fork leave its types, resources and names so few that index and
map stay below 2 ^ 18 bytes. -/
theorem wider_format_writes (file : ResourceFile) :
    ((∃ bytes, file.encode .rez = .ok bytes) → ∃ bytes, file.encode .extended = .ok bytes) ∧
      ((∃ bytes, file.encode .classic = .ok bytes) →
        payloadBytes file.resources ≤ 0x100000000 - 0x40000 →
          ∃ bytes, file.encode .rez = .ok bytes) ∧
      ((∃ bytes, file.encode .classic = .ok bytes) →
        ∃ bytes, file.encode .extended = .ok bytes) := by
  have hclassic : (∃ bytes, file.encode .classic = .ok bytes) → Classic.Limits file := by
    rintro ⟨bytes, hbytes⟩
    exact Classic.limits_of_fileFits (Classic.encode_eq_ok_iff.mp hbytes).1
  refine ⟨?_, ?_, ?_⟩
  · intro hrez
    exact exists_extended_iff.mpr (exists_rez_iff.mp hrez).2.1
  · intro hwritten hpayload
    have hlimits := hclassic hwritten
    have hids : IdsFit file := by
      intro resource hresource
      have hid := hlimits.ids resource hresource
      omega
    have hnames : nameBytes file.resources ≤ 65790 :=
      calc nameBytes file.resources
          ≤ nameListBytes file.resources := nameBytes_le_nameListBytes file.resources
        _ ≤ 65790 := Classic.nameListBytes_le hlimits.names hlimits.nameOffsets
    have hentries := hlimits.entries
    refine exists_rez_iff.mpr ⟨hids, hlimits.names, ?_⟩
    rw [Rez.archiveLength]
    omega
  · intro hwritten
    exact exists_extended_iff.mpr (hclassic hwritten).names

/-- Two types, of which one has a name and a negative id. -/
def menuAndIcon : ResourceFile :=
  ⟨[⟨⟨'M', 'E', 'N', 'U', by decide⟩, [⟨-7, "File", bytesOf [0, 1]⟩]⟩,
    ⟨⟨'I', 'C', 'O', 'N', by decide⟩, [⟨128, "", bytesOf [255]⟩]⟩]⟩

theorem wider_format_writes_menuAndIcon :
    (∃ bytes, menuAndIcon.encode .classic = .ok bytes) ∧
      (∃ bytes, menuAndIcon.encode .rez = .ok bytes) ∧
      ∃ bytes, menuAndIcon.encode .extended = .ok bytes := by
  have hclassic : ∃ bytes, menuAndIcon.encode .classic = .ok bytes := ⟨_, rfl⟩
  obtain ⟨hextended, hrez, -⟩ := wider_format_writes menuAndIcon
  have hwritten := hrez hclassic (by decide)
  exact ⟨hclassic, hwritten, hextended hwritten⟩

end ResourceAssembler.Container
