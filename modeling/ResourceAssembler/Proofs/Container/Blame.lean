import ResourceAssembler.Proofs.Container.Limits
import ResourceAssembler.Proofs.ResourceFile.History

/-!
# Which resource an error names

A writer looks at the id and the name of a resource when it comes to it, and it goes through the
resources in the order of the file. So the resource that an error names is the first one that breaks
a limit on ids or names. The other checks of a writer are about its own numbers. One of them can
stop it before it comes to that resource, but then the error names no resource at all.
-/

namespace ResourceAssembler

/-- The ids that a format can hold. -/
def Format.HoldsId : Format → Int64 → Prop
  | .classic, id => -32768 ≤ id.toInt ∧ id.toInt ≤ 32767
  | .extended, _ => True
  | .rez, id => -0x80000000 ≤ id.toInt ∧ id.toInt ≤ 0x7FFFFFFF

/-- The id and the name of a resource keep within the limits of a format. -/
structure Resource.WithinLimits (format : Format) (resource : Resource) : Prop where
  id : format.HoldsId resource.id
  name : resource.name.toUTF8.size ≤ 255

namespace Container

open Fork Outcome

/-- What a writer says of the resource that it stops at. -/
inductive Reports (format : Format) (code : TypeCode) (resource : Resource) : ContainerError → Prop
  | idOutOfRange (hid : ¬format.HoldsId resource.id) :
      Reports format code resource (.idOutOfRange format code resource.id)
  | nameTooLong (hid : format.HoldsId resource.id) (hname : 255 < resource.name.toUTF8.size) :
      Reports format code resource (.nameTooLong code resource.id resource.name.toUTF8.size)

/-- What a writer says when it stops on its way through a row of resources. -/
inductive Blames (format : Format) (row : List (TypeCode × Resource)) : ContainerError → Prop
  | offender (before after : List (TypeCode × Resource)) {code resource error}
      (hrow : row = before ++ (code, resource) :: after)
      (hbefore : ∀ earlier ∈ before, earlier.2.WithinLimits format)
      (hreport : Reports format code resource error) : Blames format row error
  | number (hformat : format ≠ .extended) (limit : ContainerLimit) :
      Blames format row (.tooLarge format limit)

section Rows

variable {format : Format} {first second : List (TypeCode × Resource)} {error : ContainerError}

theorem Blames.append_right (h : Blames format first error) (second : List (TypeCode × Resource)) :
    Blames format (first ++ second) error := by
  cases h with
  | offender before after hrow hbefore hreport =>
      refine .offender before (after ++ second) ?_ hbefore hreport
      rw [hrow, List.append_assoc, List.cons_append]
  | number hformat limit => exact .number hformat limit

/-- What is said of later resources holds of the whole row if the earlier
ones keep within the limits. -/
theorem Blames.append_left (hfirst : ∀ placed ∈ first, placed.2.WithinLimits format)
    (h : Blames format second error) : Blames format (first ++ second) error := by
  cases h with
  | offender before after hrow hbefore hreport =>
      refine .offender (first ++ before) after ?_ ?_ hreport
      · rw [hrow, List.append_assoc]
      · intro earlier hearlier
        rcases List.mem_append.mp hearlier with hmem | hmem
        · exact hfirst earlier hmem
        · exact hbefore earlier hmem
  | number hformat limit => exact .number hformat limit

/-- If each step of a run blames a resource of its own part of a row, and passes only over parts
that keep within the limits, then the run blames a resource of the whole row. -/
theorem blames_foldlM {α σ : Type} {step : σ → α → Except ContainerError σ}
    (part : α → List (TypeCode × Resource))
    (hok : ∀ state item after, step state item = .ok after →
      ∀ placed ∈ part item, placed.2.WithinLimits format)
    (herror : ∀ state item error, step state item = .error error → Blames format (part item) error)
    {items : List α} {state : σ} (h : items.foldlM step state = .error error) :
    Blames format (items.flatMap part) error := by
  induction items generalizing state with
  | nil => exact absurd h pure_ne_error
  | cons item rest ih =>
      rw [List.flatMap_cons]
      rw [List.foldlM_cons, bind_eq_error_iff] at h
      -- Either the first step stops the run, or it passes over its part and a later one stops it.
      rcases h with hfirst | ⟨after, hfirst, hrest⟩
      · exact (herror state item error hfirst).append_right _
      · exact .append_left (hok state item after hfirst) (ih hrest)

/-- The resources of a group are written one by one. -/
theorem blames_resources {σ : Type} {step : σ → Resource → Except ContainerError σ}
    {code : TypeCode}
    (hok : ∀ state resource after, step state resource = .ok after →
      resource.WithinLimits format)
    (herror : ∀ state resource error, step state resource = .error error →
      Blames format [(code, resource)] error)
    {resources : List Resource} {state : σ} (h : resources.foldlM step state = .error error) :
    Blames format (resources.map (code, ·)) error := by
  rw [List.map_eq_flatMap]
  refine blames_foldlM (fun resource => [(code, resource)]) ?_ herror h
  intro state resource after hstep placed hplaced
  rw [List.mem_singleton.mp hplaced]
  exact hok state resource after hstep

theorem Blames.of_group {group : ResourceGroup}
    (h : Blames format (group.resources.map (group.code, ·)) error) (rest : List ResourceGroup) :
    Blames format (placedIn (group :: rest)) error := by
  rw [placedIn_cons]
  exact h.append_right (placedIn rest)

theorem Blames.of_later {group : ResourceGroup} {rest : List ResourceGroup}
    (hgroup : ∀ resource ∈ group.resources, resource.WithinLimits format)
    (h : Blames format (placedIn rest) error) : Blames format (placedIn (group :: rest)) error := by
  rw [placedIn_cons]
  apply Blames.append_left _ h
  intro placed hplaced
  obtain ⟨resource, hresource, rfl⟩ := List.mem_map.mp hplaced
  exact hgroup resource hresource

theorem Reports.blames {code : TypeCode} {resource : Resource}
    (h : Reports format code resource error) : Blames format [(code, resource)] error :=
  .offender [] [] rfl (fun _ hplaced => absurd hplaced List.not_mem_nil) h

end Rows

/-- A name of more than 255 bytes is refused, and the error says how many it has. -/
theorem countedName_eq_error_iff {code : TypeCode} {resource : Resource} {error : ContainerError} :
    countedName code resource = .error error ↔
      255 < resource.name.toUTF8.size ∧
        error = .nameTooLong code resource.id resource.name.toUTF8.size := by
  simp only [countedName, ← Nat.not_lt, ite_not, guard_eq_error_iff]
  constructor
  · rintro (h | ⟨-, h⟩)
    · exact h
    · cases h
  · exact .inl

/-! ## The classic fork -/

namespace Classic

theorem holdsId_iff {id : Int64} : Format.classic.HoldsId id ↔ idFits id = true :=
  idFits_iff.symm

theorem Fits.withinLimits {dataAt nameAt : Nat} {resource : Resource}
    (h : Fits dataAt nameAt resource) : resource.WithinLimits .classic where
  id := holdsId_iff.mpr h.id
  name := (nameFits_iff.mp h.name).1

theorem withinLimits_of_fit {dataAt nameAt : Nat} {resources : List Resource}
    (h : Fit 4 Fits dataAt nameAt resources) :
    ∀ resource ∈ resources, resource.WithinLimits .classic := by
  intro resource hresource
  obtain ⟨before, after, hsplit⟩ := List.append_of_mem hresource
  exact ((fit_iff resources dataAt nameAt).mp h before resource after hsplit).withinLimits

section Errors

variable {n : Nat} {kind : String} {error : ContainerError}

theorem blames_tooLarge (limit : ContainerLimit) (row : List (TypeCode × Resource)) :
    Blames .classic row (tooLarge limit) :=
  .number (by decide) limit

theorem word_error (h : word n kind = .error error) (row : List (TypeCode × Resource)) :
    Blames .classic row error := by
  rw [word] at h
  split at h
  · cases h
  · obtain rfl := Except.error.inj h
    exact blames_tooLarge _ _

theorem storedCount_error (h : storedCount n kind = .error error)
    (row : List (TypeCode × Resource)) : Blames .classic row error := by
  rw [storedCount] at h
  split at h
  · cases h
  · obtain rfl := Except.error.inj h
    exact blames_tooLarge _ _

theorem header_error {dataLength mapLength : Nat} (h : header dataLength mapLength = .error error)
    (row : List (TypeCode × Resource)) : Blames .classic row error := by
  simp only [header, throw_bind, guard_eq_error_iff] at h
  rcases h with ⟨-, rfl⟩ | ⟨-, h⟩
  · exact blames_tooLarge _ _
  · exact absurd h pure_ne_error

theorem addName_error {names : ByteArray} {code : TypeCode} {resource : Resource}
    (hid : Format.classic.HoldsId resource.id) (h : addName names code resource = .error error) :
    Blames .classic [(code, resource)] error := by
  simp only [addName, throw_bind] at h
  split at h
  · cases h
  · simp only [bind_eq_error_iff, guard_eq_error_iff, countedName_eq_error_iff] at h
    rcases h with hword | ⟨_, -, ⟨-, rfl⟩ | ⟨-, ⟨hname, rfl⟩ | ⟨_, -, h⟩⟩⟩
    · exact word_error hword _
    · exact blames_tooLarge _ _
    · exact (Reports.nameTooLong hid hname).blames
    · exact absurd h pure_ne_error

/-- The id of a resource is looked at before its name. -/
theorem addResource_error {code : TypeCode} {parts : Parts} {resource : Resource}
    (h : addResource code parts resource = .error error) :
    Blames .classic [(code, resource)] error := by
  simp only [addResource, throw_bind, guard_eq_error_iff, bind_eq_error_iff,
    Bool.not_eq_true'] at h
  rcases h with ⟨hid, rfl⟩ | ⟨hid, hname | ⟨_, -, ⟨-, rfl⟩ | ⟨-, ⟨-, rfl⟩ | ⟨-, h⟩⟩⟩⟩
  · have hout : ¬Format.classic.HoldsId resource.id := by
      rw [holdsId_iff, hid]
      exact Bool.false_ne_true
    exact (Reports.idOutOfRange hout).blames
  · exact addName_error (holdsId_iff.mpr (by simpa using hid)) hname
  · exact blames_tooLarge _ _
  · exact blames_tooLarge _ _
  · exact absurd h pure_ne_error

theorem addGroup_error {offset : Nat} {parts : Parts} {group : ResourceGroup}
    (h : addGroup offset parts group = .error error) :
    Blames .classic (group.resources.map (group.code, ·)) error := by
  simp only [addGroup, bind_eq_error_iff] at h
  rcases h with hcount | ⟨_, -, hoffset | ⟨_, -, hresources⟩⟩
  · exact storedCount_error hcount _
  · exact word_error hoffset _
  · refine blames_resources ?_ ?_ hresources
    · intro _ _ _ hok
      exact (addResource_eq_ok_iff.mp hok).1.withinLimits
    · intro _ _ _ herror
      exact addResource_error herror

theorem addGroups_error {groups : List ResourceGroup} {offset : Nat} {parts : Parts}
    (h : addGroups offset parts groups = .error error) :
    Blames .classic (placedIn groups) error := by
  induction groups generalizing offset parts with
  | nil => cases h
  | cons group rest ih =>
      rw [addGroups, bind_eq_error_iff] at h
      rcases h with hgroup | ⟨_, hgroup, hrest⟩
      · exact (addGroup_error hgroup).of_group rest
      · exact .of_later (withinLimits_of_fit (addGroup_eq_ok_iff.mp hgroup).2.1) (ih hrest)

theorem encode_error {file : ResourceFile} (h : encode file = .error error) :
    Blames .classic file.placed error := by
  simp only [encode, bind_eq_error_iff] at h
  rcases h with hcount | ⟨_, -, hgroups | ⟨_, -, hnames | ⟨_, -, hheader | ⟨_, -, h⟩⟩⟩⟩
  · exact storedCount_error hcount _
  · exact addGroups_error hgroups
  · exact word_error hnames _
  · exact header_error hheader _
  · exact absurd h pure_ne_error

end Errors

end Classic

/-! ## The extended file -/

namespace Extended

variable {error : ContainerError}

theorem NameFits.withinLimits {resource : Resource} (h : NameFits resource) :
    resource.WithinLimits .extended where
  id := trivial
  name := h

theorem addResource_error {code : TypeCode} {parts : Parts} {resource : Resource}
    (h : addResource code parts resource = .error error) :
    Blames .extended [(code, resource)] error := by
  simp only [addResource, bind_eq_error_iff] at h
  rcases h with hname | ⟨_, -, h⟩
  · rw [addName] at hname
    split at hname
    · cases hname
    · simp only [bind_eq_error_iff, countedName_eq_error_iff] at hname
      rcases hname with ⟨hname, rfl⟩ | ⟨_, -, h⟩
      · have hid : Format.extended.HoldsId resource.id := trivial
        exact (Reports.nameTooLong hid hname).blames
      · exact absurd h pure_ne_error
  · exact absurd h pure_ne_error

theorem addGroup_error {offset : Nat} {parts : Parts} {group : ResourceGroup}
    (h : addGroup offset parts group = .error error) :
    Blames .extended (group.resources.map (group.code, ·)) error := by
  refine blames_resources ?_ ?_ h
  · intro _ _ _ hok
    exact (addResource_eq_ok_iff.mp hok).1.withinLimits
  · intro _ _ _ herror
    exact addResource_error herror

theorem addGroups_error {groups : List ResourceGroup} {offset : Nat} {parts : Parts}
    (h : addGroups offset parts groups = .error error) :
    Blames .extended (placedIn groups) error := by
  induction groups generalizing offset parts with
  | nil => cases h
  | cons group rest ih =>
      rw [addGroups, bind_eq_error_iff] at h
      rcases h with hgroup | ⟨_, hgroup, hrest⟩
      · exact (addGroup_error hgroup).of_group rest
      · refine .of_later ?_ (ih hrest)
        intro resource hresource
        exact ((foldlM_addResource_eq_ok_iff.mp hgroup).1 resource hresource).withinLimits

theorem encode_error {file : ResourceFile} (h : encode file = .error error) :
    Blames .extended file.placed error := by
  rw [encode, bind_eq_error_iff] at h
  rcases h with hgroups | ⟨_, -, h⟩
  · exact addGroups_error hgroups
  · exact absurd h pure_ne_error

end Extended

/-! ## The rez archive -/

namespace Rez

variable {error : ContainerError}

theorem Fits.withinLimits {resource : Resource} (h : Fits resource) :
    resource.WithinLimits .rez where
  id := (fits_iff.mp h).1
  name := h.name

theorem holdsId_iff {id : Int64} : Format.rez.HoldsId id ↔ idFits id = true := by
  rw [Format.HoldsId, idFits, Bool.and_eq_true, decide_eq_true_eq, decide_eq_true_eq]
  omega

theorem long_error {n : Nat} (h : long n = .error error) (row : List (TypeCode × Resource)) :
    Blames .rez row error := by
  rw [long] at h
  split at h
  · cases h
  · obtain rfl := Except.error.inj h
    exact .number (by decide) _

theorem addResource_error {code : TypeCode} {parts : Parts} {resource : Resource}
    (h : addResource code parts resource = .error error) :
    Blames .rez [(code, resource)] error := by
  simp only [addResource, throw_bind, guard_eq_error_iff, bind_eq_error_iff,
    countedName_eq_error_iff, Bool.not_eq_true'] at h
  rcases h with ⟨hid, rfl⟩ | ⟨hid, hentry | ⟨_, -, ⟨hname, rfl⟩ | ⟨_, -, h⟩⟩⟩
  · have hout : ¬Format.rez.HoldsId resource.id := by
      rw [holdsId_iff, hid]
      exact Bool.false_ne_true
    exact (Reports.idOutOfRange hout).blames
  · exact long_error hentry _
  · exact (Reports.nameTooLong (holdsId_iff.mpr (by simpa using hid)) hname).blames
  · exact absurd h pure_ne_error

theorem addGroup_error {parts : Parts} {group : ResourceGroup}
    (h : addGroup parts group = .error error) :
    Blames .rez (group.resources.map (group.code, ·)) error := by
  simp only [addGroup, bind_eq_error_iff] at h
  rcases h with hcount | ⟨_, -, hresources⟩
  · exact long_error hcount _
  · refine blames_resources ?_ ?_ hresources
    · intro _ _ _ hok
      exact (addResource_eq_ok_iff.mp hok).1.withinLimits
    · intro _ _ _ herror
      exact addResource_error herror

theorem map_error {file : ResourceFile} (h : map file = .error error) :
    Blames .rez file.placed error := by
  simp only [map, bind_eq_error_iff] at h
  rcases h with hcount | ⟨_, -, hgroups | ⟨_, -, h⟩⟩
  · exact long_error hcount _
  · refine blames_foldlM (fun group => group.resources.map (group.code, ·)) ?_ ?_ hgroups
    · intro _ group _ hok placed hplaced
      obtain ⟨resource, hresource, rfl⟩ := List.mem_map.mp hplaced
      exact ((addGroup_eq_ok_iff.mp hok).2.1 resource hresource).withinLimits
    · intro _ group _ herror
      exact addGroup_error herror
  · exact absurd h pure_ne_error

theorem index_error {entries : List ByteArray} {offset : Nat} {written : ByteArray}
    (h : index offset written entries = .error error) (row : List (TypeCode × Resource)) :
    Blames .rez row error := by
  induction entries generalizing offset written with
  | nil => cases h
  | cons entry rest ih =>
      simp only [index, bind_eq_error_iff] at h
      rcases h with hoffset | ⟨_, -, hsize | ⟨_, -, hrest⟩⟩
      · exact long_error hoffset row
      · exact long_error hsize row
      · exact ih hrest

theorem encode_error {file : ResourceFile} (h : encode file = .error error) :
    Blames .rez file.placed error := by
  simp only [encode, bind_eq_error_iff] at h
  rcases h with hmap | ⟨_, -, hcount | ⟨_, -, hindex | ⟨_, -, hstop | ⟨_, -, h⟩⟩⟩⟩
  · exact map_error hmap
  · exact long_error hcount _
  · exact index_error hindex _
  · exact long_error hstop _
  · exact absurd h pure_ne_error

end Rez

end Container

namespace ResourceFile

open Container

/-- Whatever the format, an error says what `Blames` says of the resources of the file. -/
theorem encode_error {file : ResourceFile} {format : Format} {error : ContainerError}
    (h : file.encode format = .error error) : Blames format file.placed error := by
  cases format with
  | classic => exact Classic.encode_error h
  | extended => exact Extended.encode_error h
  | rez => exact Rez.encode_error h

/-- All resources of a file that was written keep within the limits of the format. -/
theorem withinLimits_of_encode {file : ResourceFile} {format : Format} {bytes : ByteArray}
    (h : file.encode format = .ok bytes) :
    ∀ resource ∈ file.resources, resource.WithinLimits format := by
  cases format with
  | classic => exact Classic.withinLimits_of_fit (Classic.encode_eq_ok_iff.mp h).1.resources
  | extended =>
      intro resource hresource
      exact ((Extended.encode_eq_ok_iff.mp h).1 resource hresource).withinLimits
  | rez =>
      intro resource hresource
      exact ((Rez.encode_eq_ok_iff.mp h).1 resource hresource).withinLimits

/-- The resource is the first one of its file that does not keep within the limits of a format. -/
structure FirstOffender (format : Format) (file : ResourceFile) (code : TypeCode)
    (resource : Resource) : Prop where
  found : file.find? code resource.id = some resource
  breaks : ¬resource.WithinLimits format
  earlier : ∃ before after, file.placed = before ++ (code, resource) :: after ∧
    ∀ placed ∈ before, placed.2.WithinLimits format

theorem firstOffender_of_reports {format : Format} {history : List Addition}
    {before after : List (TypeCode × Resource)} {code : TypeCode} {resource : Resource}
    (hrow : (ofHistory history).placed = before ++ (code, resource) :: after)
    (hbefore : ∀ earlier ∈ before, earlier.2.WithinLimits format)
    (hbreaks : ¬resource.WithinLimits format) :
    FirstOffender format (ofHistory history) code resource := by
  refine ⟨find?_of_mem_placed ?_, hbreaks, before, after, hrow, hbefore⟩
  rw [hrow]
  exact List.mem_append_right before List.mem_cons_self

/-- An error that names a resource of a file names the first one that does not keep within the
limits of the format, and it names the limit: the id, or else the name and how many bytes it has. A
file with such a resource is never written. As an extended file is refused for its names alone, its
error always names the first resource whose name is too long. -/
theorem encode_blames_first_offender (history : List Addition) (format : Format) :
    let file := ofHistory history
    (∀ stated code id, file.encode format = .error (.idOutOfRange stated code id) →
      stated = format ∧ ∃ resource, FirstOffender format file code resource ∧ resource.id = id ∧
        ¬format.HoldsId id) ∧
      (∀ code id length, file.encode format = .error (.nameTooLong code id length) →
        ∃ resource, FirstOffender format file code resource ∧ resource.id = id ∧
          resource.name.toUTF8.size = length ∧ 255 < length ∧ format.HoldsId id) ∧
      (∀ resource ∈ file.resources, ¬resource.WithinLimits format →
        ∃ error, file.encode format = .error error) ∧
      ∀ error, file.encode .extended = .error error →
        ∃ code id length, error = .nameTooLong code id length := by
  intro file
  refine ⟨?_, ?_, ?_, ?_⟩
  · intro stated code id herror
    cases encode_error herror with
    | offender before after hrow hbefore hreport =>
        cases hreport with
        | idOutOfRange hid =>
            have hfirst := firstOffender_of_reports hrow hbefore fun h => hid h.id
            exact ⟨rfl, _, hfirst, rfl, hid⟩
  · intro code id length herror
    cases encode_error herror with
    | offender before after hrow hbefore hreport =>
        cases hreport with
        | nameTooLong hid hname =>
            have hfirst :=
              firstOffender_of_reports hrow hbefore fun h => Nat.not_le_of_lt hname h.name
            exact ⟨_, hfirst, rfl, rfl, hname, hid⟩
  · intro resource hresource hbreaks
    rw [Outcome.exists_eq_error_iff]
    rintro ⟨bytes, hbytes⟩
    exact hbreaks (withinLimits_of_encode hbytes resource hresource)
  · intro error herror
    cases encode_error herror with
    | offender before after hrow hbefore hreport =>
        cases hreport with
        | idOutOfRange hid => exact absurd trivial hid
        | nameTooLong hid hname => exact ⟨_, _, _, rfl⟩
    | number hformat limit => exact absurd rfl hformat

/-- The code of a cursor. -/
def cursor : TypeCode :=
  ⟨'c', 'u', 'r', 's', by decide⟩

/-- An id that fits no classic fork, behind one that does. -/
def wideId : List Addition :=
  [⟨cursor, ⟨128, "Arrow", bytesOf [1]⟩⟩, ⟨cursor, ⟨40000, "", bytesOf [2, 3]⟩⟩]

/-- A resource with a name of 256 bytes. -/
def longName : Resource :=
  ⟨-1, String.ofList (List.replicate 256 'n'), .empty⟩

theorem encode_blames_wideId_longName :
    ((ofHistory wideId).encode .classic = .error (.idOutOfRange .classic cursor 40000) ∧
      ∃ resource, FirstOffender .classic (ofHistory wideId) cursor resource ∧
        resource.id = 40000) ∧
      ∃ code id length,
        (ofHistory [⟨cursor, longName⟩]).encode .extended = .error (.nameTooLong code id length) ∧
          255 < length := by
  constructor
  · have herror : (ofHistory wideId).encode .classic =
        .error (.idOutOfRange .classic cursor 40000) := rfl
    obtain ⟨hid, -⟩ := encode_blames_first_offender wideId .classic
    obtain ⟨-, resource, hfirst, hnamed, -⟩ := hid _ _ _ herror
    exact ⟨herror, resource, hfirst, hnamed⟩
  · obtain ⟨-, hname, hrefused, hextended⟩ :=
      encode_blames_first_offender [⟨cursor, longName⟩] .extended
    have hlong : ¬longName.WithinLimits .extended := fun h => absurd h.name (by decide +kernel)
    obtain ⟨error, herror⟩ := hrefused longName (List.mem_singleton_self longName) hlong
    obtain ⟨code, id, length, rfl⟩ := hextended error herror
    obtain ⟨_, -, -, -, hlength, -⟩ := hname code id length herror
    exact ⟨code, id, length, herror, hlength⟩

end ResourceFile

end ResourceAssembler
