import ResourceAssembler.Proofs.Container.Measures

/-!
# The areas of a fork

A fork keeps its data, its references and its names in three areas that grow side by side: every
resource adds a block to the data, a reference and, if it has a name, a block to the names. Its
reference holds where the other two went. A type list in front of the references holds where the
references of each group start. What a reader makes of these areas follows from what it makes of one
reference and of one entry of the type list.
-/

namespace ResourceAssembler

namespace Container.Fork

/-- What a resource adds to the names. -/
def nameBlock (resource : Resource) : List UInt8 :=
  if resource.name.isEmpty then [] else counted 1 resource.name.toUTF8

/-- The names of resources. -/
def namesOf (resources : List Resource) : List UInt8 :=
  resources.flatMap nameBlock

/-- The data of resources, each with its length of `width` bytes in front. -/
def dataOf (width : Nat) (resources : List Resource) : List UInt8 :=
  resources.flatMap fun resource => counted width resource.data

section Rows

variable (width : Nat)

/-- The references of resources whose data and names start at the given offsets. -/
def referencesOf (reference : (dataAt nameAt : Nat) → Resource → List UInt8) (dataAt nameAt : Nat) :
    List Resource → List UInt8
  | [] => []
  | resource :: rest => reference dataAt nameAt resource ++
      referencesOf reference (dataAt + (width + resource.data.size))
        (nameAt + (nameBlock resource).length) rest

/-- Every resource fits at the offsets where its data and its name go. -/
def Fit (fits : (dataAt nameAt : Nat) → Resource → Prop) (dataAt nameAt : Nat) :
    List Resource → Prop
  | [] => True
  | resource :: rest => fits dataAt nameAt resource ∧
      Fit fits (dataAt + (width + resource.data.size))
        (nameAt + (nameBlock resource).length) rest

variable (size : Nat)

/-- The type list of groups whose references, each of `size` bytes, start at the given offset. -/
def entriesOf (entry : (offset : Nat) → ResourceGroup → List UInt8) (offset : Nat)
    (groups : List ResourceGroup) : List UInt8 :=
  (numbered (fun group => size * group.resources.length) entry offset groups).flatten

/-- Every group fits with the offset at which its references start. -/
def EntriesFit (fits : (offset : Nat) → ResourceGroup → Prop) (offset : Nat) :
    List ResourceGroup → Prop
  | [] => True
  | group :: rest => fits offset group ∧
      EntriesFit fits (offset + size * group.resources.length) rest

variable {β : Type}

/-- An item for each resource, given where its data and its name go. -/
def resourceItems (item : (dataAt nameAt : Nat) → Resource → β) (dataAt nameAt : Nat) :
    List Resource → List β
  | [] => []
  | resource :: rest => item dataAt nameAt resource ::
      resourceItems item (dataAt + (width + resource.data.size))
        (nameAt + (nameBlock resource).length) rest

/-- An item for each group, given where its references start and where its data and names go. -/
def groupItems (item : (offset dataAt nameAt : Nat) → ResourceGroup → β)
    (offset dataAt nameAt : Nat) : List ResourceGroup → List β
  | [] => []
  | group :: rest => item offset dataAt nameAt group ::
      groupItems item (offset + size * group.resources.length)
        (dataAt + (dataOf width group.resources).length)
        (nameAt + (namesOf group.resources).length) rest

theorem resourceItems_const (item : Resource → β) (dataAt nameAt : Nat)
    (resources : List Resource) :
    resourceItems width (fun _ _ => item) dataAt nameAt resources = resources.map item := by
  induction resources generalizing dataAt nameAt with
  | nil => rfl
  | cons resource rest ih => rw [resourceItems, ih, List.map_cons]

theorem groupItems_const (item : ResourceGroup → β) (offset dataAt nameAt : Nat)
    (groups : List ResourceGroup) :
    groupItems width size (fun _ _ _ => item) offset dataAt nameAt groups = groups.map item := by
  induction groups generalizing offset dataAt nameAt with
  | nil => rfl
  | cons group rest ih => rw [groupItems, ih, List.map_cons]

end Rows

@[simp] theorem namesOf_cons (resource : Resource) (rest : List Resource) :
    namesOf (resource :: rest) = nameBlock resource ++ namesOf rest := by
  simp [namesOf]

@[simp] theorem namesOf_append (first second : List Resource) :
    namesOf (first ++ second) = namesOf first ++ namesOf second := by
  simp [namesOf]

@[simp] theorem dataOf_cons (width : Nat) (resource : Resource) (rest : List Resource) :
    dataOf width (resource :: rest) = counted width resource.data ++ dataOf width rest := by
  simp [dataOf]

@[simp] theorem dataOf_append (width : Nat) (first second : List Resource) :
    dataOf width (first ++ second) = dataOf width first ++ dataOf width second := by
  simp [dataOf]

theorem length_nameBlock (resource : Resource) :
    (nameBlock resource).length =
      if resource.name = "" then 0 else 1 + resource.name.toUTF8.size := by
  by_cases h : resource.name = ""
  · simp [nameBlock, h]
  · simp [nameBlock, h]

theorem length_namesOf (resources : List Resource) :
    (namesOf resources).length = nameListBytes resources := by
  rw [nameListBytes_eq, namesOf, ← total_length]
  simp only [length_nameBlock]

theorem length_dataOf (width : Nat) (resources : List Resource) :
    (dataOf width resources).length = blockBytes width resources := by
  rw [dataOf, ← total_length, blockBytes]
  simp only [length_counted]

variable {width size : Nat} {reference : (dataAt nameAt : Nat) → Resource → List UInt8}
  {fits : (dataAt nameAt : Nat) → Resource → Prop}

/-- The references of later resources count from behind the data and the names of earlier ones. -/
theorem referencesOf_append (first second : List Resource) (dataAt nameAt : Nat) :
    referencesOf width reference dataAt nameAt (first ++ second) =
      referencesOf width reference dataAt nameAt first ++
        referencesOf width reference (dataAt + (dataOf width first).length)
          (nameAt + (namesOf first).length) second := by
  induction first generalizing dataAt nameAt with
  | nil => simp [referencesOf, dataOf, namesOf]
  | cons resource rest ih =>
      simp only [List.cons_append, referencesOf, ih, dataOf_cons, namesOf_cons, List.length_append,
        length_counted, List.append_assoc, Nat.add_assoc]

theorem resourceItems_append {β : Type} (item : (dataAt nameAt : Nat) → Resource → β)
    (dataAt nameAt : Nat) (first second : List Resource) :
    resourceItems width item dataAt nameAt (first ++ second) =
      resourceItems width item dataAt nameAt first ++
        resourceItems width item (dataAt + (dataOf width first).length)
          (nameAt + (namesOf first).length) second := by
  induction first generalizing dataAt nameAt with
  | nil => rfl
  | cons resource rest ih =>
      simp only [List.cons_append, resourceItems, ih, dataOf_cons, namesOf_cons,
        List.length_append, length_counted, Nat.add_assoc]

theorem length_referencesOf (hsize : ∀ dataAt nameAt resource,
    (reference dataAt nameAt resource).length = size) (resources : List Resource)
    (dataAt nameAt : Nat) :
    (referencesOf width reference dataAt nameAt resources).length = size * resources.length := by
  induction resources generalizing dataAt nameAt with
  | nil => simp [referencesOf]
  | cons resource rest ih =>
      rw [referencesOf, List.length_append, hsize, ih, List.length_cons, Nat.mul_succ]
      omega

theorem fit_append (first second : List Resource) (dataAt nameAt : Nat) :
    Fit width fits dataAt nameAt (first ++ second) ↔
      Fit width fits dataAt nameAt first ∧
        Fit width fits (dataAt + (dataOf width first).length) (nameAt + (namesOf first).length)
          second := by
  induction first generalizing dataAt nameAt with
  | nil => simp [Fit, dataOf, namesOf]
  | cons resource rest ih =>
      simp only [List.cons_append, Fit, ih, dataOf_cons, namesOf_cons, List.length_append,
        length_counted, Nat.add_assoc, and_assoc]

/-- Whether a resource fits depends on the resources before it through the bytes that they take. -/
theorem fit_iff (resources : List Resource) (dataAt nameAt : Nat) :
    Fit width fits dataAt nameAt resources ↔
      ∀ before resource after, resources = before ++ resource :: after →
        fits (dataAt + blockBytes width before) (nameAt + nameListBytes before) resource := by
  constructor
  · rintro h before resource after rfl
    rw [fit_append, length_dataOf, length_namesOf] at h
    exact h.2.1
  · intro h
    induction resources generalizing dataAt nameAt with
    | nil => trivial
    | cons first rest ih =>
        refine ⟨h [] first rest rfl, ?_⟩
        apply ih
        intro before resource after hrest
        have hdata : dataAt + blockBytes width (first :: before) =
            dataAt + (width + first.data.size) + blockBytes width before :=
          (Nat.add_assoc dataAt _ _).symm
        have hnames : nameAt + nameListBytes (first :: before) =
            nameAt + (nameBlock first).length + nameListBytes before := by
          rw [← length_namesOf, namesOf_cons, List.length_append, length_namesOf, Nat.add_assoc]
        rw [← hdata, ← hnames]
        exact h (first :: before) resource after (by rw [hrest, List.cons_append])

theorem entriesOf_cons (entry : (offset : Nat) → ResourceGroup → List UInt8) (offset : Nat)
    (group : ResourceGroup) (rest : List ResourceGroup) :
    entriesOf size entry offset (group :: rest) = entry offset group ++
      entriesOf size entry (offset + size * group.resources.length) rest := by
  rw [entriesOf, numbered, List.flatten_cons, entriesOf]

theorem length_entriesOf {step : Nat} {entry : (offset : Nat) → ResourceGroup → List UInt8}
    (hstep : ∀ offset group, (entry offset group).length = step) (groups : List ResourceGroup)
    (offset : Nat) : (entriesOf size entry offset groups).length = step * groups.length := by
  rw [entriesOf, length_flatten_numbered hstep, total_const]

/-- The entry of a group stands behind those of the groups before it. -/
theorem holds_entry {step position offset : Nat} {bytes : List UInt8}
    {entry : (offset : Nat) → ResourceGroup → List UInt8}
    (hstep : ∀ offset group, (entry offset group).length = step)
    {before after : List ResourceGroup} {group : ResourceGroup}
    (h : Holds bytes position (entriesOf size entry offset (before ++ group :: after))) :
    ∃ references, Holds bytes (position + step * before.length) (entry references group) := by
  rw [entriesOf, numbered_append, List.flatten_append, holds_append,
    length_flatten_numbered hstep, total_const] at h
  obtain ⟨-, hgroup⟩ := h
  rw [numbered, List.flatten_cons, holds_append] at hgroup
  exact ⟨_, hgroup.1⟩

/-- A condition that looks at no offset is one on each resource. -/
theorem fit_of_forall {property : Resource → Prop} {resources : List Resource}
    (h : ∀ resource ∈ resources, property resource) (dataAt nameAt : Nat) :
    Fit width (fun _ _ resource => property resource) dataAt nameAt resources := by
  induction resources generalizing dataAt nameAt with
  | nil => trivial
  | cons resource rest ih =>
      exact ⟨h resource List.mem_cons_self,
        ih (fun other hother => h other (List.mem_cons_of_mem resource hother)) _ _⟩

theorem entriesFit_of_forall {property : ResourceGroup → Prop} {groups : List ResourceGroup}
    (h : ∀ group ∈ groups, property group) (offset : Nat) :
    EntriesFit size (fun _ group => property group) offset groups := by
  induction groups generalizing offset with
  | nil => trivial
  | cons group rest ih =>
      exact ⟨h group List.mem_cons_self,
        ih (fun other hother => h other (List.mem_cons_of_mem group hother)) _⟩

/-- Entries fit if all of them would at any offset up to the end of the references. -/
theorem entriesFit_of_le {entryFits : (offset : Nat) → ResourceGroup → Prop} {limit : Nat}
    {groups : List ResourceGroup}
    (h : ∀ group ∈ groups, ∀ offset, offset ≤ limit → entryFits offset group) {offset : Nat}
    (hlimit : offset + size * (groups.flatMap (·.resources)).length ≤ limit) :
    EntriesFit size entryFits offset groups := by
  induction groups generalizing offset with
  | nil => trivial
  | cons group rest ih =>
      rw [List.flatMap_cons, List.length_append, Nat.mul_add] at hlimit
      obtain ⟨hgroup, hrest⟩ := List.forall_mem_cons.mp h
      refine ⟨hgroup offset (by omega), ?_⟩
      apply ih hrest
      omega

/-- What holds of every group can be asked of every entry. -/
theorem EntriesFit.and_of_mem {entryFits : (offset : Nat) → ResourceGroup → Prop}
    {property : ResourceGroup → Prop} {groups : List ResourceGroup} {offset : Nat}
    (h : EntriesFit size entryFits offset groups) (hmem : ∀ group ∈ groups, property group) :
    EntriesFit size (fun offset group => entryFits offset group ∧ property group) offset
      groups := by
  induction groups generalizing offset with
  | nil => trivial
  | cons group rest ih =>
      exact ⟨⟨h.1, hmem group List.mem_cons_self⟩,
        ih h.2 fun other hother => hmem other (List.mem_cons_of_mem group hother)⟩

/-- The offset that a reference holds for a name that goes to `nameAt`, with a number that stands
for no name at all. -/
def nameOffset (absent nameAt : Nat) (resource : Resource) : Nat :=
  if resource.name.isEmpty then absent else nameAt

/-- The areas that the offsets of a fork point into. -/
structure Areas where
  data : List UInt8
  map : List UInt8
  names : List UInt8

/-- The name at an offset of the names, with a number that stands for no name at all. -/
def readName (absent : Nat) (names : List UInt8) (offset : Nat) : Option String :=
  if offset = absent then some "" else text? names offset

/-- A name is found again if the offset it went to does not stand for no name. -/
theorem readName_nameOffset {absent nameAt : Nat} {names : List UInt8} {resource : Resource}
    (hfits : resource.name.isEmpty = false →
      nameAt ≠ absent ∧ resource.name.toUTF8.size ≤ 255)
    (h : Holds names nameAt (nameBlock resource)) :
    readName absent names (nameOffset absent nameAt resource) = some resource.name := by
  cases hempty : resource.name.isEmpty with
  | true =>
      rw [nameOffset, if_pos hempty, readName, if_pos rfl, String.isEmpty_iff.mp hempty]
  | false =>
      obtain ⟨habsent, hlength⟩ := hfits hempty
      have hne : ¬resource.name.isEmpty = true := by simp [hempty]
      rw [nameBlock, if_neg hne] at h
      rw [nameOffset, if_neg hne, readName, if_neg habsent, h.text hlength]

section Reading

/-- Blocks stand at offsets in such a way that with a joined block both of its parts do. -/
def Splits (stands : (offset : Nat) → (block : List UInt8) → Prop) : Prop :=
  ∀ offset first second, stands offset (first ++ second) →
    stands offset first ∧ stands (offset + first.length) second

theorem splits_holds (bytes : List UInt8) : Splits (Holds bytes) :=
  fun _ _ _ => holds_append.mp

/-- The offsets may count from any place. -/
theorem splits_holds_from (bytes : List UInt8) (start : Nat) :
    Splits fun offset => Holds bytes (start + offset) := by
  intro offset first second h
  obtain ⟨hfirst, hsecond⟩ := holds_append.mp h
  rw [Nat.add_assoc] at hsecond
  exact ⟨hfirst, hsecond⟩

variable {β : Type} {bytes : List UInt8} {read : Nat → Option β}
  {dataStands nameStands : (offset : Nat) → (block : List UInt8) → Prop}

/-- A reader that understands one reference reads the references of a whole list. -/
theorem readRow_referencesOf {item : (dataAt nameAt : Nat) → Resource → β}
    (hsize : ∀ dataAt nameAt resource, (reference dataAt nameAt resource).length = size)
    (hdataSplits : Splits dataStands) (hnamesSplit : Splits nameStands)
    (hread : ∀ dataAt nameAt resource offset, fits dataAt nameAt resource →
      Holds bytes offset (reference dataAt nameAt resource) →
      dataStands dataAt (counted width resource.data) →
      nameStands nameAt (nameBlock resource) → read offset = some (item dataAt nameAt resource))
    {resources : List Resource} {dataAt nameAt offset : Nat}
    (hfit : Fit width fits dataAt nameAt resources)
    (hreferences : Holds bytes offset (referencesOf width reference dataAt nameAt resources))
    (hdata : dataStands dataAt (dataOf width resources))
    (hnames : nameStands nameAt (namesOf resources)) :
    readRow read size resources.length offset =
      some (resourceItems width item dataAt nameAt resources) := by
  induction resources generalizing dataAt nameAt offset with
  | nil => rfl
  | cons resource rest ih =>
      rw [referencesOf, holds_append, hsize] at hreferences
      rw [dataOf_cons] at hdata
      rw [namesOf_cons] at hnames
      obtain ⟨hblock, hdataRest⟩ := hdataSplits _ _ _ hdata
      obtain ⟨hname, hnamesRest⟩ := hnamesSplit _ _ _ hnames
      rw [length_counted] at hdataRest
      have hfirst := hread _ _ _ _ hfit.1 hreferences.1 hblock hname
      have hrest := ih hfit.2 hreferences.2 hdataRest hnamesRest
      simp [readRow, resourceItems, hfirst, hrest]

variable {step base : Nat} {entry : (offset : Nat) → ResourceGroup → List UInt8}
  {entryFits : (offset : Nat) → ResourceGroup → Prop}

/-- A reader that understands one entry of the type list reads the list of a whole file. -/
theorem readRow_entriesOf {item : (offset dataAt nameAt : Nat) → ResourceGroup → β}
    (hsize : ∀ dataAt nameAt resource, (reference dataAt nameAt resource).length = size)
    (hstep : ∀ offset group, (entry offset group).length = step)
    (hdataSplits : Splits dataStands) (hnamesSplit : Splits nameStands)
    (hread : ∀ offset group position dataAt nameAt, entryFits offset group →
      Fit width fits dataAt nameAt group.resources →
      Holds bytes position (entry offset group) →
      Holds bytes (base + offset)
        (referencesOf width reference dataAt nameAt group.resources) →
      dataStands dataAt (dataOf width group.resources) →
      nameStands nameAt (namesOf group.resources) →
      read position = some (item offset dataAt nameAt group))
    {groups : List ResourceGroup} {offset position dataAt nameAt : Nat}
    (hentriesFit : EntriesFit size entryFits offset groups)
    (hfit : Fit width fits dataAt nameAt (groups.flatMap (·.resources)))
    (hentries : Holds bytes position (entriesOf size entry offset groups))
    (hreferences : Holds bytes (base + offset)
      (referencesOf width reference dataAt nameAt (groups.flatMap (·.resources))))
    (hdata : dataStands dataAt (dataOf width (groups.flatMap (·.resources))))
    (hnames : nameStands nameAt (namesOf (groups.flatMap (·.resources)))) :
    readRow read step groups.length position =
      some (groupItems width size item offset dataAt nameAt groups) := by
  induction groups generalizing offset position dataAt nameAt with
  | nil => rfl
  | cons group rest ih =>
      rw [List.flatMap_cons] at hfit hreferences hdata hnames
      rw [fit_append] at hfit
      rw [entriesOf_cons, holds_append, hstep] at hentries
      rw [referencesOf_append, holds_append, length_referencesOf hsize,
        Nat.add_assoc] at hreferences
      rw [dataOf_append] at hdata
      rw [namesOf_append] at hnames
      obtain ⟨hblocks, hdataRest⟩ := hdataSplits _ _ _ hdata
      obtain ⟨htexts, hnamesRest⟩ := hnamesSplit _ _ _ hnames
      have hfirst := hread _ _ _ _ _ hentriesFit.1 hfit.1 hentries.1 hreferences.1 hblocks htexts
      have hrest := ih hentriesFit.2 hfit.2 hentries.2 hreferences.2 hdataRest hnamesRest
      simp [readRow, groupItems, hfirst, hrest]

end Reading

end Container.Fork

end ResourceAssembler
