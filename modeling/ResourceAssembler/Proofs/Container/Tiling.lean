import ResourceAssembler.Proofs.Container.Survey

/-!
# The regions of a fork tile it

A fork of a form is its header, zeros, the data and the map, one behind the other. As the survey of
a fork finds the regions that these parts take up, it finds regions that tile the fork: each of the
four is the next one's neighbour, and data, map and names are tiled by their own parts in turn.
-/

namespace ResourceAssembler.Container.Survey

open Fork

namespace Form

section Layout

variable (form : Form) (front mapFront : List UInt8) (file : ResourceFile)

/-- The offset that the first entry of a type list states. -/
def firstReference (groupCount : Nat) : Nat :=
  (if form.fromTypeList then 0 else form.mapHeader) + form.field + form.entryLength * groupCount

theorem origin_add_firstReference (groupCount : Nat) :
    form.origin form.mapHeader + form.firstReference groupCount =
      form.mapHeader + (form.field + form.entryLength * groupCount) := by
  cases h : form.fromTypeList <;> simp [origin, firstReference, h, Nat.add_assoc]

/-- The type list of a file. -/
def typeListOf : List UInt8 :=
  Word.big form.field (form.stored file.groupCount) ++
    entriesOf form.referenceLength form.entry (form.firstReference file.groupCount) file.groups

/-- The references of a file. -/
def referenceLists : List UInt8 :=
  referencesOf form.word form.reference 0 0 file.resources

/-- Where the names of a file start in its map. -/
def namesAt : Nat :=
  form.mapHeader + (form.typeListOf file).length + (form.referenceLists file).length

def mapLength : Nat :=
  form.namesAt file + (namesOf file.resources).length

def dataLength : Nat :=
  (dataOf form.word file.resources).length

/-- The four words of the header. -/
def words : List UInt8 :=
  Word.big form.word headerArea ++ Word.big form.word (headerArea + form.dataLength file) ++
    Word.big form.word (form.dataLength file) ++ Word.big form.word (form.mapLength file)

/-- The map of a file. -/
def mapOf : List UInt8 :=
  mapFront ++ Word.big form.field form.mapHeader ++ Word.big form.field (form.namesAt file) ++
    form.typeListOf file ++ form.referenceLists file ++ namesOf file.resources

/-- The fork of a file, given what stands in front of the header words and
of the offsets in the map. -/
def layout : List UInt8 :=
  front ++ form.words file ++ List.replicate (headerArea - form.headerLength) 0 ++
    dataOf form.word file.resources ++ form.mapOf mapFront file

variable {form front mapFront file}

/-- The given bytes fill the room in front of the header words and of the offsets in the map, and
the header ends before the data. -/
structure Fronts (form : Form) (front mapFront : List UInt8) : Prop where
  front : front.length = form.wordsAt
  map : mapFront.length = form.listsAt
  room : form.headerLength ≤ headerArea

theorem length_words : (form.words file).length = 4 * form.word := by
  simp only [words, List.length_append, Word.length_big]
  omega

theorem length_typeListOf :
    (form.typeListOf file).length = form.field + form.entryLength * file.groupCount := by
  rw [typeListOf, List.length_append, Word.length_big, length_entriesOf form.length_entry,
    ResourceFile.groupCount]

theorem length_mapOf (h : form.Fronts front mapFront) :
    (form.mapOf mapFront file).length = form.mapLength file := by
  simp only [mapOf, mapLength, namesAt, mapHeader, List.length_append, Word.length_big, h.map]

/-- Where the parts of a map stand. -/
theorem placement_mapOf (hfronts : form.Fronts front mapFront) {bytes : List UInt8}
    {mapAt : Nat} (h : Holds bytes mapAt (form.mapOf mapFront file)) :
    Holds bytes (mapAt + form.listsAt) (Word.big form.field form.mapHeader) ∧
      Holds bytes (mapAt + (form.listsAt + form.field))
        (Word.big form.field (form.namesAt file)) ∧
      Holds bytes (mapAt + form.mapHeader)
        (Word.big form.field (form.stored file.groupCount)) ∧
      Holds bytes (mapAt + form.mapHeader + form.field)
        (entriesOf form.referenceLength form.entry (form.firstReference file.groupCount)
          file.groups) ∧
      Holds bytes (mapAt + form.origin form.mapHeader + form.firstReference file.groupCount)
        (form.referenceLists file) ∧
      Holds bytes (mapAt + form.namesAt file) (namesOf file.resources) := by
  have hheader : form.listsAt + form.field + form.field = form.mapHeader := rfl
  have hnamesAt : form.mapHeader + (form.typeListOf file).length +
      (form.referenceLists file).length = form.namesAt file := rfl
  simp only [mapOf, holds_append, List.length_append, Word.length_big, hfronts.map, hheader,
    hnamesAt] at h
  obtain ⟨⟨⟨⟨⟨-, htypes⟩, hnames⟩, htypeList⟩, hreferences⟩, hnamesOf⟩ := h
  rw [length_typeListOf, ← origin_add_firstReference, ← Nat.add_assoc] at hreferences
  rw [typeListOf, holds_append, Word.length_big] at htypeList
  exact ⟨htypes, hnames, htypeList.1, htypeList.2, hreferences, hnamesOf⟩

/-- Where the parts of a fork stand. -/
theorem placement_layout (hfronts : form.Fronts front mapFront) {bytes : List UInt8}
    (h : Holds bytes 0 (form.layout front mapFront file)) :
    Holds bytes form.wordsAt (Word.big form.word headerArea) ∧
      Holds bytes (form.wordsAt + form.word)
        (Word.big form.word (headerArea + form.dataLength file)) ∧
      Holds bytes (form.wordsAt + 2 * form.word) (Word.big form.word (form.dataLength file)) ∧
      Holds bytes (form.wordsAt + 3 * form.word) (Word.big form.word (form.mapLength file)) ∧
      Holds bytes form.headerLength (List.replicate (headerArea - form.headerLength) 0) ∧
      Holds bytes headerArea (dataOf form.word file.resources) ∧
      Holds bytes (headerArea + form.dataLength file) (form.mapOf mapFront file) := by
  have hheader : form.wordsAt + 4 * form.word = form.headerLength := rfl
  have harea : form.headerLength + (headerArea - form.headerLength) = headerArea :=
    Nat.add_sub_cancel' hfronts.room
  simp only [layout, holds_append, List.length_append, length_words, List.length_replicate,
    hfronts.front, hheader, harea, Nat.zero_add] at h
  obtain ⟨⟨⟨⟨-, hwords⟩, hzeros⟩, hdata⟩, hmap⟩ := h
  have htwo : form.word + form.word = 2 * form.word := (Nat.two_mul form.word).symm
  have hthree : 2 * form.word + form.word = 3 * form.word := (Nat.succ_mul 2 form.word).symm
  simp only [words, holds_append, List.length_append, Word.length_big, htwo, hthree] at hwords
  obtain ⟨⟨⟨hdataAt, hmapAt⟩, hdataLength⟩, hmapLength⟩ := hwords
  exact ⟨hdataAt, hmapAt, hdataLength, hmapLength, hzeros, hdata, hmap⟩

theorem length_layout (h : form.Fronts front mapFront) :
    (form.layout front mapFront file).length =
      headerArea + form.dataLength file + form.mapLength file := by
  simp only [layout, List.length_append, length_words, List.length_replicate,
    length_mapOf h, h.front, dataLength]
  have hroom := h.room
  rw [headerLength] at hroom ⊢
  omega

end Layout

variable (form : Form) (file : ResourceFile)

/-- All numbers of the fork of a file fit their fields. -/
structure FileFits : Prop where
  groups : form.Counts file.groupCount
  counts : ∀ group ∈ file.groups, form.Counts group.resources.length
  resources : Fit form.word form.Fits 0 0 file.resources
  names : form.namesAt file < Word.span form.field
  data : headerArea + form.dataLength file < Word.span form.word
  map : form.mapLength file < Word.span form.word

/-- Where the map of a file starts. -/
def mapAt : Nat :=
  headerArea + form.dataLength file

/-- Where the offsets in the fork of a file count from. -/
def originsOf : Origins where
  references := form.mapAt file + form.origin form.mapHeader
  data := headerArea
  names := form.mapAt file + form.namesAt file

/-- The regions of the fork of a file. -/
def planOf : Plan where
  header := ⟨0, form.headerLength⟩
  padding := ⟨form.headerLength, headerArea⟩
  data := ⟨headerArea, form.mapAt file⟩
  map := ⟨form.mapAt file, form.mapAt file + form.mapLength file⟩
  mapHeader := ⟨form.mapAt file, form.mapAt file + form.mapHeader⟩
  typeList := ⟨form.mapAt file + form.mapHeader, form.mapAt file + form.mapHeader +
    (form.field + form.entryLength * file.groupCount)⟩
  entries := form.entriesFound (form.originsOf file) (form.firstReference file.groupCount) 0 0
    file.groups
  names := ⟨form.mapAt file + form.namesAt file, form.mapAt file + form.mapLength file⟩

variable {form file} {front mapFront : List UInt8}

/-- The references of every group start before the names. -/
theorem FileFits.entries (hfits : form.FileFits file) :
    EntriesFit form.referenceLength form.EntryFits (form.firstReference file.groupCount)
      file.groups := by
  have hreferences : (form.referenceLists file).length =
      form.referenceLength * (file.groups.flatMap (·.resources)).length :=
    length_referencesOf form.length_reference file.resources 0 0
  have hnames := hfits.names
  rw [namesAt, length_typeListOf, ← origin_add_firstReference, hreferences] at hnames
  have hfits : ∀ group ∈ file.groups, ∀ offset, offset < Word.span form.field →
      form.EntryFits offset group :=
    fun group hgroup offset hoffset => ⟨hoffset, hfits.counts group hgroup⟩
  refine entriesFit_of_le (fun group hgroup offset hoffset => hfits group hgroup offset ?_)
    (Nat.le_refl _)
  omega

/-- The survey of a fork in which all numbers fit finds the regions of its file. -/
theorem plan?_layout (hfronts : form.Fronts front mapFront) (hfits : form.FileFits file) :
    form.plan? (form.layout front mapFront file) = some (form.planOf file) := by
  obtain ⟨hdataAt, hmapAt, hdataLength, hmapLength, -, hdata, hmap⟩ :=
    placement_layout hfronts (holds_self (form.layout front mapFront file))
  obtain ⟨htypes, hnames, hcount, hentries, hreferences, hnamesOf⟩ :=
    placement_mapOf hfronts hmap
  have hdataFits := hfits.data
  have hmapHeader : form.mapHeader < Word.span form.field := by
    have hnamesFit := hfits.names
    rw [namesAt] at hnamesFit
    omega
  have hrow : readRow (form.listing? (form.layout front mapFront file) (form.originsOf file))
      form.entryLength file.groupCount (form.mapAt file + form.mapHeader + form.field) =
        some (form.planOf file).entries :=
    readRow_listing? hfits.entries hfits.resources hentries hreferences hdata hnamesOf
  rw [← hfits.groups.count] at hrow
  simp only [plan?, Option.bind_eq_bind, Option.bind_eq_some_iff]
  refine ⟨_, hdataAt.big (by omega), _, hmapAt.big hdataFits, _, hdataLength.big (by omega), _,
    hmapLength.big hfits.map, _, htypes.big hmapHeader, _, hnames.big hfits.names, _,
    hcount.big hfits.groups.stored, _, hrow, ?_⟩
  rw [hfits.groups.count]
  rfl

end Form

/-- The regions of a plan tile a fork that holds a file. -/
structure Form.Tiled (form : Form) (bytes : List UInt8) (file : ResourceFile) (plan : Plan) :
    Prop where
  /-- Header, zeros, data and map tile the whole. -/
  parts : Tiles 0 bytes.length [plan.header, plan.padding, plan.data, plan.map]
  header : plan.header.length = form.headerLength
  zeros : plan.padding.Contains bytes (List.replicate plan.padding.length 0)
  dataAt : plan.data.start = 256
  /-- The blocks tile the data, and each holds the data of a resource. -/
  blocks : Tiles plan.data.start plan.data.stop plan.blocks
  data : List.Forall₂ (Region.Contains bytes) plan.blocks (blocksOf form.word file.resources)
  /-- Type list, references and names tile the map behind its header. -/
  map : Tiles plan.map.start plan.map.stop
    ([plan.mapHeader, plan.typeList] ++ plan.references ++ [plan.names])
  mapHeader : plan.mapHeader.length = form.mapHeader
  codes : plan.entries.map (·.code) = file.groups.map (·.code)
  references : plan.references.map (·.length) =
    file.groups.map (form.referenceLength * ·.resources.length)
  /-- The texts tile the names, and each holds the name of a resource. -/
  texts : Tiles plan.names.start plan.names.stop plan.texts
  names : List.Forall₂ (Region.Contains bytes) plan.texts (textsOf file.resources)

/-- The regions without parts tile the whole, since each larger region is tiled by its parts. -/
theorem Form.Tiled.tiles_regions {form : Form} {bytes : List UInt8} {file : ResourceFile}
    {plan : Plan} (h : form.Tiled bytes file plan) : Tiles 0 bytes.length plan.regions := by
  obtain ⟨hheader, hheaderLe, hpadding, hpaddingLe, hdata, -, hmap, -, hstop⟩ := h.parts
  obtain ⟨middle, hlists, rfl, -, hnames⟩ := tiles_append.mp h.map
  have hfront : Tiles 0 plan.data.start [plan.header, plan.padding] :=
    ⟨hheader, hheaderLe, hpadding, hpaddingLe, hdata.symm⟩
  -- The lists of references end where the names start, so that the texts go on from there.
  have hlast : Tiles plan.data.stop bytes.length
      ([plan.mapHeader, plan.typeList] ++ plan.references ++ plan.texts) := by
    rw [← hmap, ← hstop, ← hnames]
    exact tiles_append.mpr ⟨_, hlists, h.texts⟩
  exact tiles_append.mpr ⟨_, tiles_append.mpr ⟨_, hfront, h.blocks⟩, hlast⟩

namespace Form

variable {form : Form} {file : ResourceFile} {front mapFront : List UInt8}

theorem slots_planOf : (form.planOf file).slots =
    slotsOf form.word (form.originsOf file) 0 0 file.resources :=
  flatMap_slots_entriesFound form (form.originsOf file) _ 0 0 file.groups

theorem blocks_planOf : (form.planOf file).blocks =
    regionsFrom headerArea ((blocksOf form.word file.resources).map (·.length)) := by
  rw [Plan.blocks, slots_planOf, map_block_slotsOf]
  rfl

theorem texts_planOf : (form.planOf file).texts =
    regionsFrom (form.mapAt file + form.namesAt file)
      ((textsOf file.resources).map (·.length)) := by
  rw [Plan.texts, slots_planOf, filterMap_text_slotsOf]
  rfl

theorem references_planOf : (form.planOf file).references =
    regionsFrom (form.mapAt file + form.mapHeader +
        (form.field + form.entryLength * file.groupCount))
      (file.groups.map (form.referenceLength * ·.resources.length)) := by
  rw [Nat.add_assoc, ← origin_add_firstReference, ← Nat.add_assoc]
  exact map_references_entriesFound form (form.originsOf file) _ 0 0 file.groups

/-- Type list and references fill the map between its header and the names. -/
theorem tiles_planOf_map : Tiles (form.mapAt file) (form.mapAt file + form.mapLength file)
    ([(form.planOf file).mapHeader, (form.planOf file).typeList] ++
      (form.planOf file).references ++ [(form.planOf file).names]) := by
  have hreferences : total id (file.groups.map (form.referenceLength * ·.resources.length)) =
      (form.referenceLists file).length := by
    rw [total_map, referenceLists, length_referencesOf form.length_reference,
      ResourceFile.resources, ← total_length, ← total_mul]
    rfl
  have hnames : form.mapAt file + form.namesAt file =
      form.mapAt file + form.mapHeader + (form.field + form.entryLength * file.groupCount) +
        total id (file.groups.map (form.referenceLength * ·.resources.length)) := by
    rw [hreferences, namesAt, length_typeListOf]
    omega
  have hlists := tiles_regionsFrom (form.mapAt file + form.mapHeader +
    (form.field + form.entryLength * file.groupCount))
    (file.groups.map (form.referenceLength * ·.resources.length))
  rw [← hnames, ← references_planOf] at hlists
  have hfront : Tiles (form.mapAt file)
      (form.mapAt file + form.mapHeader + (form.field + form.entryLength * file.groupCount))
      [(form.planOf file).mapHeader, (form.planOf file).typeList] :=
    ⟨rfl, Nat.le_add_right _ _, rfl, Nat.le_add_right _ _, rfl⟩
  have hlast : Tiles (form.mapAt file + form.namesAt file)
      (form.mapAt file + form.mapLength file) [(form.planOf file).names] :=
    ⟨rfl, Nat.add_le_add_left (Nat.le_add_right _ _) _, rfl⟩
  exact tiles_append.mpr ⟨_, tiles_append.mpr ⟨_, hfront, hlists⟩, hlast⟩

/-- The regions of a file tile its fork. -/
theorem tiled_planOf (hfronts : form.Fronts front mapFront) :
    form.Tiled (form.layout front mapFront file) file (form.planOf file) := by
  obtain ⟨-, -, -, -, hzeros, hdata, hmap⟩ :=
    placement_layout hfronts (holds_self (form.layout front mapFront file))
  obtain ⟨-, -, -, -, -, hnames⟩ := placement_mapOf hfronts hmap
  constructor
  case parts =>
    exact ⟨rfl, Nat.zero_le _, rfl, hfronts.room, rfl, Nat.le_add_right _ _, rfl,
      Nat.le_add_right _ _, (length_layout hfronts).symm⟩
  case header => exact Nat.sub_zero _
  case zeros =>
    have hstop : (form.planOf file).padding.stop = (form.planOf file).padding.start +
        (List.replicate (form.planOf file).padding.length (0 : UInt8)).length := by
      rw [List.length_replicate]
      exact (Nat.add_sub_cancel' hfronts.room).symm
    exact ⟨hstop, hzeros⟩
  case dataAt => rfl
  case blocks =>
    rw [blocks_planOf]
    exact tiles_blocks headerArea (blocksOf form.word file.resources)
  case data =>
    rw [blocks_planOf]
    exact contains_regionsFrom hdata
  case map => exact tiles_planOf_map
  case mapHeader => exact Nat.add_sub_cancel_left (form.mapAt file) form.mapHeader
  case codes => exact map_code_entriesFound form (form.originsOf file) _ 0 0 file.groups
  case references => rw [references_planOf, map_length_regionsFrom]
  case texts =>
    have htexts := tiles_blocks (form.mapAt file + form.namesAt file) (textsOf file.resources)
    rw [flatten_textsOf, Nat.add_assoc] at htexts
    rw [texts_planOf]
    exact htexts
  case names =>
    rw [texts_planOf]
    apply contains_regionsFrom
    rw [flatten_textsOf]
    exact hnames

end Form

end ResourceAssembler.Container.Survey
