import ResourceAssembler.Proofs.Listing.Places
import ResourceAssembler.Proofs.Record.Reading
import ResourceAssembler.Proofs.TypeCode

/-!
# What a listing declares

A listing is assembled exactly when each of its types can be written as the listing writes it
and each of its resources gives a value that fits to every field of the first type of its name.
The target then has these types behind its own and the resources in its file, with the values of
the fields one behind the other. In which order a resource gives its values, and what it gives
beside them, makes no difference.
-/

namespace ResourceAssembler

open Assembly Container Outcome Reporting

/-! ## Types -/

theorem FieldKind.ofString_eq_ok_iff {written : String} {kind : FieldKind} :
    ofString written = .ok kind ↔ kind.name = written := by
  rw [← ofName?_eq_some_iff, ofString]
  cases ofName? written with
  | none => simp
  | some found => simp

/-- A field as a listing writes it. -/
def FieldDefinition.written (field : FieldDefinition) : FieldEntry where
  name := field.name
  kind := field.kind.name

/-- A type as a listing writes it. -/
def TypeDefinition.written (type : TypeDefinition) : TypeEntry where
  name := type.name
  code := type.code.text
  fields := type.fields.map (·.written)

theorem FieldEntry.definition_eq_ok_iff {typeName : String} {entry : FieldEntry}
    {field : FieldDefinition} : entry.definition typeName = .ok field ↔ field.written = entry := by
  obtain ⟨name, kind⟩ := entry
  obtain ⟨fieldName, fieldKind⟩ := field
  simp only [definition, bind_eq_ok_iff, Failure.inContext_eq_ok_iff, Cause.raise_eq_ok_iff,
    FieldKind.ofString_eq_ok_iff, pure_eq_ok_iff, FieldDefinition.written, FieldDefinition.mk.injEq,
    FieldEntry.mk.injEq]
  constructor
  · rintro ⟨found, rfl, rfl, rfl⟩
    exact ⟨rfl, rfl⟩
  · rintro ⟨rfl, rfl⟩
    exact ⟨fieldKind, rfl, rfl, rfl⟩

/-- A type is declared by what is written of it, and by nothing else. -/
theorem TypeEntry.definition_eq_ok_iff_written {path : String} {entry : TypeEntry}
    {type : TypeDefinition} : entry.definition path = .ok type ↔ type.written = entry := by
  obtain ⟨name, code, fields⟩ := entry
  obtain ⟨typeName, typeCode, typeFields⟩ := type
  simp only [definition, bind_eq_ok_iff, Failure.inContext_eq_ok_iff, Cause.raise_eq_ok_iff,
    TypeCode.ofString_eq_ok_iff, mapM_eq_ok_iff_map_eq fun _ _ => FieldEntry.definition_eq_ok_iff,
    pure_eq_ok_iff, TypeDefinition.written, TypeDefinition.mk.injEq, TypeEntry.mk.injEq]
  constructor
  · rintro ⟨found, rfl, foundFields, rfl, rfl, rfl, rfl⟩
    exact ⟨rfl, rfl, rfl⟩
  · rintro ⟨rfl, rfl, rfl⟩
    exact ⟨typeCode, rfl, typeFields, rfl, rfl, rfl, rfl⟩

/-! ## Values -/

/-- What a field of a kind makes of a value that fits to it. A reference
stands for what its file holds. -/
inductive FieldKind.Takes (paths : TargetPaths) (read : Read) :
    FieldKind → Toml.Value → FieldValue → Prop where
  | integer (width : IntegerWidth) (number : Int64) :
      Takes paths read (.integer width) (.integer number) (.integer width number)
  | pstring (text : String) (offset : Nat) :
      Takes paths read .pstring (.text text offset) (.pstring text)
  | cstring (text : String) (offset : Nat) :
      Takes paths read .cstring (.text text offset) (.cstring text)
  | data {reference : String} {offset : Nat} {bytes : ByteArray}
      (file : read (paths.sourceFile reference) = .ok bytes) :
      Takes paths read .data (.text reference offset) (.data bytes)
  | image {reference : String} {offset : Nat} {bytes raster : ByteArray} {surface : Surface}
      (file : read (paths.sourceFile reference) = .ok bytes)
      (decoded : Surface.ofPng bytes = .ok surface) (fits : surface.payload = .ok raster) :
      Takes paths read .image (.text reference offset) (.data raster)

/-- The value of a field, apart from what is reported about it. -/
def FieldDefinition.outcomeOf (paths : TargetPaths) (read : Read) (field : FieldDefinition)
    (value : Toml.Value) : Except Failure FieldValue :=
  match field.kind with
  | .integer width =>
    match value.int64? with
    | some number => .ok (.integer width number)
    | none => .error { cause := .plain s!"field '{field.name}' expects an integer" }
  | .pstring => do return .pstring (← field.textOf value)
  | .cstring => do return .cstring (← field.textOf value)
  | .data => do
    let reference ← field.textOf value
    return .data (← read.bytes (paths.sourceFile reference))
  | .image => do
    let reference ← field.textOf value
    return .data (← Cause.raise .image (read.image (paths.sourceFile reference)))

theorem Reporting.result_lift_bind {α β : Type} (result : Except Failure α)
    (next : α → Reporting β) :
    (liftM result >>= next).result = result >>= fun a => (next a).result := by
  cases result with
  | error failure => rfl
  | ok a => rfl

theorem TargetPaths.result_reference_bind {α : Type} (paths : TargetPaths) (reference : String)
    {next : String → Reporting α} (h : ∀ path, Settled (next path)) :
    (paths.reference reference >>= next).result = (next (paths.sourceFile reference)).result :=
  result_bind _ h

theorem FieldDefinition.result_valueOf (paths : TargetPaths) (read : Read) (field : FieldDefinition)
    (value : Toml.Value) :
    (field.valueOf paths read value).result = field.outcomeOf paths read value := by
  have hstored : ∀ result : Except Failure ByteArray,
      Settled (liftM result >>= fun bytes => pure (FieldValue.data bytes)) :=
    fun result => (settled_lift result).bind fun bytes => settled_pure _
  unfold valueOf outcomeOf
  cases field.kind with
  | integer width => cases value.int64? <;> rfl
  | pstring => exact result_lift_bind _ _
  | cstring => exact result_lift_bind _ _
  | data =>
      apply (result_lift_bind _ _).trans
      congr 1
      funext reference
      exact (paths.result_reference_bind reference fun _ => hstored _).trans (result_lift_bind _ _)
  | image =>
      apply (result_lift_bind _ _).trans
      congr 1
      funext reference
      exact (paths.result_reference_bind reference fun _ => hstored _).trans (result_lift_bind _ _)

theorem FieldDefinition.textOf_eq_ok_iff {field : FieldDefinition} {value : Toml.Value}
    {text : String} : field.textOf value = .ok text ↔ ∃ offset, value = .text text offset := by
  unfold textOf
  cases value with
  | text content offset =>
      rw [Toml.Value.string?, pure_eq_ok_iff]
      simp only [Toml.Value.text.injEq, exists_and_left, exists_eq', and_true, eq_comm]
  | _ => simp [Toml.Value.string?, throw_ne_ok]

theorem Read.bytes_eq_ok_iff {read : Read} {path : String} {bytes : ByteArray} :
    read.bytes path = .ok bytes ↔ read path = .ok bytes := by
  rw [Read.bytes, Failure.inContext_eq_ok_iff, Cause.raise_eq_ok_iff]

theorem Read.image_eq_ok_iff {read : Read} {path : String} {raster : ByteArray} :
    read.image path = .ok raster ↔ ∃ bytes surface, read path = .ok bytes ∧
      Surface.ofPng bytes = .ok surface ∧ surface.payload = .ok raster := by
  simp only [Read.image, bind_eq_ok_iff, mapError_eq_ok_iff, exists_and_left]

/-- A field has exactly the values that its kind takes. -/
theorem FieldDefinition.outcomeOf_eq_ok_iff {paths : TargetPaths} {read : Read}
    {field : FieldDefinition} {given : Toml.Value} {value : FieldValue} :
    field.outcomeOf paths read given = .ok value ↔ field.kind.Takes paths read given value := by
  unfold outcomeOf
  cases field.kind with
  | integer width =>
      cases given with
      | integer number =>
          constructor
          · rintro ⟨⟩
            exact .integer width number
          · rintro ⟨⟩
            rfl
      | _ =>
          constructor
          · rintro ⟨⟩
          · rintro ⟨⟩
  | pstring =>
      simp only [bind_eq_ok_iff, textOf_eq_ok_iff, pure_eq_ok_iff]
      constructor
      · rintro ⟨text, ⟨offset, rfl⟩, rfl⟩
        exact .pstring text offset
      · rintro ⟨⟩
        exact ⟨_, ⟨_, rfl⟩, rfl⟩
  | cstring =>
      simp only [bind_eq_ok_iff, textOf_eq_ok_iff, pure_eq_ok_iff]
      constructor
      · rintro ⟨text, ⟨offset, rfl⟩, rfl⟩
        exact .cstring text offset
      · rintro ⟨⟩
        exact ⟨_, ⟨_, rfl⟩, rfl⟩
  | data =>
      simp only [bind_eq_ok_iff, textOf_eq_ok_iff, pure_eq_ok_iff, Read.bytes_eq_ok_iff]
      constructor
      · rintro ⟨reference, ⟨offset, rfl⟩, bytes, hfile, rfl⟩
        exact .data hfile
      · rintro (_ | _ | _ | hfile | _)
        exact ⟨_, ⟨_, rfl⟩, _, hfile, rfl⟩
  | image =>
      simp only [bind_eq_ok_iff, textOf_eq_ok_iff, pure_eq_ok_iff, Cause.raise_eq_ok_iff,
        Read.image_eq_ok_iff]
      constructor
      · rintro ⟨reference, ⟨offset, rfl⟩, raster, ⟨bytes, surface, hfile, hdecoded, hfits⟩, rfl⟩
        exact .image hfile hdecoded hfits
      · intro h
        cases h with
        | image hfile hdecoded hfits => exact ⟨_, ⟨_, rfl⟩, _, ⟨_, _, hfile, hdecoded, hfits⟩, rfl⟩

/-! ## Resources -/

namespace ResourceEntry

/-- The resource gives a value for the field, and the field's kind takes it. -/
def Gives (paths : TargetPaths) (read : Read) (entry : ResourceEntry) (field : FieldDefinition)
    (value : FieldValue) : Prop :=
  ∃ given, entry.values.get? field.name = some given ∧ field.kind.Takes paths read given value

/-- The record is what the resource makes of the first type of its name in a registry. -/
structure Makes (paths : TargetPaths) (read : Read) (registry : Registry) (entry : ResourceEntry)
    (type : TypeDefinition) (record : ResourceRecord) : Prop where
  found : registry.find? entry.typeName = some type
  code : record.code = type.code
  id : record.id = entry.id
  name : record.name = entry.name
  values : List.Forall₂ (entry.Gives paths read) type.fields record.values

variable {paths : TargetPaths} {read : Read} {registry : Registry} {entry other : ResourceEntry}
  {field : FieldDefinition} {type : TypeDefinition} {record : ResourceRecord}
  {location : Location} {path source : String}

theorem result_fieldValue_eq_ok_iff {value : FieldValue} :
    (entry.fieldValue paths read location field).result = .ok value ↔
      entry.Gives paths read field value := by
  unfold fieldValue Gives
  cases entry.values.get? field.name with
  | none =>
      simp only [reduceCtorEq, false_and, exists_false, iff_false]
      exact fun h => by cases h
  | some given =>
      simp only [Option.some.injEq, exists_eq_left', ← FieldDefinition.outcomeOf_eq_ok_iff,
        ← FieldDefinition.result_valueOf]
      exact Failure.inContext_eq_ok_iff

/-- A resource makes exactly one record, or none. -/
theorem recordIn_eq_ok_iff_makes :
    entry.recordIn path source read registry paths = .ok record ↔
      ∃ type, entry.Makes paths read registry type record := by
  rw [recordIn_eq_ok_iff]
  apply exists_congr
  intro type
  rw [result_record, bind_eq_ok_iff]
  simp only [mapM_eq_ok_iff_forall₂, result_fieldValue_eq_ok_iff]
  constructor
  · rintro ⟨htype, values, hvalues, ⟨⟩⟩
    exact ⟨htype, rfl, rfl, rfl, hvalues⟩
  · rintro ⟨htype, hcode, hid, hname, hvalues⟩
    refine ⟨htype, record.values, hvalues, ?_⟩
    rw [← hcode, ← hid, ← hname]

/-! ## Order and stray values -/

/-- What the resource gives for the fields of a type, without the places at which it is written. -/
def given (entry : ResourceEntry) (type : TypeDefinition) :
    List (String × Option String × Option Int64) :=
  entry.declared.values.filter fun value => (type.field? value.1).isSome

/-- Two resources of one type, id and name that give the same for its fields, in whatever order and
beside whatever other values. No key stands twice. -/
structure Agrees (type : TypeDefinition) (entry other : ResourceEntry) : Prop where
  typeName : entry.typeName = other.typeName
  id : entry.id = other.id
  name : entry.name = other.name
  given : (entry.given type).Perm (other.given type)
  distinct : (entry.values.map (·.1)).Nodup

/-- In whatever order pairs with distinct keys stand, the same one is found under a key. -/
theorem find?_key_of_perm {β : Type} {pairs others : List (String × β)} (h : pairs.Perm others)
    (distinct : (pairs.map (·.1)).Nodup) (key : String) :
    pairs.find? (·.1 = key) = others.find? (·.1 = key) := by
  induction h with
  | nil => rfl
  | cons pair hrest ih =>
      rw [List.find?_cons, List.find?_cons, ih (List.nodup_cons.mp distinct).2]
  | swap first second rest =>
      have hne : second.1 ≠ first.1 := by
        intro hsame
        simp [hsame] at distinct
      by_cases hfirst : first.1 = key
      · have hsecond : second.1 ≠ key := hfirst ▸ hne
        simp [hfirst, hsecond]
      · by_cases hsecond : second.1 = key
        · simp [hfirst, hsecond]
        · simp [hfirst, hsecond]
  | trans hfirst _ ih ih' =>
      have hdistinct := ((hfirst.map (·.1)).nodup_iff).mp distinct
      exact (ih distinct).trans (ih' hdistinct)

/-- Under the name of a field stands what is given for the type's fields. -/
theorem find?_given (entry : ResourceEntry) (h : field ∈ type.fields) :
    (entry.given type).find? (·.1 = field.name) =
      entry.declared.values.find? (·.1 = field.name) := by
  have hfound : (type.field? field.name).isSome := by
    rw [TypeDefinition.field?, List.find?_isSome]
    exact ⟨field, h, decide_eq_true rfl⟩
  rw [given, List.find?_filter]
  congr 1
  funext value
  by_cases hvalue : value.1 = field.name
  · simp [hvalue, hfound]
  · simp [hvalue]

theorem Agrees.told_get? (h : entry.Agrees type other) (hfield : field ∈ type.fields) :
    (entry.values.get? field.name).map (·.told) =
      (other.values.get? field.name).map (·.told) := by
  have hsub : ((entry.given type).map (·.1)).Sublist (entry.values.map (·.1)) := by
    have hkeys : entry.declared.values.map (·.1) = entry.values.map (·.1) := by
      rw [declared, List.map_map]
      rfl
    rw [← hkeys]
    exact List.filter_sublist.map _
  have hfound := find?_key_of_perm h.given (h.distinct.sublist hsub) field.name
  rw [ResourceEntry.told_get?, ResourceEntry.told_get?, ← entry.find?_given hfield,
    ← other.find?_given hfield, hfound]

/-- A resource that agrees with another one makes the record that the other one makes, elsewhere
and in a text of its own. -/
theorem recordIn_of_agrees {otherPath otherSource : String}
    (h : ∀ type, registry.find? entry.typeName = some type → entry.Agrees type other)
    (hrecord : entry.recordIn path source read registry paths = .ok record) :
    other.recordIn otherPath otherSource read registry paths = .ok record := by
  obtain ⟨type, htype, hmade⟩ := recordIn_eq_ok_iff.mp hrecord
  have hagrees := h type htype
  apply recordIn_eq_ok_iff.mpr
  refine ⟨type, hagrees.typeName ▸ htype, ?_⟩
  exact record_of_told hagrees.id hagrees.name (fun field hfield => hagrees.told_get? hfield) hmade

end ResourceEntry

/-! ## Listings -/

namespace Listing

/-- The listing writes the types and, when they stand behind those of the target, its
resources make the records. -/
structure Declares (read : Read) (target : BuildTarget) (listing : Listing)
    (types : List TypeDefinition) (records : List ResourceRecord) : Prop where
  written : types.map (·.written) = listing.types
  made : List.Forall₂
    (fun entry record => ∃ type,
      entry.Makes target.paths read ⟨target.registry.types ++ types⟩ type record)
    listing.resources records

/-- Two listings that write the same types and whose resources agree for the types of a registry. -/
structure Agrees (registry : Registry) (listing other : Listing) : Prop where
  types : listing.types = other.types
  resources : List.Forall₂
    (fun entry counterpart => ∀ type, registry.find? entry.typeName = some type →
      entry.Agrees type counterpart)
    listing.resources other.resources

variable {path source : String} {read : Read} {listing : Listing} {target : BuildTarget}
  {types : List TypeDefinition} {records : List ResourceRecord}

theorem declares_iff (path source : String) : listing.Declares read target types records ↔
    listing.types.mapM (·.definition path) = .ok types ∧
      listing.resources.mapM
        (·.recordIn path source read ⟨target.registry.types ++ types⟩ target.paths) =
          .ok records := by
  rw [mapM_eq_ok_iff_map_eq fun _ _ => TypeEntry.definition_eq_ok_iff_written,
    mapM_eq_ok_iff_forall₂]
  simp only [ResourceEntry.recordIn_eq_ok_iff_makes]
  exact ⟨fun h => ⟨h.written, h.made⟩, fun h => ⟨h.1, h.2⟩⟩

/-- What a listing declares, a target takes on. -/
theorem Declares.ends (h : listing.Declares read target types records) (path source : String) :
    Ends (listing.assemble path source read) target (.ok listing.summary)
      (target.content.extended { types, records }) := by
  obtain ⟨htypes, hrecords⟩ := (declares_iff path source).mp h
  exact ends_assemble_ok_iff.mpr ⟨rfl, types, records, htypes, hrecords, rfl⟩

/-- A listing that agrees with another one declares what the other one declares. -/
theorem Declares.of_agrees {other : Listing} (h : listing.Declares read target types records)
    (hagrees : listing.Agrees ⟨target.registry.types ++ types⟩ other) :
    other.Declares read target types records := by
  obtain ⟨htypes, hrecords⟩ := (declares_iff "" "").mp h
  apply (declares_iff "" "").mpr
  refine ⟨hagrees.types ▸ htypes, ?_⟩
  refine mapM_eq_ok_of_forall₂ ?_ hagrees.resources hrecords
  intro entry counterpart record hentry hrecord
  exact ResourceEntry.recordIn_of_agrees hentry hrecord

/-- Assembling a listing, on whatever target and with whatever the files hold. It succeeds exactly
when the listing declares types and records. These are then all of its types and a record for each
of its resources: the types stand behind those that were registered, and the records are inserted
into the file one after the other, each with the code of the first type of its name and with the
values of that type's fields as its payload. A listing that gives the same values in another order,
or beside other stray ones, is assembled with the same summary and leaves the same target. -/
theorem assembled_as_declared (path source : String) (read : Read) (listing : Listing)
    (target : BuildTarget) :
    let assembled := runOn (listing.assemble path source read).run target
    ((∃ summary, assembled.1 = .ok summary) ↔
        ∃ types records, listing.Declares read target types records) ∧
      ∀ types records, listing.Declares read target types records →
        assembled.1 = .ok ⟨listing.types.length, listing.resources.length⟩ ∧
          assembled.2.registry.types = target.registry.types ++ types ∧
          assembled.2.file = target.file.addAll (records.map Addition.ofRecord) ∧
          assembled.2.content = target.content.extended { types, records } ∧
          (∀ record ∈ records, octets record.payload =
            record.values.flatMap fun value => octets value.encode) ∧
          ∀ otherPath otherSource other, listing.Agrees ⟨target.registry.types ++ types⟩ other →
            let reassembled := runOn (other.assemble otherPath otherSource read).run target
            reassembled.1 = assembled.1 ∧ reassembled.2.content = assembled.2.content := by
  intro assembled
  refine ⟨⟨?_, ?_⟩, ?_⟩
  · rintro ⟨summary, hsummary⟩
    obtain ⟨-, types, records, htypes, hrecords, -⟩ :=
      ends_assemble_ok_iff.mp (⟨hsummary, rfl⟩ : Ends _ target (.ok summary) assembled.2.content)
    exact ⟨types, records, (declares_iff path source).mpr ⟨htypes, hrecords⟩⟩
  · rintro ⟨types, records, h⟩
    exact ⟨_, (h.ends path source).1⟩
  · intro types records h
    obtain ⟨hresult, hcontent⟩ := h.ends path source
    refine ⟨hresult, ?_, ?_, hcontent, fun record _ => record.octets_payload, ?_⟩
    · exact congrArg (·.registry.types) hcontent
    · exact congrArg (·.file) hcontent
    · intro otherPath otherSource other hagrees
      obtain ⟨hresult', hcontent'⟩ := (h.of_agrees hagrees).ends otherPath otherSource
      have hsummary : other.summary = listing.summary := by
        rw [summary, summary, ← hagrees.types, ← hagrees.resources.length_eq]
      rw [hsummary] at hresult'
      exact ⟨hresult'.trans hresult.symm, hcontent'.trans hcontent.symm⟩

/-- A target that knows ducks already. -/
def pond : BuildTarget where
  registry := ⟨[{ name := "Duck", code := ⟨'D', 'U', 'C', 'K', by decide⟩
                  fields := [{ name := "age", kind := .integer .word }] }]⟩

/-- Another type of ducks, and a type that has a field twice. -/
def geese : List TypeDefinition :=
  [{ name := "Duck", code := ⟨'d', 'u', 'c', 'k', by decide⟩ },
   { name := "Goose", code := ⟨'G', 'O', 'O', 'S', by decide⟩
     fields := [{ name := "age", kind := .integer .byte }, { name := "call", kind := .cstring },
                { name := "age", kind := .integer .byte }] }]

/-- A goose and a duck of the first type of this name, with a stray value. -/
def flock : Listing where
  types := geese.map (·.written)
  resources := [
    { typeName := "Goose", typeOffset := 110, id := 128, name := "Martin"
      values := [("age", .integer 3), ("call", .text "honk" 160), ("wings", .integer 2)] },
    { typeName := "Duck", typeOffset := 200, id := 7, values := [("age", .integer 258)] }]

/-- The same with the values of the goose in another order and without the stray one. -/
def tidyFlock : Listing where
  types := geese.map (·.written)
  resources := [
    { typeName := "Goose", typeOffset := 98, id := 128, name := "Martin"
      values := [("call", .text "honk" 130), ("age", .integer 3)] },
    { typeName := "Duck", typeOffset := 180, id := 7
      values := [("feet", .integer 2), ("age", .integer 258)] }]

/-- The records of both. -/
def birds : List ResourceRecord :=
  [{ code := ⟨'G', 'O', 'O', 'S', by decide⟩, id := 128, name := "Martin"
     values := [.integer .byte 3, .cstring "honk", .integer .byte 3] },
   { code := ⟨'D', 'U', 'C', 'K', by decide⟩, id := 7, name := "", values := [.integer .word 258] }]

theorem assembled_as_declared_flock :
    flock.Declares (fun _ => .error .notFound) pond geese birds ∧
      flock.Agrees ⟨pond.registry.types ++ geese⟩ tidyFlock ∧
      (let read : Read := fun _ => .error .notFound
       let assembled := runOn (flock.assemble "flock.kdl" "" read).run pond
       assembled.1 = .ok ⟨2, 2⟩ ∧ assembled.2.registry.types = pond.registry.types ++ geese ∧
        assembled.2.file = pond.file.addAll (birds.map Addition.ofRecord) ∧
        (runOn (tidyFlock.assemble "tidy.kdl" "" read).run pond).1 = .ok ⟨2, 2⟩) := by
  have hdeclares : flock.Declares (fun _ => .error .notFound) pond geese birds := by
    refine ⟨rfl, .cons ⟨geese[1], ?_⟩ (.cons ⟨pond.registry.types[0], ?_⟩ .nil)⟩
    · refine ⟨by decide +kernel, rfl, rfl, rfl, ?_⟩
      exact .cons ⟨_, rfl, .integer _ _⟩ (.cons ⟨_, rfl, .cstring _ _⟩
        (.cons ⟨_, rfl, .integer _ _⟩ .nil))
    · exact ⟨by decide +kernel, rfl, rfl, rfl, .cons ⟨_, rfl, .integer _ _⟩ .nil⟩
  have hagrees : flock.Agrees ⟨pond.registry.types ++ geese⟩ tidyFlock := by
    refine ⟨rfl, .cons ?_ (.cons ?_ .nil)⟩
    · intro type htype
      obtain rfl : geese[1] = type := Option.some.inj htype
      exact ⟨rfl, rfl, rfl, by decide +kernel, by decide⟩
    · intro type htype
      obtain rfl : pond.registry.types[0] = type := Option.some.inj htype
      exact ⟨rfl, rfl, rfl, by decide +kernel, by decide⟩
  obtain ⟨-, h⟩ :=
    assembled_as_declared "flock.kdl" "" (fun _ => .error .notFound) flock pond
  obtain ⟨hresult, htypes, hfile, -, -, hother⟩ := h geese birds hdeclares
  obtain ⟨hsame, -⟩ := hother "tidy.kdl" "" tidyFlock hagrees
  exact ⟨hdeclares, hagrees, hresult, htypes, hfile, hsame.trans hresult⟩

end Listing

end ResourceAssembler
