import ResourceAssembler.Proofs.Image.Payload
import ResourceAssembler.Proofs.Listing.Declaration
import ResourceAssembler.Proofs.Location

/-!
# Where a listing fails

A listing fails at the first of its types that cannot be written as it is, or else at the
first of its resources that makes no record. What stands before it is in the target by then,
whole, and nothing of what fails or stands behind it is. A failure says what was wrong, in the
words of its kind, and where.
-/

namespace ResourceAssembler

open Assembly Container Outcome Reporting

/-! ## Types -/

theorem FieldKind.ofString_eq_error_iff {written : String} {error : DefinitionError} :
    ofString written = .error error ↔
      (∀ kind : FieldKind, kind.name ≠ written) ∧ error = .unknownFieldKind written := by
  rw [← not_exists]
  simp only [← FieldKind.ofString_eq_ok_iff, ← exists_eq_error_iff]
  rw [ofString]
  cases ofName? written with
  | none => simp [eq_comm]
  | some kind => simp

theorem FieldEntry.definition_eq_error_iff {typeName : String} {entry : FieldEntry}
    {failure : Failure} : entry.definition typeName = .error failure ↔
      (∀ kind : FieldKind, kind.name ≠ entry.kind) ∧
        failure = { contexts := [s!"field '{entry.name}' of type '{typeName}'"]
                    cause := .definition (.unknownFieldKind entry.kind) } := by
  simp only [definition, bind_eq_error_iff, pure_ne_error, and_false, exists_false, or_false,
    Failure.inContext_eq_error_iff, Cause.raise_eq_error_iff, FieldKind.ofString_eq_error_iff]
  constructor
  · rintro ⟨_, ⟨_, ⟨hunknown, rfl⟩, rfl⟩, rfl⟩
    exact ⟨hunknown, rfl⟩
  · rintro ⟨hunknown, rfl⟩
    exact ⟨_, ⟨_, ⟨hunknown, rfl⟩, rfl⟩, rfl⟩

/-- What is wrong with a type that cannot be declared. Its code is looked at
first, and then its fields. -/
inductive TypeEntry.Offends (path : String) (entry : TypeEntry) : Failure → Prop where
  | invalidCode (invalid : ∀ code : TypeCode, code.text ≠ entry.code) :
      Offends path entry
        { contexts := [s!"type '{entry.name}' in {path}"]
          cause := .definition (.invalidTypeCode entry.code) }
  | unknownKind {code : TypeCode} {known : List FieldDefinition} {field : FieldEntry}
      {behind : List FieldEntry} (valid : code.text = entry.code)
      (fields : entry.fields = known.map (·.written) ++ field :: behind)
      (unknown : ∀ kind : FieldKind, kind.name ≠ field.kind) :
      Offends path entry
        { contexts := [s!"field '{field.name}' of type '{entry.name}'"]
          cause := .definition (.unknownFieldKind field.kind) }

theorem TypeEntry.definition_eq_error_iff {path : String} {entry : TypeEntry} {failure : Failure} :
    entry.definition path = .error failure ↔ entry.Offends path failure := by
  simp only [definition, bind_eq_error_iff, pure_ne_error, and_false, exists_false, or_false,
    Failure.inContext_eq_error_iff, Failure.inContext_eq_ok_iff, Cause.raise_eq_error_iff,
    Cause.raise_eq_ok_iff, TypeCode.ofString_eq_error_iff, TypeCode.ofString_eq_ok_iff,
    mapM_eq_error_iff, FieldEntry.definition_eq_error_iff,
    mapM_eq_ok_iff_map_eq fun _ _ => FieldEntry.definition_eq_ok_iff]
  constructor
  · rintro (⟨_, ⟨_, ⟨hinvalid, rfl⟩, rfl⟩, rfl⟩ |
      ⟨code, hcode, _, field, behind, known, hfields, rfl, hunknown, rfl⟩)
    · exact .invalidCode hinvalid
    · exact .unknownKind hcode hfields hunknown
  · intro h
    cases h with
    | invalidCode hinvalid => exact .inl ⟨_, ⟨_, ⟨hinvalid, rfl⟩, rfl⟩, rfl⟩
    | unknownKind hcode hfields hunknown =>
        exact .inr ⟨_, hcode, _, _, _, _, hfields, rfl, hunknown, rfl⟩

/-! ## Values -/

theorem FieldDefinition.textOf_eq_error_iff {field : FieldDefinition} {value : Toml.Value}
    {failure : Failure} : field.textOf value = .error failure ↔
      (∀ text offset, value ≠ .text text offset) ∧
        failure = { cause := .plain s!"field '{field.name}' expects a string" } := by
  unfold textOf
  cases value with
  | text content offset => simp [Toml.Value.string?, pure_ne_error]
  | _ => simp [Toml.Value.string?, throw, throwThe, MonadExceptOf.throw, eq_comm]

theorem Read.bytes_eq_error_iff {read : Read} {path : String} {failure : Failure} :
    read.bytes path = .error failure ↔ ∃ fault, read path = .error fault ∧
      failure = { contexts := [s!"reading {path}"], cause := .host fault } := by
  simp only [Read.bytes, Failure.inContext_eq_error_iff, Cause.raise_eq_error_iff]
  constructor
  · rintro ⟨_, ⟨fault, hfault, rfl⟩, rfl⟩
    exact ⟨fault, hfault, rfl⟩
  · rintro ⟨fault, hfault, rfl⟩
    exact ⟨_, ⟨fault, hfault, rfl⟩, rfl⟩

/-- Why there is no payload for an image in a file. -/
inductive Read.ImageFault (read : Read) (path : String) : ImageError → Prop where
  | unreadable {fault : HostFault} (file : read path = .error fault) :
      ImageFault read path (.host path fault)
  | undecodable {bytes : ByteArray} {error : ImageError} (file : read path = .ok bytes)
      (decoded : Surface.ofPng bytes = .error error) : ImageFault read path error
  | oversized {bytes : ByteArray} {surface : Surface} (file : read path = .ok bytes)
      (decoded : Surface.ofPng bytes = .ok surface)
      (extent : 65535 < surface.width ∨ 65535 < surface.height) :
      ImageFault read path (.tooLarge surface.width surface.height)

theorem Read.image_eq_error_iff {read : Read} {path : String} {error : ImageError} :
    read.image path = .error error ↔ read.ImageFault path error := by
  simp only [Read.image, bind_eq_error_iff, mapError_eq_error_iff, mapError_eq_ok_iff,
    Surface.payload_eq_error_iff]
  constructor
  · rintro (⟨fault, hfile, rfl⟩ | ⟨bytes, hfile, hdecoded | ⟨surface, hdecoded, hextent, rfl⟩⟩)
    · exact .unreadable hfile
    · exact .undecodable hfile hdecoded
    · exact .oversized hfile hdecoded hextent
  · intro h
    cases h with
    | unreadable hfile => exact .inl ⟨_, hfile, rfl⟩
    | undecodable hfile hdecoded => exact .inr ⟨_, hfile, .inl hdecoded⟩
    | oversized hfile hdecoded hextent => exact .inr ⟨_, hfile, .inr ⟨_, hdecoded, hextent, rfl⟩⟩

/-- What is wrong with a value that a field does not take. -/
inductive FieldDefinition.Refuses (paths : TargetPaths) (read : Read) (field : FieldDefinition) :
    Toml.Value → Failure → Prop where
  | noInteger {width : IntegerWidth} {value : Toml.Value} (kind : field.kind = .integer width)
      (mistyped : ∀ number, value ≠ .integer number) :
      Refuses paths read field value { cause := .plain s!"field '{field.name}' expects an integer" }
  | noText {value : Toml.Value} (kind : ∀ width, field.kind ≠ .integer width)
      (mistyped : ∀ text offset, value ≠ .text text offset) :
      Refuses paths read field value { cause := .plain s!"field '{field.name}' expects a string" }
  | unreadable {reference : String} {offset : Nat} {fault : HostFault} (kind : field.kind = .data)
      (file : read (paths.sourceFile reference) = .error fault) :
      Refuses paths read field (.text reference offset)
        { contexts := [s!"reading {paths.sourceFile reference}"], cause := .host fault }
  | noImage {reference : String} {offset : Nat} {error : ImageError} (kind : field.kind = .image)
      (image : read.ImageFault (paths.sourceFile reference) error) :
      Refuses paths read field (.text reference offset) { cause := .image error }

/-- A field has exactly the faults of the values that it does not take. -/
theorem FieldDefinition.outcomeOf_eq_error_iff {paths : TargetPaths} {read : Read}
    {field : FieldDefinition} {given : Toml.Value} {failure : Failure} :
    field.outcomeOf paths read given = .error failure ↔ field.Refuses paths read given failure := by
  constructor
  · unfold outcomeOf
    cases hkind : field.kind with
    | integer width =>
        cases given with
        | integer number =>
            intro h
            cases h
        | _ =>
            rintro ⟨⟩
            exact .noInteger hkind fun number h => by cases h
    | pstring =>
        simp only [bind_eq_error_iff, textOf_eq_error_iff, pure_ne_error, and_false, exists_false,
          or_false]
        rintro ⟨hmistyped, rfl⟩
        exact .noText (by simp [hkind]) hmistyped
    | cstring =>
        simp only [bind_eq_error_iff, textOf_eq_error_iff, pure_ne_error, and_false, exists_false,
          or_false]
        rintro ⟨hmistyped, rfl⟩
        exact .noText (by simp [hkind]) hmistyped
    | data =>
        simp only [bind_eq_error_iff, textOf_eq_error_iff, textOf_eq_ok_iff, pure_ne_error,
          and_false, exists_false, or_false, Read.bytes_eq_error_iff]
        rintro (⟨hmistyped, rfl⟩ | ⟨reference, ⟨offset, rfl⟩, fault, hfile, rfl⟩)
        · exact .noText (by simp [hkind]) hmistyped
        · exact .unreadable hkind hfile
    | image =>
        simp only [bind_eq_error_iff, textOf_eq_error_iff, textOf_eq_ok_iff, pure_ne_error,
          and_false, exists_false, or_false, Cause.raise_eq_error_iff, Read.image_eq_error_iff]
        rintro (⟨hmistyped, rfl⟩ | ⟨reference, ⟨offset, rfl⟩, error, himage, rfl⟩)
        · exact .noText (by simp [hkind]) hmistyped
        · exact .noImage hkind himage
  · intro h
    cases h with
    | noInteger hkind hmistyped =>
        rw [outcomeOf, hkind]
        cases given with
        | integer number => exact absurd rfl (hmistyped number)
        | _ => rfl
    | noText hkind hmistyped =>
        have htext : field.textOf given = .error _ := textOf_eq_error_iff.mpr ⟨hmistyped, rfl⟩
        unfold outcomeOf
        cases hfound : field.kind with
        | integer width => exact absurd hfound (hkind width)
        | _ => exact bind_eq_error_iff.mpr (.inl htext)
    | @unreadable reference offset fault hkind hfile =>
        have htext : field.textOf (.text reference offset) = .ok reference := rfl
        rw [outcomeOf, hkind]
        apply bind_eq_error_iff.mpr (.inr ⟨reference, htext, ?_⟩)
        exact bind_eq_error_iff.mpr (.inl (Read.bytes_eq_error_iff.mpr ⟨fault, hfile, rfl⟩))
    | @noImage reference offset error hkind himage =>
        have htext : field.textOf (.text reference offset) = .ok reference := rfl
        rw [outcomeOf, hkind]
        apply bind_eq_error_iff.mpr (.inr ⟨reference, htext, ?_⟩)
        apply bind_eq_error_iff.mpr (.inl (Cause.raise_eq_error_iff.mpr ⟨error, ?_, rfl⟩))
        exact Read.image_eq_error_iff.mpr himage

/-! ## Resources -/

theorem Registry.named_eq_error_iff {registry : Registry} {name : Lexeme} {error : TargetError} :
    registry.named name = .error error ↔
      registry.find? name.text = none ∧ error = .missingType name.text name.location := by
  unfold named
  cases registry.find? name.text with
  | none => simp [eq_comm]
  | some found => simp

namespace ResourceEntry

/-- What is wrong with a resource that makes no record of the types of a registry. The fields of its
type are looked at in their order, and those before the one at fault are given. -/
inductive Offends (paths : TargetPaths) (read : Read) (registry : Registry) (location : Location)
    (entry : ResourceEntry) : Failure → Prop where
  | unknownType (unknown : registry.find? entry.typeName = none) :
      Offends paths read registry location entry
        { cause := .target (.missingType entry.typeName location) }
  | missingValue {type : TypeDefinition} {before behind : List FieldDefinition}
      {field : FieldDefinition} {values : List FieldValue}
      (found : registry.find? entry.typeName = some type)
      (fields : type.fields = before ++ field :: behind)
      (given : List.Forall₂ (entry.Gives paths read) before values)
      (missing : entry.values.get? field.name = none) :
      Offends paths read registry location entry
        { cause := .plain s!"{entry.label location} is missing field '{field.name}'" }
  | refusedValue {type : TypeDefinition} {before behind : List FieldDefinition}
      {field : FieldDefinition} {values : List FieldValue} {value : Toml.Value} {failure : Failure}
      (found : registry.find? entry.typeName = some type)
      (fields : type.fields = before ++ field :: behind)
      (given : List.Forall₂ (entry.Gives paths read) before values)
      (present : entry.values.get? field.name = some value)
      (refused : field.Refuses paths read value failure) :
      Offends paths read registry location entry (failure.within (entry.label location))

variable {paths : TargetPaths} {read : Read} {registry : Registry} {entry : ResourceEntry}
  {field : FieldDefinition} {location : Location} {path source : String} {failure : Failure}

theorem result_fieldValue_eq_error_iff :
    (entry.fieldValue paths read location field).result = .error failure ↔
      (entry.values.get? field.name = none ∧
        failure = { cause := .plain s!"{entry.label location} is missing field '{field.name}'" }) ∨
      ∃ value inner, entry.values.get? field.name = some value ∧
        field.Refuses paths read value inner ∧ inner.within (entry.label location) = failure := by
  unfold fieldValue
  cases entry.values.get? field.name with
  | none =>
      simp only [reduceCtorEq, false_and, exists_false, or_false, true_and]
      exact ⟨fun h => (Except.error.inj h).symm, fun h => congrArg Except.error h.symm⟩
  | some value =>
      have hresult : (inContext (entry.label location) (field.valueOf paths read value)).result =
          Failure.inContext (entry.label location) (field.outcomeOf paths read value) :=
        congrArg (Failure.inContext _) (field.result_valueOf paths read value)
      simp only [hresult, Failure.inContext_eq_error_iff, FieldDefinition.outcomeOf_eq_error_iff,
        Option.some.injEq, reduceCtorEq, false_and, false_or, exists_and_left, exists_eq_left']

/-- A resource makes no record exactly when something is wrong with it. -/
theorem recordIn_eq_error_iff :
    entry.recordIn path source read registry paths = .error failure ↔
      entry.Offends paths read registry (Location.ofOffset path source entry.typeOffset)
        failure := by
  have hnamed : ∀ type, registry.named (entry.typeLexeme path source) = .ok type ↔
      registry.find? entry.typeName = some type :=
    fun type => Registry.named_eq_ok_iff
  have hunnamed : ∀ error, registry.named (entry.typeLexeme path source) = .error error ↔
      registry.find? entry.typeName = none ∧
        error = .missingType entry.typeName (Location.ofOffset path source entry.typeOffset) :=
    fun error => Registry.named_eq_error_iff
  have hplace : (entry.typeLexeme path source).location =
      Location.ofOffset path source entry.typeOffset := rfl
  simp only [recordIn, bind_eq_error_iff, Cause.raise_eq_error_iff, Cause.raise_eq_ok_iff, hnamed,
    hunnamed, hplace, result_record, reduceCtorEq, and_false, exists_false, or_false,
    mapM_eq_error_iff, mapM_eq_ok_iff_forall₂, result_fieldValue_eq_ok_iff,
    result_fieldValue_eq_error_iff]
  constructor
  · rintro (⟨_, ⟨hunknown, rfl⟩, rfl⟩ | ⟨type, hfound, before, field, behind, values, hfields,
      hgiven, ⟨hmissing, rfl⟩ | ⟨value, inner, hpresent, hrefused, rfl⟩⟩)
    · exact .unknownType hunknown
    · exact .missingValue hfound hfields hgiven hmissing
    · exact .refusedValue hfound hfields hgiven hpresent hrefused
  · intro h
    cases h with
    | unknownType hunknown => exact .inl ⟨_, ⟨hunknown, rfl⟩, rfl⟩
    | missingValue hfound hfields hgiven hmissing =>
        exact .inr ⟨_, hfound, _, _, _, _, hfields, hgiven, .inl ⟨hmissing, rfl⟩⟩
    | refusedValue hfound hfields hgiven hpresent hrefused =>
        exact .inr ⟨_, hfound, _, _, _, _, hfields, hgiven, .inr ⟨_, _, hpresent, hrefused, rfl⟩⟩

end ResourceEntry

/-! ## Listings -/

namespace Listing

/-- A listing stops with a failure, when it has registered the types and added the records: at a
type before any record is made, or at a resource once all types are registered. -/
inductive Stops (path source : String) (read : Read) (target : BuildTarget) (listing : Listing) :
    List TypeDefinition → List ResourceRecord → Failure → Prop where
  | atType {types : List TypeDefinition} {bad : TypeEntry} {behind : List TypeEntry}
      {failure : Failure} (written : listing.types = types.map (·.written) ++ bad :: behind)
      (offends : bad.Offends path failure) : Stops path source read target listing types [] failure
  | atResource {types : List TypeDefinition} {records : List ResourceRecord}
      {before behind : List ResourceEntry} {bad : ResourceEntry} {failure : Failure}
      (written : listing.types = types.map (·.written))
      (resources : listing.resources = before ++ bad :: behind)
      (made : List.Forall₂
        (fun entry record => ∃ type,
          entry.Makes target.paths read ⟨target.registry.types ++ types⟩ type record)
        before records)
      (offends : bad.Offends target.paths read ⟨target.registry.types ++ types⟩
        (Location.ofOffset path source bad.typeOffset) failure) :
      Stops path source read target listing types records failure

variable {path source : String} {read : Read} {listing : Listing} {target : BuildTarget}
  {types : List TypeDefinition} {records : List ResourceRecord} {failure : Failure}

theorem stops_iff : listing.Stops path source read target types records failure ↔
    listing.contribution path source read target.registry target.paths =
      { types, records, fault := some failure } := by
  simp only [contribution_eq_fault_iff, Progress.along_eq_fault_iff,
    TypeEntry.definition_eq_error_iff, ResourceEntry.recordIn_eq_error_iff,
    mapM_eq_ok_iff_map_eq fun _ _ => TypeEntry.definition_eq_ok_iff_written, mapM_eq_ok_iff_forall₂,
    ResourceEntry.recordIn_eq_ok_iff_makes]
  constructor
  · intro h
    cases h with
    | atType hwritten hoffends => exact .inl ⟨rfl, _, _, _, hwritten, rfl, hoffends⟩
    | atResource hwritten hresources hmade hoffends =>
        exact .inr ⟨hwritten.symm, _, _, _, hresources, hmade, hoffends⟩
  · rintro (⟨rfl, _, bad, behind, hwritten, rfl, hoffends⟩ |
      ⟨hwritten, before, bad, behind, hresources, hmade, hoffends⟩)
    · exact .atType hwritten hoffends
    · exact .atResource hwritten.symm hresources hmade hoffends

/-- What a listing did before it stops, a target keeps. -/
theorem Stops.ends (h : listing.Stops path source read target types records failure) :
    Ends (listing.assemble path source read) target (.error failure)
      (target.content.extended { types, records }) := by
  have hends := listing.ends_assemble path source read target
  rw [stops_iff.mp h] at hends
  exact hends

theorem exists_stops
    (h : (runOn (listing.assemble path source read).run target).1 = .error failure) :
    ∃ types records, listing.Stops path source read target types records failure := by
  have hresult := (listing.ends_assemble path source read target).1
  rw [h] at hresult
  cases hmade : listing.contribution path source read target.registry target.paths with
  | mk types records fault =>
      rw [hmade] at hresult
      cases fault with
      | none => cases hresult
      | some fault =>
          cases hresult
          exact ⟨types, records, stops_iff.mpr hmade⟩

/-- A type is missed by the resource behind those that made records, under the name that this
resource gives and at the place where it does. -/
theorem Stops.missingType (h : listing.Stops path source read target types records failure)
    {name : String} {location : Location}
    (hcause : failure.cause = .target (.missingType name location)) :
    ∃ bad, listing.resources[records.length]? = some bad ∧ name = bad.typeName ∧
      location = Location.ofOffset path source bad.typeOffset := by
  cases h with
  | atType _ hoffends => cases hoffends <;> cases hcause
  | @atResource _ before behind bad _ _ hresources hmade hoffends =>
      refine ⟨bad, ?_, ?_⟩
      · rw [hresources, ← hmade.length_eq, List.getElem?_append_right (Nat.le_refl _), Nat.sub_self]
        rfl
      · cases hoffends with
        | unknownType _ =>
            cases hcause
            exact ⟨rfl, rfl⟩
        | missingValue _ _ _ _ => cases hcause
        | refusedValue _ _ _ _ hrefused => cases hrefused <;> cases hcause

/-- Assembling a listing, on whatever target and with whatever the files hold. It fails exactly with
the failures at which the listing stops, and it leaves what came before: the types that stand before
the one at fault and no records, or all types and the records of the resources that stand before the
one at fault, each with all of its values. If a type is missing, the failure gives its name as that
resource writes it, with the line and the column of the place where it is written. -/
theorem failed_listing_leaves_prefix (path source : String) (read : Read) (listing : Listing)
    (target : BuildTarget) :
    let assembled := runOn (listing.assemble path source read).run target
    (∀ failure, assembled.1 = .error failure ↔
        ∃ types records, listing.Stops path source read target types records failure) ∧
      ∀ types records failure, listing.Stops path source read target types records failure →
        assembled.2.registry.types = target.registry.types ++ types ∧
          assembled.2.file = target.file.addAll (records.map Addition.ofRecord) ∧
          assembled.2.content = target.content.extended { types, records } ∧
          (∀ record ∈ records, octets record.payload =
            record.values.flatMap fun value => octets value.encode) ∧
          ∀ name location, failure.cause = .target (.missingType name location) →
            ∃ bad closed opened, listing.resources[records.length]? = some bad ∧
              name = bad.typeName ∧ location.file = path ∧
              location.Marks source bad.typeOffset closed opened := by
  intro assembled
  refine ⟨fun failure => ⟨exists_stops, ?_⟩, ?_⟩
  · rintro ⟨types, records, h⟩
    exact h.ends.1
  · intro types records failure h
    have hcontent := h.ends.2
    refine ⟨congrArg (·.registry.types) hcontent, congrArg (·.file) hcontent, hcontent,
      fun record _ => record.octets_payload, ?_⟩
    intro name location hcause
    obtain ⟨bad, hbad, hname, rfl⟩ := h.missingType hcause
    obtain ⟨closed, opened, hmarks⟩ := Location.marks_ofOffset path source bad.typeOffset
    exact ⟨bad, closed, opened, hbad, hname, rfl, hmarks⟩

/-- A text in whose second line a swan is named. -/
def swanText : String :=
  "[[resource]]\ntype = 'Swan'"

/-- The flock with a swan behind the goose. No type of this name is known. -/
def swanFlock : Listing where
  types := flock.types
  resources :=
    flock.resources.insertIdx 1 { typeName := "Swan", typeOffset := 20, id := 4 }

theorem failed_listing_leaves_prefix_swanFlock :
    let read : Read := fun _ => .error .notFound
    let failure : Failure := { cause := .target (.missingType "Swan" ⟨"flock.kdl", 2, 8⟩) }
    let assembled := runOn (swanFlock.assemble "flock.kdl" swanText read).run pond
    swanFlock.Stops "flock.kdl" swanText read pond geese (birds.take 1) failure ∧
      assembled.1 = .error failure ∧
      assembled.2.registry.types = pond.registry.types ++ geese ∧
      assembled.2.file = pond.file.addAll ((birds.take 1).map Addition.ofRecord) ∧
      ∃ bad closed opened, swanFlock.resources[1]? = some bad ∧ "Swan" = bad.typeName ∧
        Location.Marks ⟨"flock.kdl", 2, 8⟩ swanText bad.typeOffset closed opened := by
  intro read failure assembled
  have hplace : Location.ofOffset "flock.kdl" swanText 20 = ⟨"flock.kdl", 2, 8⟩ := by
    decide +kernel
  have hgoose : swanFlock.resources = flock.resources.take 1 ++ _ :: flock.resources.drop 1 := rfl
  have hstops : swanFlock.Stops "flock.kdl" swanText read pond geese (birds.take 1) failure := by
    refine .atResource rfl hgoose (.cons ⟨geese[1], by decide +kernel, rfl, rfl, rfl, ?_⟩ .nil) ?_
    · exact .cons ⟨_, rfl, .integer _ _⟩ (.cons ⟨_, rfl, .cstring _ _⟩
        (.cons ⟨_, rfl, .integer _ _⟩ .nil))
    · rw [hplace]
      exact .unknownType (by decide +kernel)
  obtain ⟨hfails, hleaves⟩ :=
    failed_listing_leaves_prefix "flock.kdl" swanText read swanFlock pond
  have hresult : assembled.1 = .error failure := (hfails failure).mpr ⟨_, _, hstops⟩
  obtain ⟨htypes, hfile, -, -, hmissing⟩ := hleaves _ _ _ hstops
  obtain ⟨bad, closed, opened, hbad, hname, -, hmarks⟩ := hmissing _ _ rfl
  dsimp only [assembled]
  exact ⟨hstops, hresult, htypes, hfile, bad, closed, opened, hbad, hname, hmarks⟩

end Listing

end ResourceAssembler
