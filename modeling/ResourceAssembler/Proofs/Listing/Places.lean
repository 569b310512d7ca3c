import ResourceAssembler.Proofs.Listing.Contribution

/-!
# Where a listing is written

The path of a listing, and the places in its text at which its parts are written, are for
failures and notices. What a declared resource makes of its type depends on its name, its id and
the texts and numbers that it gives, and the type that it names is the first one of that name. So
a resource that makes a record makes the same record wherever it is written, and types that are
registered later do not change it.
-/

namespace ResourceAssembler

open Outcome

variable {α β : Type}

theorem Failure.inContext_eq_ok_iff {context : String} {result : Except Failure α} {a : α} :
    Failure.inContext context result = .ok a ↔ result = .ok a :=
  mapError_eq_ok_iff

theorem Cause.raise_eq_ok_iff {ε : Type} {cause : ε → Cause} {result : Except ε α} {a : α} :
    Cause.raise cause result = .ok a ↔ result = .ok a :=
  mapError_eq_ok_iff

theorem Failure.inContext_eq_error_iff {context : String} {result : Except Failure α}
    {failure : Failure} : Failure.inContext context result = .error failure ↔
      ∃ inner, result = .error inner ∧ inner.within context = failure :=
  mapError_eq_error_iff

theorem Cause.raise_eq_error_iff {ε : Type} {cause : ε → Cause} {result : Except ε α}
    {failure : Failure} : Cause.raise cause result = .error failure ↔
      ∃ error, result = .error error ∧ { cause := cause error } = failure :=
  mapError_eq_error_iff

/-- A declared type is the same in every file. -/
theorem TypeEntry.definition_eq_ok_iff {path other : String} {entry : TypeEntry}
    {type : TypeDefinition} :
    entry.definition path = .ok type ↔ entry.definition other = .ok type := by
  simp only [definition, bind_eq_ok_iff, Failure.inContext_eq_ok_iff, Cause.raise_eq_ok_iff]

theorem Registry.named_eq_ok_iff {registry : Registry} {name : Lexeme} {type : TypeDefinition} :
    registry.named name = .ok type ↔ registry.find? name.text = some type := by
  unfold named
  cases registry.find? name.text with
  | none => simp
  | some found => simp

theorem TypeEntry.name_definition {path : String} {entry : TypeEntry} {type : TypeDefinition}
    (h : entry.definition path = .ok type) : type.name = entry.name := by
  simp only [definition, bind_eq_ok_iff, pure_eq_ok_iff] at h
  obtain ⟨code, -, fields, -, rfl⟩ := h
  rfl

/-! ## Results of settled work -/

namespace Reporting

theorem result_bind (first : Reporting α) {next : α → Reporting β}
    (hnext : ∀ a, Settled (next a)) :
    (first >>= next).result = first.result >>= fun a => (next a).result := by
  unfold result
  rw [runOn_run_bind]
  rcases runOn first.run #[] with ⟨found, reported⟩
  cases found with
  | error failure => rfl
  | ok a => exact hnext a reported

theorem result_mapM {items : List α} {work : α → Reporting β} (h : ∀ item, Settled (work item)) :
    (items.mapM work).result = items.mapM fun item => (work item).result := by
  induction items with
  | nil => rfl
  | cons item rest ih =>
      have hrest : ∀ b, Settled (rest.mapM work >>= fun bs => pure (b :: bs)) :=
        fun b => (settled_mapM h).bind fun bs => settled_pure (b :: bs)
      rw [List.mapM_cons, List.mapM_cons, result_bind _ hrest]
      congr 1
      funext b
      rw [result_bind _ fun bs => settled_pure (b :: bs), ih]
      rfl

end Reporting

open Reporting

/-! ## Values -/

/-- What a field sees of a value: its text if it is one, and its number if it is one. -/
def Toml.Value.told (value : Toml.Value) : Option String × Option Int64 :=
  (value.string?, value.int64?)

theorem FieldDefinition.valueOf_congr {value other : Toml.Value} (h : value.told = other.told)
    (paths : TargetPaths) (read : Read) (field : FieldDefinition) :
    field.valueOf paths read value = field.valueOf paths read other := by
  obtain ⟨htext, hnumber⟩ := Prod.mk.inj h
  simp only [valueOf, textOf, htext, hnumber]

namespace ResourceEntry

/-- What a resource declares, without the places at which it is written. -/
structure Declared where
  typeName : String
  id : Int64
  name : String
  values : List (String × Option String × Option Int64)

def declared (entry : ResourceEntry) : Declared where
  typeName := entry.typeName
  id := entry.id
  name := entry.name
  values := entry.values.map fun value => (value.1, value.2.told)

theorem told_get? (entry : ResourceEntry) (key : String) :
    (entry.values.get? key).map (·.told) =
      (entry.declared.values.find? (·.1 = key)).map (·.2) := by
  simp only [Toml.Entries.get?, declared, List.find?_map, Option.map_map]
  rfl

/-- Resources that say the same of a field give the same value for it. -/
theorem fieldValue_of_told {entry other : ResourceEntry} {field : FieldDefinition}
    (h : (entry.values.get? field.name).map (·.told) = (other.values.get? field.name).map (·.told))
    {paths : TargetPaths} {read : Read} {location elsewhere : Location} {value : FieldValue}
    (hvalue : (entry.fieldValue paths read location field).result = .ok value) :
    (other.fieldValue paths read elsewhere field).result = .ok value := by
  unfold fieldValue at hvalue ⊢
  cases hgiven : entry.values.get? field.name with
  | none =>
      rw [hgiven] at hvalue
      cases hvalue
  | some given =>
      cases hcounterpart : other.values.get? field.name with
      | none => simp [hgiven, hcounterpart] at h
      | some counterpart =>
          rw [hgiven, hcounterpart, Option.map_some, Option.map_some, Option.some.injEq] at h
          rw [hgiven] at hvalue
          have hresult : (field.valueOf paths read given).result = .ok value :=
            Failure.inContext_eq_ok_iff.mp hvalue
          rw [field.valueOf_congr h] at hresult
          exact Failure.inContext_eq_ok_iff.mpr hresult

/-- A record is made of the values of all fields. -/
theorem result_record (paths : TargetPaths) (read : Read) (location : Location)
    (type : TypeDefinition) (entry : ResourceEntry) :
    (entry.record paths read location type).result =
      (type.fields.mapM fun field => (entry.fieldValue paths read location field).result) >>=
        fun values => .ok { code := type.code, id := entry.id, name := entry.name, values } := by
  unfold record
  rw [result_bind, result_mapM fun field => entry.settled_fieldValue paths read location field]
  · rfl
  · intro values
    exact (settled_report _).bind fun _ => settled_pure _

/-- Resources of one id and name that say the same of each field of a type
make the same record of it. -/
theorem record_of_told {entry other : ResourceEntry} {type : TypeDefinition}
    (hid : entry.id = other.id) (hname : entry.name = other.name)
    (htold : ∀ field ∈ type.fields, (entry.values.get? field.name).map (·.told) =
      (other.values.get? field.name).map (·.told))
    {paths : TargetPaths} {read : Read} {location elsewhere : Location} {record : ResourceRecord}
    (hrecord : (entry.record paths read location type).result = .ok record) :
    (other.record paths read elsewhere type).result = .ok record := by
  rw [result_record, bind_eq_ok_iff] at hrecord ⊢
  obtain ⟨values, hvalues, hmade⟩ := hrecord
  rw [hid, hname] at hmade
  refine ⟨values, ?_, hmade⟩
  let Alike (field counterpart : FieldDefinition) : Prop := field = counterpart ∧
    (entry.values.get? field.name).map (·.told) = (other.values.get? field.name).map (·.told)
  have hfields : List.Forall₂ Alike type.fields type.fields :=
    List.forall₂_same.mpr fun field hfield => ⟨rfl, htold field hfield⟩
  apply mapM_eq_ok_of_forall₂ _ hfields hvalues
  rintro field _ value ⟨rfl, hsame⟩ hvalue
  exact fieldValue_of_told hsame hvalue

theorem record_of_declared {entry other : ResourceEntry} (h : entry.declared = other.declared)
    {paths : TargetPaths} {read : Read} {location elsewhere : Location} {type : TypeDefinition}
    {record : ResourceRecord}
    (hrecord : (entry.record paths read location type).result = .ok record) :
    (other.record paths read elsewhere type).result = .ok record := by
  refine record_of_told (congrArg Declared.id h) (congrArg Declared.name h) ?_ hrecord
  intro field _
  rw [told_get?, told_get?, h]

/-- A resource makes a record of the first type of its name, if there is one. -/
theorem recordIn_eq_ok_iff {path source : String} {read : Read} {registry : Registry}
    {paths : TargetPaths} {entry : ResourceEntry} {record : ResourceRecord} :
    entry.recordIn path source read registry paths = .ok record ↔
      ∃ type, registry.find? entry.typeName = some type ∧
        (entry.record paths read (entry.typeLexeme path source).location type).result =
          .ok record := by
  have hnamed : ∀ type, registry.named (entry.typeLexeme path source) = .ok type ↔
      registry.find? entry.typeName = some type :=
    fun type => Registry.named_eq_ok_iff
  simp only [recordIn, bind_eq_ok_iff, Cause.raise_eq_ok_iff, hnamed]

theorem isSome_find?_of_recordIn {path source : String} {read : Read} {registry : Registry}
    {paths : TargetPaths} {entry : ResourceEntry} {record : ResourceRecord}
    (h : entry.recordIn path source read registry paths = .ok record) :
    (registry.find? entry.typeName).isSome := by
  obtain ⟨type, htype, -⟩ := recordIn_eq_ok_iff.mp h
  rw [htype]
  rfl

end ResourceEntry

/-- A type that is found stays the one that is found when more types are registered. -/
theorem Registry.find?_append_of_isSome {registry : Registry} {name : String}
    (h : (registry.find? name).isSome) (types : List TypeDefinition) :
    (Registry.mk (registry.types ++ types)).find? name = registry.find? name := by
  unfold find? at h ⊢
  rw [List.find?_append]
  cases hfound : registry.types.find? (·.name = name) with
  | none => simp [hfound] at h
  | some type => rfl

/-- A record is also made by another resource that declares the same, elsewhere and in a
registry with more types. -/
theorem ResourceEntry.recordIn_of_declared {entry other : ResourceEntry}
    (h : entry.declared = other.declared) {path source otherPath otherSource : String} {read : Read}
    {registry : Registry} {paths : TargetPaths} {record : ResourceRecord}
    (hrecord : entry.recordIn path source read registry paths = .ok record)
    (types : List TypeDefinition) :
    other.recordIn otherPath otherSource read ⟨registry.types ++ types⟩ paths = .ok record := by
  have hname : entry.typeName = other.typeName := congrArg Declared.typeName h
  have hfound := Registry.find?_append_of_isSome (isSome_find?_of_recordIn hrecord) types
  obtain ⟨type, htype, hmade⟩ := recordIn_eq_ok_iff.mp hrecord
  refine recordIn_eq_ok_iff.mpr ⟨type, ?_, record_of_declared h hmade⟩
  rw [← hname, hfound, htype]

/-- A row of resources makes the same records as another row that declares the same. -/
theorem ResourceEntry.mapM_recordIn_of_declared {entries others : List ResourceEntry}
    (h : entries.map (·.declared) = others.map (·.declared))
    {path source otherPath otherSource : String} {read : Read} {registry : Registry}
    {paths : TargetPaths} {records : List ResourceRecord}
    (hrecords : entries.mapM (·.recordIn path source read registry paths) = .ok records)
    (types : List TypeDefinition) :
    others.mapM (·.recordIn otherPath otherSource read ⟨registry.types ++ types⟩ paths) =
      .ok records := by
  refine mapM_eq_ok_of_map_eq ?_ h hrecords
  intro entry counterpart record hdeclared hrecord
  exact recordIn_of_declared hdeclared hrecord types

/-- A resource whose type is found has nothing to do with types that are registered later, whether
or not it makes a record. -/
theorem ResourceEntry.recordIn_append {entry : ResourceEntry} {registry : Registry}
    (h : (registry.find? entry.typeName).isSome) (types : List TypeDefinition)
    (path source : String) (read : Read) (paths : TargetPaths) :
    entry.recordIn path source read ⟨registry.types ++ types⟩ paths =
      entry.recordIn path source read registry paths := by
  have hnamed : (Registry.mk (registry.types ++ types)).named (entry.typeLexeme path source) =
      registry.named (entry.typeLexeme path source) := by
    have hfound : (Registry.mk (registry.types ++ types)).find?
        (entry.typeLexeme path source).text =
          registry.find? (entry.typeLexeme path source).text :=
      Registry.find?_append_of_isSome h types
    rw [Registry.named, hfound, Registry.named]
  rw [recordIn, hnamed, recordIn]

end ResourceAssembler
