import ResourceAssembler.Proofs.Json.Basic
import ResourceAssembler.Proofs.Location
import ResourceAssembler.Proofs.TypeCode.Number

/-!
# Faithful JSON forms

For each type it is said which JSON values state what: named parts stand in an object or in a list,
whatever other members an object has. Exactly what is stated is read, what is written states what it
was written from, and so it is read back. The code of what was read stands in the JSON value as a
text of four ASCII characters. It matters in one place whether a text is read or a value that was
kept: the width and the number of an integer may stand in a list only in a text.
-/

namespace ResourceAssembler

open Json Outcome

variable {json : Json}

/-! ## Names of kinds and widths -/

theorem FieldKind.ofJson?_eq_some_iff {kind : FieldKind} :
    ofJson? json = some kind ↔ json.Names kind.name := by
  simp only [ofJson?, Option.bind_eq_some_iff, bareChoice?_eq_some_iff, ofName?_eq_some_iff,
    exists_eq_right']

namespace IntegerWidth

theorem ofChoiceName?_choiceName (width : IntegerWidth) :
    ofChoiceName? width.choiceName = some width := by
  cases width <;> rfl

theorem ofChoiceName?_eq_some_iff {written : String} {width : IntegerWidth} :
    ofChoiceName? written = some width ↔ width.choiceName = written := by
  constructor
  · intro h
    unfold ofChoiceName? at h
    split at h <;> cases h <;> rfl
  · rintro rfl
    exact ofChoiceName?_choiceName width

theorem ofJson?_eq_some_iff {width : IntegerWidth} :
    ofJson? json = some width ↔ json.Names width.choiceName := by
  simp only [ofJson?, Option.bind_eq_some_iff, bareChoice?_eq_some_iff, ofChoiceName?_eq_some_iff,
    exists_eq_right']

end IntegerWidth

/-! ## Type definitions -/

namespace FieldDefinition

/-- The JSON value gives the name and the kind of the field. -/
def StatedBy (field : FieldDefinition) (json : Json) : Prop :=
  ∃ kind, json.HasParts ["name", "kind"] [.text field.name, kind] ∧ kind.Names field.kind.name

theorem ofJson?_eq_some_iff {field : FieldDefinition} :
    ofJson? json = some field ↔ field.StatedBy json := by
  unfold ofJson? StatedBy
  simp only [← fields?_eq_some_iff]
  split
  case h_1 name kind hparts =>
    simp only [hparts, Option.bind_eq_bind, Option.bind_eq_some_iff, Option.pure_def,
      Option.some.injEq, List.cons.injEq, and_true, text?_eq_some_iff,
      FieldKind.ofJson?_eq_some_iff]
    constructor
    · rintro ⟨_, rfl, _, hkind, rfl⟩
      exact ⟨kind, ⟨rfl, rfl⟩, hkind⟩
    · rintro ⟨_, ⟨rfl, rfl⟩, hkind⟩
      exact ⟨_, rfl, _, hkind, rfl⟩
  case h_2 hnone => exact iff_of_false nofun fun ⟨_, hparts, _⟩ => hnone _ _ hparts

theorem statedBy_toJson (field : FieldDefinition) : field.StatedBy field.toJson :=
  ⟨field.kind.toJson, hasParts_object (by decide) rfl rfl, .alone field.kind.name⟩

end FieldDefinition

namespace TypeDefinition

/-- The JSON value gives the name, the code and the fields of the type. -/
def StatedBy (type : TypeDefinition) (json : Json) : Prop :=
  ∃ fields, json.HasParts ["name", "code", "fields"]
      [.text type.name, .text type.code.text, .list fields] ∧
    List.Forall₂ (fun part field => FieldDefinition.StatedBy field part) fields type.fields

theorem ofJson?_eq_some_iff {type : TypeDefinition} :
    ofJson? json = some type ↔ type.StatedBy json := by
  unfold ofJson? StatedBy
  simp only [← fields?_eq_some_iff]
  split
  case h_1 name code fields hparts =>
    simp only [hparts, Option.bind_eq_bind, Option.bind_eq_some_iff, Option.pure_def,
      Option.some.injEq, List.cons.injEq, and_true, text?_eq_some_iff, list?_eq_some_iff,
      TypeCode.ofJson?_eq_some_iff, mapM_eq_some_iff_forall₂, FieldDefinition.ofJson?_eq_some_iff]
    constructor
    · rintro ⟨_, rfl, _, rfl, items, rfl, _, hfields, rfl⟩
      exact ⟨items, ⟨rfl, rfl, rfl⟩, hfields⟩
    · rintro ⟨items, ⟨rfl, rfl, rfl⟩, hfields⟩
      exact ⟨_, rfl, _, rfl, items, rfl, _, hfields, rfl⟩
  case h_2 hnone => exact iff_of_false nofun fun ⟨_, hparts, _⟩ => hnone _ _ _ hparts

theorem statedBy_toJson (type : TypeDefinition) : type.StatedBy type.toJson := by
  refine ⟨type.fields.map FieldDefinition.toJson, hasParts_object (by decide) rfl rfl, ?_⟩
  rw [List.forall₂_map_left_iff, List.forall₂_same]
  exact fun field _ => field.statedBy_toJson

end TypeDefinition

/-! ## Records -/

namespace FieldValue

/-- The JSON value, read from a text or kept, names the form of the value and gives its content. -/
inductive StatedBy (origin : Origin) : FieldValue → Json → Prop
  | integer {width : IntegerWidth} {value : Int64} {content part : Json}
      (hparts : HasContent origin ["width", "value"] content [part, .whole value.toInt])
      (hnames : part.Names width.choiceName) :
      StatedBy origin (.integer width value) (.object [("Integer", content)])
  | pstring (text : String) : StatedBy origin (.pstring text) (.object [("PString", .text text)])
  | cstring (text : String) : StatedBy origin (.cstring text) (.object [("CString", .text text)])
  | data (bytes : ByteArray) : StatedBy origin (.data bytes)
      (.object [("Data", .list ((octets bytes).map fun byte => .whole byte.toNat))])

theorem integerOfParts?_eq_some_iff {parts : List Json} {found : FieldValue} :
    integerOfParts? parts = some found ↔
      ∃ width value part, found = .integer width value ∧ parts = [part, .whole value.toInt] ∧
        part.Names width.choiceName := by
  unfold integerOfParts?
  split
  case h_1 part number =>
    simp only [Option.bind_eq_bind, Option.bind_eq_some_iff, Option.pure_def, Option.some.injEq,
      IntegerWidth.ofJson?_eq_some_iff, int64?_eq_some_iff]
    constructor
    · rintro ⟨width, hnames, value, rfl, rfl⟩
      exact ⟨width, value, part, rfl, rfl, hnames⟩
    · rintro ⟨width, value, part, rfl, hparts, hnames⟩
      cases hparts
      exact ⟨width, hnames, value, rfl, rfl⟩
  case h_2 hother =>
    refine iff_of_false nofun ?_
    rintro ⟨width, value, part, -, rfl, -⟩
    exact hother _ _ rfl

/-- A row of bytes is read from the row of their numbers. -/
theorem mapM_byte?_eq_some_iff {items : List Json} {bytes : List UInt8} :
    items.mapM Json.byte? = some bytes ↔ items = bytes.map fun byte => .whole byte.toNat := by
  simp only [mapM_eq_some_iff_forall₂, byte?_eq_some_iff]
  rw [← List.forall₂_eq_eq_eq, List.forall₂_map_right_iff]

theorem ofJsonFrom?_eq_some_iff {origin : Origin} {value : FieldValue} :
    ofJsonFrom? origin json = some value ↔ value.StatedBy origin json := by
  constructor
  · intro h
    unfold ofJsonFrom? at h
    split at h
    case h_1 content hchoice =>
      rw [choice?_eq_some_some_iff.mp hchoice]
      obtain ⟨parts, hparts, hread⟩ := Option.bind_eq_some_iff.mp h
      obtain ⟨width, n, part, rfl, rfl, hnames⟩ := integerOfParts?_eq_some_iff.mp hread
      exact .integer (content?_eq_some_iff.mp hparts) hnames
    case h_2 content hchoice =>
      rw [choice?_eq_some_some_iff.mp hchoice]
      obtain ⟨text, htext, rfl⟩ := Option.map_eq_some_iff.mp h
      rw [text?_eq_some_iff.mp htext]
      exact .pstring text
    case h_3 content hchoice =>
      rw [choice?_eq_some_some_iff.mp hchoice]
      obtain ⟨text, htext, rfl⟩ := Option.map_eq_some_iff.mp h
      rw [text?_eq_some_iff.mp htext]
      exact .cstring text
    case h_4 content hchoice =>
      rw [choice?_eq_some_some_iff.mp hchoice]
      simp only [Option.bind_eq_bind, Option.bind_eq_some_iff, Option.pure_def, Option.some.injEq,
        list?_eq_some_iff, mapM_byte?_eq_some_iff] at h
      obtain ⟨items, rfl, bytes, rfl, rfl⟩ := h
      have hdata : FieldValue.StatedBy origin _ _ := .data (bytesOf bytes)
      rwa [octets_bytesOf] at hdata
    case h_5 => cases h
  · intro h
    cases h with
    | integer hparts hnames =>
        refine Option.bind_eq_some_iff.mpr ⟨_, content?_eq_some_iff.mpr hparts, ?_⟩
        exact integerOfParts?_eq_some_iff.mpr ⟨_, _, _, rfl, rfl, hnames⟩
    | pstring text => rfl
    | cstring text => rfl
    | data bytes =>
        have hread : ((octets bytes).map fun byte => Json.whole byte.toNat).mapM Json.byte? =
            some (octets bytes) := mapM_byte?_eq_some_iff.mpr rfl
        simp [ofJsonFrom?, choice?, list?, hread]

theorem statedBy_toJson (origin : Origin) (value : FieldValue) :
    value.StatedBy origin value.toJson := by
  cases value with
  | integer width value =>
      exact .integer (hasContent_object (by decide) rfl rfl) (.alone width.choiceName)
  | pstring text => exact .pstring text
  | cstring text => exact .cstring text
  | data bytes => exact .data bytes

end FieldValue

namespace ResourceRecord

/-- The JSON value, read from a text or kept, gives the code, the id, the name and the values of the
record. -/
def StatedBy (origin : Origin) (record : ResourceRecord) (json : Json) : Prop :=
  ∃ values, json.HasParts ["type_code", "id", "name", "values"]
      [.text record.code.text, .whole record.id.toInt, .text record.name, .list values] ∧
    List.Forall₂ (fun part value => FieldValue.StatedBy origin value part) values record.values

theorem ofJsonFrom?_eq_some_iff {origin : Origin} {record : ResourceRecord} :
    ofJsonFrom? origin json = some record ↔ record.StatedBy origin json := by
  unfold ofJsonFrom? StatedBy
  simp only [← fields?_eq_some_iff]
  split
  case h_1 code id name values hparts =>
    simp only [hparts, Option.bind_eq_bind, Option.bind_eq_some_iff, Option.pure_def,
      Option.some.injEq, List.cons.injEq, and_true, text?_eq_some_iff, list?_eq_some_iff,
      int64?_eq_some_iff, TypeCode.ofJson?_eq_some_iff, mapM_eq_some_iff_forall₂,
      FieldValue.ofJsonFrom?_eq_some_iff]
    constructor
    · rintro ⟨_, rfl, _, rfl, _, rfl, items, rfl, _, hvalues, rfl⟩
      exact ⟨items, ⟨rfl, rfl, rfl, rfl⟩, hvalues⟩
    · rintro ⟨items, ⟨rfl, rfl, rfl, rfl⟩, hvalues⟩
      exact ⟨_, rfl, _, rfl, _, rfl, items, rfl, _, hvalues, rfl⟩
  case h_2 hnone => exact iff_of_false nofun fun ⟨_, hparts, _⟩ => hnone _ _ _ _ hparts

theorem statedBy_toJson (origin : Origin) (record : ResourceRecord) :
    record.StatedBy origin record.toJson := by
  refine ⟨record.values.map FieldValue.toJson, hasParts_object (by decide) rfl rfl, ?_⟩
  rw [List.forall₂_map_left_iff, List.forall₂_same]
  exact fun value _ => value.statedBy_toJson origin

end ResourceRecord

/-! ## Lexemes -/

namespace Location

/-- Line and column are counted in 64 bits. -/
structure Countable {Path : Type} (location : Location Path) : Prop where
  line : location.line < UInt64.size
  column : location.column < UInt64.size

/-- Every location in a text is counted in 64 bits, unless the text is as long as no text can be. -/
theorem countable_ofOffset {Path : Type} {source : String}
    (h : source.toUTF8.size + 1 < UInt64.size) (file : Path) (offset : Nat) :
    (ofOffset file source offset).Countable := by
  -- Lines and columns are counted in the same way for every file.
  obtain ⟨closed, opened, hpassed, -, -, hline, hcolumn⟩ := marks_ofOffset "" source offset
  have hlength : closed.length + opened.length ≤ source.toUTF8.size := by
    rw [← List.length_append, ← hpassed, ← length_octets]
    exact List.length_take_le' _ _
  have hcount : closed.count 10 ≤ closed.length := List.count_le_length
  constructor
  case line =>
    change (ofOffset "" source offset).line < UInt64.size
    omega
  case column =>
    change (ofOffset "" source offset).column < UInt64.size
    omega

/-- The JSON value gives the file, the line and the column of a location
that is counted in 64 bits. -/
def StatedBy (location : Location) (json : Json) : Prop :=
  location.Countable ∧ json.HasParts ["file", "line", "column"]
    [.text location.file, .whole location.line, .whole location.column]

theorem ofJson?_eq_some_iff {location : Location} :
    ofJson? json = some location ↔ location.StatedBy json := by
  unfold ofJson? StatedBy
  simp only [← fields?_eq_some_iff]
  split
  case h_1 file line column hparts =>
    simp only [hparts, Option.bind_eq_bind, Option.bind_eq_some_iff, Option.pure_def,
      Option.some.injEq, List.cons.injEq, and_true, text?_eq_some_iff, count?_eq_some_iff]
    constructor
    · rintro ⟨_, rfl, _, ⟨rfl, hline⟩, _, ⟨rfl, hcolumn⟩, rfl⟩
      exact ⟨⟨hline, hcolumn⟩, rfl, rfl, rfl⟩
    · rintro ⟨⟨hline, hcolumn⟩, rfl, rfl, rfl⟩
      exact ⟨_, rfl, _, ⟨rfl, hline⟩, _, ⟨rfl, hcolumn⟩, rfl⟩
  case h_2 hnone => exact iff_of_false nofun fun ⟨_, hparts⟩ => hnone _ _ _ hparts

theorem statedBy_toJson {location : Location} (h : location.Countable) :
    location.StatedBy location.toJson :=
  ⟨h, hasParts_object (by decide) rfl rfl⟩

end Location

namespace Lexeme

/-- The JSON value gives the text and the location of the lexeme. -/
def StatedBy (lexeme : Lexeme) (json : Json) : Prop :=
  ∃ place, json.HasParts ["text", "location"] [.text lexeme.text, place] ∧
    lexeme.location.StatedBy place

theorem ofJson?_eq_some_iff {lexeme : Lexeme} :
    ofJson? json = some lexeme ↔ lexeme.StatedBy json := by
  unfold ofJson? StatedBy
  simp only [← fields?_eq_some_iff]
  split
  case h_1 text place hparts =>
    simp only [hparts, Option.bind_eq_bind, Option.bind_eq_some_iff, Option.pure_def,
      Option.some.injEq, List.cons.injEq, and_true, text?_eq_some_iff, Location.ofJson?_eq_some_iff]
    constructor
    · rintro ⟨_, rfl, _, hplace, rfl⟩
      exact ⟨place, ⟨rfl, rfl⟩, hplace⟩
    · rintro ⟨_, ⟨rfl, rfl⟩, hplace⟩
      exact ⟨_, rfl, _, hplace, rfl⟩
  case h_2 hnone => exact iff_of_false nofun fun ⟨_, hparts, _⟩ => hnone _ _ hparts

theorem statedBy_toJson {lexeme : Lexeme} (h : lexeme.location.Countable) :
    lexeme.StatedBy lexeme.toJson :=
  ⟨lexeme.location.toJson, hasParts_object (by decide) rfl rfl, Location.statedBy_toJson h⟩

/-- The JSON value states the lexeme of a file that is named by a text. -/
def StatedOnHost (lexeme : Lexeme HostPath) (json : Json) : Prop :=
  ∃ told : Lexeme, told.StatedBy json ∧ told.onHost = lexeme

theorem ofJsonOnHost?_eq_some_iff {lexeme : Lexeme HostPath} :
    ofJsonOnHost? json = some lexeme ↔ lexeme.StatedOnHost json := by
  simp only [ofJsonOnHost?, StatedOnHost, Option.map_eq_some_iff, ofJson?_eq_some_iff]

theorem toJsonOnHost?_eq_some_iff {lexeme : Lexeme HostPath} :
    lexeme.toJsonOnHost? = some json ↔
      ∃ told : Lexeme, told.onHost = lexeme ∧ told.toJson = json := by
  simp only [toJsonOnHost?, Option.map_eq_some_iff, asText?_eq_some_iff]

theorem toJsonOnHost?_eq_none_iff {lexeme : Lexeme HostPath} :
    lexeme.toJsonOnHost? = none ↔ lexeme.location.file.text? = none := by
  rw [toJsonOnHost?, Option.map_eq_none_iff, asText?_eq_none_iff]

theorem statedOnHost_of_toJson {lexeme : Lexeme HostPath} (h : lexeme.location.Countable)
    (hjson : lexeme.toJsonOnHost? = some json) : lexeme.StatedOnHost json := by
  obtain ⟨told, rfl, rfl⟩ := toJsonOnHost?_eq_some_iff.mp hjson
  have htold : told.location.Countable := ⟨h.line, h.column⟩
  exact ⟨told, statedBy_toJson htold, rfl⟩

theorem countable_of_statedOnHost {lexeme : Lexeme HostPath} (h : lexeme.StatedOnHost json) :
    lexeme.location.Countable ∧ ∃ again, lexeme.toJsonOnHost? = some again := by
  obtain ⟨told, ⟨place, -, hplace⟩, rfl⟩ := h
  exact ⟨⟨hplace.1.line, hplace.1.column⟩, told.toJson,
    toJsonOnHost?_eq_some_iff.mpr ⟨told, rfl, rfl⟩⟩

end Lexeme

/-! ## Faithful forms -/

/-- A form is faithful if what is written of a value that fits is read back as that value, if
exactly what is stated is read, and if all that is read can be written and read once more. -/
structure FaithfulForm {α : Type} (Fits : α → Prop) (toJson? : α → Option Json)
    (ofJson? : Json → Option α) (StatedBy : α → Json → Prop) : Prop where
  readsBack (a : α) (json : Json) : Fits a → toJson? a = some json → ofJson? json = some a
  readsStated (json : Json) (a : α) : ofJson? json = some a ↔ StatedBy a json
  readsAgain (json : Json) (a : α) : ofJson? json = some a →
    ∃ again, toJson? a = some again ∧ ofJson? again = some a

theorem faithful_of_stated {α : Type} {Fits : α → Prop} {toJson? : α → Option Json}
    {ofJson? : Json → Option α} {StatedBy : α → Json → Prop}
    (read : ∀ {json a}, ofJson? json = some a ↔ StatedBy a json)
    (written : ∀ {json a}, Fits a → toJson? a = some json → StatedBy a json)
    (writable : ∀ {json a}, StatedBy a json → Fits a ∧ ∃ again, toJson? a = some again) :
    FaithfulForm Fits toJson? ofJson? StatedBy where
  readsBack _ _ hfits hjson := read.mpr (written hfits hjson)
  readsStated _ _ := read
  readsAgain _ _ h := by
    obtain ⟨hfits, again, hagain⟩ := writable (read.mp h)
    exact ⟨again, hagain, read.mpr (written hfits hagain)⟩

/-- The code stands in the JSON value, as the only code that its text is read as: a text of four
ASCII characters, which are the bytes of the code. -/
def TypeCode.WrittenAs (code : TypeCode) (part : Json) : Prop :=
  ∃ written, part = .text written ∧ ofString written = .ok code ∧
    octets written.toUTF8 = code.bytes ∧ code.bytes.length = 4 ∧ ∀ byte ∈ code.bytes, byte < 128

theorem TypeCode.writtenAs_text (code : TypeCode) : code.WrittenAs (.text code.text) :=
  ⟨code.text, rfl, ofString_eq_ok_iff.mpr rfl, code.octets_toUTF8_text, code.length_bytes,
    code.bytes_lt⟩

/-- Where no code is written nothing is read that has one there. -/
theorem TypeCode.eq_none_of_unwritten {α : Type} {read : Option α} {code : α → TypeCode}
    {part : Json} (written : ∀ a, read = some a → (code a).WrittenAs part)
    (h : ∀ found : TypeCode, ¬found.WrittenAs part) : read = none := by
  rw [Option.eq_none_iff_forall_ne_some]
  exact fun a hread => h (code a) (written a hread)

theorem ResourceRecord.writtenAs_of_parts {origin : Origin} {code id name values : Json}
    (hparts : json.HasParts ["type_code", "id", "name", "values"] [code, id, name, values])
    (record : ResourceRecord) (h : ofJsonFrom? origin json = some record) :
    record.code.WrittenAs code := by
  obtain ⟨items, hstated, -⟩ := ofJsonFrom?_eq_some_iff.mp h
  obtain ⟨rfl, -⟩ := List.cons.inj (hparts.unique hstated)
  exact record.code.writtenAs_text

theorem TypeDefinition.writtenAs_of_parts {name code fields : Json}
    (hparts : json.HasParts ["name", "code", "fields"] [name, code, fields])
    (type : TypeDefinition) (h : ofJson? json = some type) : type.code.WrittenAs code := by
  obtain ⟨items, hstated, -⟩ := ofJson?_eq_some_iff.mp h
  obtain ⟨-, hrest⟩ := List.cons.inj (hparts.unique hstated)
  obtain ⟨rfl, -⟩ := List.cons.inj hrest
  exact type.code.writtenAs_text

/-- The forms of records and of type definitions are faithful, and those of lexemes that are counted
in 64 bits, whether they are read straight from a text or from a value that was kept. Every record
and every type has a form, and every lexeme of a file whose path is a text. A record and a type are
read only with a code that stands among the parts as a text of four ASCII characters. So nothing is
read of a JSON value with a code that is refused as a text. -/
theorem json_forms_faithful (origin : Origin) :
    FaithfulForm (fun _ => True) (fun record => some record.toJson)
      (ResourceRecord.ofJsonFrom? origin) (ResourceRecord.StatedBy origin) ∧
    FaithfulForm (fun _ => True) (fun type => some type.toJson) TypeDefinition.ofJson?
      TypeDefinition.StatedBy ∧
    FaithfulForm (·.location.Countable) Lexeme.toJsonOnHost? Lexeme.ofJsonOnHost?
      Lexeme.StatedOnHost ∧
    (∀ lexeme : Lexeme HostPath,
      lexeme.toJsonOnHost? = none ↔ lexeme.location.file.text? = none) ∧
    (∀ json code id name values,
      json.HasParts ["type_code", "id", "name", "values"] [code, id, name, values] →
        (∀ record, ResourceRecord.ofJsonFrom? origin json = some record →
          record.code.WrittenAs code) ∧
        ((∀ found : TypeCode, ¬found.WrittenAs code) →
          ResourceRecord.ofJsonFrom? origin json = none)) ∧
    ∀ json name code fields, json.HasParts ["name", "code", "fields"] [name, code, fields] →
      (∀ type, TypeDefinition.ofJson? json = some type → type.code.WrittenAs code) ∧
      ((∀ found : TypeCode, ¬found.WrittenAs code) → TypeDefinition.ofJson? json = none) := by
  refine ⟨?record, ?type, ?lexeme, ?path, ?recordCode, ?typeCode⟩
  case record =>
    apply faithful_of_stated ResourceRecord.ofJsonFrom?_eq_some_iff
    · rintro _ record - hjson
      cases hjson
      exact record.statedBy_toJson origin
    · exact fun _ => ⟨trivial, _, rfl⟩
  case type =>
    apply faithful_of_stated TypeDefinition.ofJson?_eq_some_iff
    · rintro _ type - hjson
      cases hjson
      exact type.statedBy_toJson
    · exact fun _ => ⟨trivial, _, rfl⟩
  case lexeme =>
    exact faithful_of_stated Lexeme.ofJsonOnHost?_eq_some_iff Lexeme.statedOnHost_of_toJson
      Lexeme.countable_of_statedOnHost
  case path => exact fun _ => Lexeme.toJsonOnHost?_eq_none_iff
  case recordCode =>
    intro json code id name values hparts
    have hwritten : ∀ record, ResourceRecord.ofJsonFrom? origin json = some record → _ :=
      ResourceRecord.writtenAs_of_parts hparts
    exact ⟨hwritten, TypeCode.eq_none_of_unwritten hwritten⟩
  case typeCode =>
    intro json name code fields hparts
    have hwritten := TypeDefinition.writtenAs_of_parts hparts
    exact ⟨hwritten, TypeCode.eq_none_of_unwritten hwritten⟩

/-- A record with two numbers and with bytes. -/
def greeting : ResourceRecord where
  code := ⟨'S', 'T', 'R', '#', by decide⟩
  id := -3
  name := "greeting"
  values := [.integer .word 258, .integer .byte 5, .data (bytesOf [0, 255])]

/-- The record as the list of its parts. The first number has a stray member and `null` behind its
width, the second is a list itself. -/
def greetingParts : Json :=
  .list [.text "STR#", .whole (-3), .text "greeting",
    .list [.object [("Integer", .object [("value", .whole 258), ("note", .bool true),
        ("width", .object [("Word", .null)])])],
      .object [("Integer", .list [.text "Byte", .whole 5])],
      .object [("Data", .list [.whole 0, .whole 255])]]]

theorem json_forms_faithful_greeting :
    greeting.StatedBy .text greetingParts ∧
      ResourceRecord.ofJsonFrom? .text greetingParts = some greeting ∧
      ResourceRecord.ofJsonFrom? .text greeting.toJson = some greeting ∧
      greeting.code.WrittenAs (.text "STR#") ∧
      (let lexeme : Lexeme HostPath := ⟨"d", .ofOffset (.ofText "a.kdl") "ab\ncd" 4⟩
       lexeme.location.Countable ∧ ∃ json, lexeme.toJsonOnHost? = some json ∧
         Lexeme.ofJsonOnHost? json = some lexeme) := by
  have hparts : greetingParts.HasParts ["type_code", "id", "name", "values"] _ := .items rfl
  have hstated : greeting.StatedBy .text greetingParts := by
    refine ⟨_, hparts, .cons ?first (.cons ?second (.cons (.data _) .nil))⟩
    case first =>
      exact .integer ⟨.members (.cons rfl (.cons rfl .nil)), fun _ => ⟨_, rfl⟩⟩ (.withNull "Word")
    case second =>
      exact .integer ⟨.items rfl, nofun⟩ (.alone "Byte")
  have hcountable : (Location.ofOffset (HostPath.ofText "a.kdl") "ab\ncd" 4).Countable :=
    Location.countable_ofOffset (by decide) _ 4
  have hhosted : Lexeme.toJsonOnHost? ⟨"d", .ofOffset (.ofText "a.kdl") "ab\ncd" 4⟩ = some _ :=
    Lexeme.toJsonOnHost?_eq_some_iff.mpr ⟨⟨"d", .ofOffset "a.kdl" "ab\ncd" 4⟩, rfl, rfl⟩
  obtain ⟨hrecord, -, hlexeme, -, hcode, -⟩ := json_forms_faithful .text
  have hread := (hrecord.readsStated greetingParts greeting).mpr hstated
  exact ⟨hstated, hread, hrecord.readsBack greeting _ trivial rfl,
    (hcode _ _ _ _ _ hparts).1 greeting hread, hcountable, _, hhosted,
    hlexeme.readsBack _ _ hcountable hhosted⟩

end ResourceAssembler
