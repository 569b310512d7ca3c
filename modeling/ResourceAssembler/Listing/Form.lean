import ResourceAssembler.Toml.Document

/-!
# Listings

A listing declares types and resources. What it says is kept as written: codes and kinds are still
text, and a resource names its type and gives a value for each of the type's fields by name.
-/

namespace ResourceAssembler

/-- A field as a listing declares it. -/
structure FieldEntry where
  name : String
  kind : String
deriving DecidableEq, Repr

/-- A type as a listing declares it. -/
structure TypeEntry where
  name : String
  code : String
  fields : List FieldEntry := []
deriving DecidableEq, Repr

/-- A resource as a listing declares it. -/
structure ResourceEntry where
  typeName : String
  /-- The byte offset in the listing at which the type's name is written. -/
  typeOffset : Nat
  id : Int64
  name : String := ""
  values : Toml.Entries := []

/-- The types and resources of a listing, in the order in which they are declared. -/
structure Listing where
  types : List TypeEntry := []
  resources : List ResourceEntry := []

def FieldEntry.ofToml? (value : Toml.Value) : Option FieldEntry := do
  match ← value.fields? ["name", "kind"] with
  | [some name, some kind] => return { name := ← name.string?, kind := ← kind.string? }
  | _ => none

def TypeEntry.ofToml? (value : Toml.Value) : Option TypeEntry := do
  match ← value.fields? ["name", "code", "fields"] with
  | [some name, some code, fields] =>
    return {
      name := ← name.string?
      code := ← code.string?
      fields := ← Toml.orDefault? [] (Toml.listOf? FieldEntry.ofToml?) fields }
  | _ => none

/-- The values of a resource: any values, as long as they make sense. -/
def resourceValues? (value : Toml.Value) : Option Toml.Entries := do
  let entries ← value.entries?
  if entries.all (·.2.isSound) then return entries else failure

def ResourceEntry.ofToml? (value : Toml.Value) : Option ResourceEntry := do
  match ← value.fields? ["type", "id", "name", "values"] with
  | [some (.text typeName typeOffset), some id, name, values] =>
    return {
      typeName
      typeOffset
      id := ← id.int64?
      name := ← Toml.orDefault? "" Toml.Value.string? name
      values := ← Toml.orDefault? [] resourceValues? values }
  | _ => none

namespace Listing

/-- The listing that a document states. Other tables in it are passed over. -/
def ofToml? (entries : Toml.Entries) : Option Listing := do
  return {
    types := ← Toml.orDefault? [] (Toml.listOf? TypeEntry.ofToml?) (entries.get? "type")
    resources :=
      ← Toml.orDefault? [] (Toml.listOf? ResourceEntry.ofToml?) (entries.get? "resource") }

/-- Reads a listing. -/
def parse? (text : String) : Option Listing :=
  (Toml.parse? text).bind ofToml?

end Listing

end ResourceAssembler
