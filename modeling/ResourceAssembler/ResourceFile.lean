import ResourceAssembler.Notice
import ResourceAssembler.Record

/-!
# Resource files

A resource file keeps its resources in groups, one group per type code. Groups stand in the order in
which their codes first arrived, and so do the resources of a group by their ids. Writing to a code
and id that are already present replaces the name and data there and moves nothing.
-/

namespace ResourceAssembler

/-- A resource as a container stores it. -/
structure Resource where
  id : Int64
  name : String
  data : ByteArray

/-- The resources of one type code. -/
structure ResourceGroup where
  code : TypeCode
  resources : List Resource

namespace ResourceGroup

/-- Replaces the resource of the same id, or adds the resource at the end. -/
def put (resource : Resource) : List Resource → List Resource
  | [] => [resource]
  | r :: rest => if r.id = resource.id then resource :: rest else r :: put resource rest

/-- The resource of the given id. -/
def find? (group : ResourceGroup) (id : Int64) : Option Resource :=
  group.resources.find? (·.id = id)

end ResourceGroup

/-- All resources of a container, grouped by type code. -/
structure ResourceFile where
  groups : List ResourceGroup := []

namespace ResourceFile

/-- Writes the resource into the group of its code, which is added at the end if it is new. -/
def put (code : TypeCode) (resource : Resource) : List ResourceGroup → List ResourceGroup
  | [] => [⟨code, [resource]⟩]
  | g :: rest =>
    if g.code = code then ⟨code, ResourceGroup.put resource g.resources⟩ :: rest
    else g :: put code resource rest

/-- Adds a resource, or replaces the one with the same code and id. -/
def insert (file : ResourceFile) (code : TypeCode) (resource : Resource) : ResourceFile :=
  ⟨put code resource file.groups⟩

/-- The resource stored under a code and an id. -/
def find? (file : ResourceFile) (code : TypeCode) (id : Int64) : Option Resource :=
  (file.groups.find? (·.code = code)).bind (·.find? id)

/-- The notice of a resource that an insertion replaces. -/
def replacement (file : ResourceFile) (code : TypeCode) (id : Int64) : List Notice :=
  match file.find? code id with
  | some previous => [.resourceReplaced code id previous.name]
  | none => []

/-- The number of type codes. -/
def groupCount (file : ResourceFile) : Nat :=
  file.groups.length

/-- The number of resources under all codes. -/
def resourceCount (file : ResourceFile) : Nat :=
  (file.groups.flatMap (·.resources)).length

end ResourceFile

end ResourceAssembler
