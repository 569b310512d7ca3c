import ResourceAssembler.Container.Fault
import ResourceAssembler.ResourceFile

/-!
# Resource names in containers

All formats write a name as a counted string: one length byte, then the text.
-/

namespace ResourceAssembler.Container

/-- The counted string of a resource's name. A name of more than 255 bytes is refused. -/
def countedName (code : TypeCode) (resource : Resource) : Except ContainerError ByteArray :=
  let bytes := resource.name.toUTF8
  if bytes.size ≤ 255 then .ok (bytesOf [UInt8.ofNat bytes.size] ++ bytes)
  else .error (.nameTooLong code resource.id bytes.size)

end ResourceAssembler.Container
