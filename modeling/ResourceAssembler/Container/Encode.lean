import ResourceAssembler.Container.Classic
import ResourceAssembler.Container.Extended
import ResourceAssembler.Container.Rez

/-!
# Writing a resource file in any format

The three writers take the same resource file, so an artifact can be written again in another
format. They differ in what they can hold and in their layout.
-/

namespace ResourceAssembler

/-- The container of a resource file in the given format. -/
def ResourceFile.encode (file : ResourceFile) : Format → Except ContainerError ByteArray
  | .classic => Container.Classic.encode file
  | .extended => Container.Extended.encode file
  | .rez => Container.Rez.encode file

end ResourceAssembler
