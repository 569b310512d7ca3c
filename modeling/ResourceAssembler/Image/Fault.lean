import ResourceAssembler.Host.Fault

/-!
# Why an image has no payload

An image file may be missing, may be no PNG image, or may be too large for the two words
that count its columns and rows.
-/

namespace ResourceAssembler

/-- Why an image could not be turned into a payload. -/
inductive ImageError where
  /-- The file could not be read. -/
  | host (path : String) (fault : HostFault)
  | tooLarge (width height : Nat)
  /-- The bytes are no PNG image. -/
  | decode
  /-- The palette of a PNG image is no list of entries. -/
  | palette
deriving DecidableEq, Repr

def ImageError.message : ImageError → String
  | host path fault => s!"failed to read image {path}: {fault.message}"
  | tooLarge width height =>
    s!"image is {width}x{height}; raster payloads hold at most 65535x65535"
  | decode => "failed to decode PNG data"
  | palette => "PNG palette is not a list of at most 256 colors"

end ResourceAssembler
