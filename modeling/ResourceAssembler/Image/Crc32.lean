/-!
# The check sum of a chunk

The cyclic redundancy check of 32 bits with the reflected polynomial `0xEDB88320`. The
register starts and ends inverted.
-/

namespace ResourceAssembler.Crc32

/-- One step of the register for each of `n` bits. -/
def shift : Nat → UInt32 → UInt32
  | 0, r => r
  | n + 1, r => shift n (if r &&& 1 = 1 then (r >>> 1) ^^^ 0xEDB88320 else r >>> 1)

/-- Takes a byte into the register. -/
def update (register : UInt32) (byte : UInt8) : UInt32 :=
  shift 8 (register ^^^ byte.toUInt32)

/-- The check sum of bytes. -/
def checksum (bytes : ByteArray) : UInt32 :=
  bytes.foldl update 0xFFFFFFFF ^^^ 0xFFFFFFFF

end ResourceAssembler.Crc32
