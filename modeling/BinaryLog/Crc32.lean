/-
# BinaryLog.Crc32 -- the checksum behind an event

The cyclic redundancy check of ISO 3309 with reflected bits: the remainder starts with all bits
set, takes up one byte after the other, and is complemented at the end.
-/
import BinaryLog.Bytes

namespace BinaryLog.Crc32

set_option autoImplicit false

/-- The number of bytes of a written checksum. -/
def size : Nat := 4

def polynomial : UInt32 := 0xEDB88320

/-- Moves the remainder on by one bit. -/
def shift (r : UInt32) : UInt32 :=
  if r &&& 1 = 1 then (r >>> 1) ^^^ polynomial else r >>> 1

def shifts : Nat → UInt32 → UInt32
  | 0, r => r
  | n + 1, r => shifts n (shift r)

/-- Takes up one byte. -/
def step (r : UInt32) (b : UInt8) : UInt32 := shifts 8 (r ^^^ b.toUInt32)

def checksum (bs : Bytes) : UInt32 := ~~~ bs.foldl step 0xFFFFFFFF

end BinaryLog.Crc32
