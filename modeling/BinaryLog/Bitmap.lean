/-
# BinaryLog.Bitmap -- one bit for each column

Bit `i` of a bitmap is bit `i % 8` of byte `i / 8`, least significant first.  Columns behind
the last byte have no bit and count as unset.
-/
import BinaryLog.Bytes

namespace BinaryLog.Bitmap

set_option autoImplicit false

/-- The number of bytes that hold `n` bits. -/
def size (n : Nat) : Nat := (n + 7) / 8

def get (bitmap : Bytes) (i : Nat) : Bool :=
  match bitmap[i / 8]? with
  | some b => b.toNat.testBit (i % 8)
  | none => false

end BinaryLog.Bitmap
