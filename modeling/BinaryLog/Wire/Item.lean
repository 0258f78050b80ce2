/-
# BinaryLog.Wire.Item -- one written value of any kind

What can be written to a buffer on its own: the unsigned words, byte strings, packed
integers and packed strings.  `encode` is the written form, `readLike` reads a value of the
same kind as a given one, so that a sequence of items describes both a buffer and the reads
that take it apart again.
-/
import BinaryLog.Wire.Packed

namespace BinaryLog.Wire

set_option autoImplicit false

inductive Item
  | u8 (n : UInt8)
  | u16 (n : UInt16)
  | u24 (n : BitVec 24)
  | u32 (n : UInt32)
  | u48 (n : BitVec 48)
  | u64 (n : UInt64)
  | bytes (content : Bytes)
  | integer (n : PackedInt)
  | string (s : PackedString)
deriving DecidableEq, Repr

namespace Item

def encode : Item → Bytes
  | u8 n => Word.bytes n
  | u16 n => Word.bytes n
  | u24 n => Word.bytes n
  | u32 n => Word.bytes n
  | u48 n => Word.bytes n
  | u64 n => Word.bytes n
  | bytes content => content
  | integer n => n.encode
  | string s => s.encode

/-- Reads a value of the same kind, and for byte strings of the same length. -/
def readLike : Item → Read Item
  | u8 _ => u8 <$> Read.word UInt8
  | u16 _ => u16 <$> Read.word UInt16
  | u24 _ => u24 <$> Read.word (BitVec 24)
  | u32 _ => u32 <$> Read.word UInt32
  | u48 _ => u48 <$> Read.word (BitVec 48)
  | u64 _ => u64 <$> Read.word UInt64
  | bytes content => bytes <$> Read.take content.length
  | integer _ => integer <$> PackedInt.read
  | string _ => string <$> PackedString.read

end Item

end BinaryLog.Wire
