/-
# BinaryLog.Zstd.Literals -- the bytes of a block that are not copies of earlier ones

The literals of a block are stored as they are, as one repeated byte, or in one or four
streams of a prefix code, which comes along or is that of an earlier block.

Until its literals have moved to their places in the content, a block has to keep them
somewhere; `Keeping` says where, and how much room that leaves for the content.
-/
import BinaryLog.Zstd.Fault
import BinaryLog.Zstd.Huffman.Lanes

namespace BinaryLog.Zstd

set_option autoImplicit false

/-! ## Room -/

/-- The room for the content of a block. -/
structure Room where
  /-- The bytes that are free. -/
  free : Nat
  /-- The most bytes that a block of the frame may have. -/
  limit : Nat
  /-- Whether all the free bytes behind the content may be used on the way. -/
  roomy : Bool

namespace Room

/-- Bytes that copies may write behind their end. -/
def margin : Nat := 32

/-- The most literals that are kept outside the room. -/
def apart : Nat := 65536

/-- The most literals that there is room for. -/
def forLiterals (r : Room) : Nat := min r.limit r.free

end Room

/-- Where the literals of a block are kept. -/
inductive Keeping
  /-- Outside the room. -/
  | apart
  /-- In the room, behind all that the block may fill. -/
  | behind
  /-- In the room, of which the block may fill all: the first `count` of them from `place` on, the
  others outside. -/
  | inside (place count : Nat)

/-- Where `count` literals are kept. -/
def Room.keep (r : Room) (count : Nat) : Keeping :=
  if r.roomy ∧ r.limit + margin + count + margin < r.free then .behind
  else if count ≤ apart then .apart
  else .inside (r.forLiterals - margin - (count - apart)) (count - apart)

/-- The bytes that the content of a block may fill. -/
def Room.size (r : Room) : Keeping → Nat
  | .behind => r.limit + margin
  | _ => r.free

structure Literals where
  content : ByteArray
  keeping : Keeping
  /-- The prefix code for later blocks. -/
  code : Option Huffman.Table
  /-- The byte behind the literals. -/
  next : Nat

namespace Literals

/-- Refuses more literals than a block may have, or than there is room for. -/
def checkCount (r : Room) (count : Nat) : Except Fault Unit :=
  if r.limit < count then .error .corrupted
  else if r.forLiterals < count then .error .noRoom
  else .ok ()

/-- The bytes of the header and the number of literals that are not coded. -/
def plainHeader (data : ByteArray) (first : Nat) : Nat × Nat :=
  let format := byteAt data first / 4 % 4
  if format % 2 = 0 then (1, byteAt data first / 8)
  else if format = 1 then (2, numberAt data first 2 / 16)
  else (3, numberAt data first 3 / 16)

/-- Literals stored as they are. -/
def readStored (data : ByteArray) (first stop : Nat) (room : Room) (code : Option Huffman.Table) :
    Except Fault Literals := do
  let (header, count) := plainHeader data first
  if stop < first + header then throw .corrupted
  checkCount room count
  let start := first + header
  let next := start + count
  if stop < next then throw .corrupted
  let keeping := if next + Room.margin ≤ stop then .apart else room.keep count
  return { content := data.extract start next, keeping, code, next }

/-- One byte that stands for all literals. -/
def readRepeated (data : ByteArray) (first stop : Nat) (room : Room) (code : Option Huffman.Table) :
    Except Fault Literals := do
  let (header, count) := plainHeader data first
  if stop < first + header + 1 then throw .corrupted
  checkCount room count
  let content := ⟨Array.replicate count (octetAt data (first + header))⟩
  return { content, keeping := room.keep count, code, next := first + header + 1 }

/-- What plain and paired tables cost, by how many sixteenths of their size the literals were
compressed to: each a fixed cost and one for every 256 literals. -/
def costs : Array ((Nat × Nat) × (Nat × Nat)) := #[
  ((0, 0), (1, 1)), ((0, 0), (1, 1)), ((150, 216), (381, 119)), ((170, 205), (514, 112)),
  ((177, 199), (539, 110)), ((197, 194), (644, 107)), ((221, 192), (735, 107)),
  ((256, 189), (881, 106)), ((359, 188), (1167, 109)), ((582, 187), (1570, 114)),
  ((688, 187), (1712, 122)), ((825, 186), (1965, 136)), ((976, 185), (2131, 150)),
  ((1180, 186), (2070, 175)), ((1377, 185), (1731, 202)), ((1412, 185), (1695, 202))]

/-- Whether a paired table is the better one for `count` literals in `size` bytes.  It has to be so
by a margin, since it is the larger one. -/
def prefersPairs (count size : Nat) : Bool :=
  let sixteenths := if count ≤ size then 15 else size * 16 / count
  let (plain, paired) := costs.getD sixteenths ((0, 0), (0, 0))
  let blocks := count / 256
  let pairedCost := paired.1 + paired.2 * blocks
  pairedCost + pairedCost / 32 < plain.1 + plain.2 * blocks

/-- Literals in a prefix code; `earlier` is the code, unless it comes along. -/
def readCoded (data : ByteArray) (first stop : Nat) (room : Room) (earlier : Option Huffman.Table) :
    Except Fault Literals := do
  if stop < first + 5 then throw .corrupted
  let format := byteAt data first / 4 % 4
  let header := if format < 2 then 3 else format + 2
  let width := if format < 2 then 10 else if format = 2 then 14 else 18
  let sizes := numberAt data first header / 16
  let count := sizes % (1 <<< width)
  let start := first + header
  let next := start + (sizes >>> width) % (1 <<< width)
  let single := format = 0
  if room.limit < count then throw .corrupted
  if ¬ single ∧ count < 6 then throw .literalsHeader
  if stop < next then throw .corrupted
  if room.forLiterals < count then throw .noRoom
  let decoded : Option (ByteArray × Huffman.Table) := do
    let (code, start) ← match earlier with
      | some code => some (code, start)
      | none => Huffman.readTable (¬ single ∧ prefersPairs count (next - start)) data start next
    if earlier.isNone ∧ next ≤ start then none
    else
      let content ← if single then code.decodeSlice data start (next - start) count
        else code.decodeFour data start next count
      return (content, code)
  match decoded with
  | none => throw .corrupted
  | some (content, code) => return { content, keeping := room.keep count, code := some code, next }

/-- The literals in the bytes from `first` up to `stop`, of which `code` is the prefix code of
earlier blocks. -/
def read (data : ByteArray) (first stop : Nat) (room : Room) (code : Option Huffman.Table) :
    Except Fault Literals :=
  if stop < first + 2 then .error .corrupted
  else match byteAt data first % 4, code with
    | 0, _ => readStored data first stop room code
    | 1, _ => readRepeated data first stop room code
    | 2, _ => readCoded data first stop room none
    | _, some code => readCoded data first stop room (some code)
    | _, none => .error .missingCode

end Literals

end BinaryLog.Zstd
