/-
# BinaryLog.Zstd.Block -- the blocks of a frame

A block has a header of three bytes.  Its content is stored as it is, is one repeated byte, or
is compressed: literals, and then the sequences that put them together with copies of earlier
content.  `decodeBlock` decompresses one.
-/
import BinaryLog.Zstd.Sequences

namespace BinaryLog.Zstd

set_option autoImplicit false

/-! ## Headers -/

inductive BlockType
  | stored
  | repeated
  | compressed
  | reserved
deriving DecidableEq

def BlockType.ofCode : Nat → BlockType
  | 0 => stored
  | 1 => repeated
  | 2 => compressed
  | _ => reserved

structure BlockHeader where
  isLast : Bool
  type : BlockType
  /-- The size of the content, or that of the bytes that follow if the block is compressed. -/
  size : Nat

namespace BlockHeader

/-- The bytes of a header. -/
def width : Nat := 3

/-- The header at byte `i`. -/
def read (data : ByteArray) (i : Nat) : BlockHeader :=
  let lead := numberAt data i width
  { isLast := lead % 2 = 1, type := .ofCode (lead / 2 % 4), size := lead / 8 }

/-- How many bytes follow. -/
def written (h : BlockHeader) : Nat := if h.type = .repeated then 1 else h.size

end BlockHeader

/-! ## Compressed blocks -/

/-- What a block hands on to the later blocks of its frame. -/
structure Memory where
  code : Option Huffman.Table
  tables : Option SequenceTables
  distances : Distances

def Memory.new : Memory where
  code := none
  tables := none
  distances := ⟨1, 4, 8⟩

/-- Appends what the sequences in the bytes from `first` up to `stop` say. -/
def decodeSequences (data : ByteArray) (first stop : Nat) (site : Site) (free : Nat)
    (m : Memory) (out : ByteArray) : Except Fault (ByteArray × Memory) :=
  if stop ≤ first then .error .wrongSize
  else do
    let (count, next) ← readCount data first stop
    if count = 0 then
      if next = stop then
        let out ← Assembly.finish { out, used := 0 } site
        return (out, m)
      else throw .corrupted
    else if stop ≤ next then throw .wrongSize
    else if byteAt data next % 4 ≠ 0 then throw .corrupted
    else match SequenceTables.read data (next + 1) stop (byteAt data next) m.tables with
      | none => throw .corrupted
      | some (tables, next) =>
        if free = 0 then throw .noRoom
        else match BackwardBits.ofSlice data next (stop - next) with
          | none => throw .corrupted
          | some b =>
            let (states, b) := States.start tables b
            let (b, distances, a) ←
              runSequences tables site count states b m.distances { out, used := 0 }
            if ¬ b.finished then throw .corrupted
            else
              let out ← a.finish site
              return (out, { m with tables := some tables, distances })

/-- Appends the content of the compressed block in the bytes from `first` up to `stop`. -/
def decodeBlock (data : ByteArray) (first stop : Nat) (room : Room) (segments : Segments)
    (m : Memory) (out : ByteArray) : Except Fault (ByteArray × Memory) :=
  if room.limit < stop - first then .error .wrongSize
  else match Literals.read data first stop room m.code with
    | .error f => .error f
    | .ok literals =>
      let site : Site :=
        { literals, segments, origin := out.size, room := room.size literals.keeping }
      decodeSequences data literals.next stop site room.free { m with code := literals.code } out

end BinaryLog.Zstd
