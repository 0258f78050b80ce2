/-
# BinaryLog.Zstd.Sequences -- how a block is put together from literals and copies

A sequence says: so many literals, then a copy of so many bytes from so far back.  Lengths
and distances are coded by a symbol and extra bits, the symbols by three interleaved tables.
A small distance code stands for one of the last three distances.

Sequences are carried out one by one as they are read (`runSequences`), so that of two faults
the one that comes first is found.
-/
import BinaryLog.Zstd.Fse
import BinaryLog.Zstd.Literals

namespace BinaryLog.Zstd

set_option autoImplicit false

/-! ## Codes -/

/-- Base value and number of extra bits of each code. -/
abbrev CodeTable := Array (Nat × Nat)

/-- The table of codes whose extra bits are these, each base following on the code before. -/
def codeTable (base : Nat) (extra : List Nat) : CodeTable :=
  (extra.foldl (fun (table, base) bits => (table.push (base, bits), base + (1 <<< bits)))
    (#[], base)).1

def literalLengthCodes : CodeTable :=
  codeTable 0 (List.replicate 16 0 ++ [1, 1, 1, 1, 2, 2, 3, 3, 4, 6, 7, 8, 9, 10, 11, 12, 13, 14, 15, 16])

def matchLengthCodes : CodeTable :=
  codeTable 3 (List.replicate 32 0 ++
    [1, 1, 1, 1, 2, 2, 3, 3, 4, 4, 5, 7, 8, 9, 10, 11, 12, 13, 14, 15, 16])

def offsetCodes : CodeTable := codeTable 1 (List.range 32)

def literalLengthDefault : Fse.Distribution where
  log := 6
  shares := [4, 3, 2, 2, 2, 2, 2, 2, 2, 2, 2, 2, 2, 1, 1, 1, 2, 2, 2, 2, 2, 2, 2, 2, 2, 3, 2, 1, 1, 1,
    1, 1, -1, -1, -1, -1]

def matchLengthDefault : Fse.Distribution where
  log := 6
  shares := [1, 4, 3, 2, 2, 2, 2, 2, 2] ++ List.replicate 37 1 ++ List.replicate 7 (-1)

def offsetDefault : Fse.Distribution where
  log := 5
  shares := [1, 1, 1, 1, 1, 1, 2, 2, 2, 1, 1, 1, 1, 1, 1, 1, 1, 1, 1, 1, 1, 1, 1, 1,
    -1, -1, -1, -1, -1]

/-! ## What blocks of a frame share -/

/-- The last three distances, the latest first. -/
structure Distances where
  first : Nat
  second : Nat
  third : Nat

/-- The distance that a code value stands for, and the last distances afterwards.  Without
literals the three values move on by one, and the last is one less than the latest distance. -/
def Distances.resolve (d : Distances) (value literals : Nat) : Nat × Distances :=
  if 3 < value then (value - 3, ⟨value - 3, d.first, d.second⟩)
  else match value + (if literals = 0 then 1 else 0) with
    | 1 => (d.first, d)
    | 2 => (d.second, ⟨d.second, d.first, d.third⟩)
    | 3 => (d.third, ⟨d.third, d.first, d.second⟩)
    | _ => (d.first - 1, ⟨d.first - 1, d.first, d.second⟩)

/-- The tables of the last block that had sequences. -/
structure SequenceTables where
  literalLength : Fse.Table
  offset : Fse.Table
  matchLength : Fse.Table

/-! ## Headers -/

/-- One of the three tables, from byte `first` on, and the byte behind it.  The mode says that
it is the default one, has one symbol, is described here, or is that of an earlier block. -/
def readTable (data : ByteArray) (first stop mode maxLog : Nat) (codes : CodeTable)
    (default : Fse.Distribution) (earlier : Option Fse.Table) : Option (Fse.Table × Nat) :=
  match mode with
  | 0 => (Fse.Table.build default).map (·, first)
  | 1 =>
    let symbol := byteAt data first
    if first < stop ∧ symbol < codes.size then some (.single symbol, first + 1) else none
  | 2 => do
    let (distribution, next) ← Fse.readDistribution data first stop maxLog codes.size
    let table ← Fse.Table.build distribution
    return (table, next)
  | _ => earlier.map (·, first)

/-- The three tables, whose modes are in one byte, from byte `first` on. -/
def SequenceTables.read (data : ByteArray) (first stop modes : Nat)
    (earlier : Option SequenceTables) : Option (SequenceTables × Nat) := do
  let (literalLength, next) ← readTable data first stop (modes / 64) 9 literalLengthCodes
    literalLengthDefault (earlier.map (·.literalLength))
  let (offset, next) ← readTable data next stop (modes / 16 % 4) 8 offsetCodes
    offsetDefault (earlier.map (·.offset))
  let (matchLength, next) ← readTable data next stop (modes / 4 % 4) 9 matchLengthCodes
    matchLengthDefault (earlier.map (·.matchLength))
  return ({ literalLength, offset, matchLength }, next)

/-- The number of sequences that the bytes from `first` up to `stop` announce, and the byte
behind it. -/
def readCount (data : ByteArray) (first stop : Nat) : Except Fault (Nat × Nat) :=
  let lead := byteAt data first
  let width := if lead < 128 then 1 else if lead < 255 then 2 else 3
  let count := if lead < 128 then lead
    else if lead < 255 then (lead - 128) * 256 + byteAt data (first + 1)
    else numberAt data (first + 1) 2 + 0x7f00
  if stop < first + width then .error .wrongSize else .ok (count, first + width)

/-! ## Reading a sequence -/

structure Sequence where
  literals : Nat
  distance : Nat
  length : Nat

/-- The states of the three tables. -/
structure States where
  literalLength : Nat
  offset : Nat
  matchLength : Nat

def States.start (t : SequenceTables) (b : BackwardBits) : States × BackwardBits :=
  let (literalLength, b) := t.literalLength.start b
  let (offset, b) := t.offset.start b
  let (matchLength, b) := t.matchLength.start b
  ({ literalLength, offset, matchLength }, b)

def States.next (s : States) (t : SequenceTables) (b : BackwardBits) : States × BackwardBits :=
  let (literalLength, b) := t.literalLength.next s.literalLength b
  let (matchLength, b) := t.matchLength.next s.matchLength b
  let (offset, b) := t.offset.next s.offset b
  ({ literalLength, offset, matchLength }, b.refill.1)

/-- So many bits of a word are left for the next states whatever extra bits were taken, unless it
is refilled. -/
def extraBits : Nat := 31

/-- The sequence of these states.  The word is refilled in front of the bits for the literals
if the extra bits are many. -/
def States.sequence (s : States) (t : SequenceTables) (b : BackwardBits) (d : Distances) :
    Sequence × BackwardBits × Distances :=
  let (literals, literalBits) := literalLengthCodes.getD (t.literalLength.cell s.literalLength).symbol (0, 0)
  let (length, lengthBits) := matchLengthCodes.getD (t.matchLength.cell s.matchLength).symbol (0, 0)
  let (value, valueBits) := offsetCodes.getD (t.offset.cell s.offset).symbol (0, 0)
  let (extra, b) := b.take valueBits
  let (distance, d) := d.resolve (value + extra) literals
  let (moreLength, b) := b.take lengthBits
  let b := if extraBits ≤ literalBits + lengthBits + valueBits then b.refill.1 else b
  let (moreLiterals, b) := b.take literalBits
  ({ literals := literals + moreLiterals, distance, length := length + moreLength }, b, d)

/-! ## Carrying it out -/

/-- Where the segments start that copies may reach back into: the current one and the one before
it.  A segment is content that lies in one piece in the buffer for it, and each starts at the
start of that buffer. -/
structure Segments where
  earlier : Nat
  current : Nat

/-- Appends `n` bytes, each a copy of the byte `distance` in front of it. -/
def copyBack (distance : Nat) : Nat → ByteArray → ByteArray
  | 0, out => out
  | n + 1, out =>
    let b := octetAt out (out.size - distance)
    copyBack distance n (out.push b)

/-- Appends the `n` bytes from `place` of the buffer on.  The current segment has already taken the
first `covered` places; behind them the earlier one is still there. -/
def copyEarlier (s : Segments) (covered place : Nat) : Nat → ByteArray → ByteArray
  | 0, out => out
  | n + 1, out =>
    let b := octetAt out ((if place < covered then s.current else s.earlier) + place)
    copyEarlier s covered (place + 1) n (out.push b)

/-- Appends a copy of `length` bytes from `distance` back, not in front of the earlier segment. -/
def copyMatch (s : Segments) (distance length : Nat) (out : ByteArray) : ByteArray :=
  let source := out.size - distance
  if s.current ≤ source then copyBack distance length out
  else
    let front := min length (s.current - source)
    copyBack distance (length - front)
      (copyEarlier s (out.size - s.current) (source - s.earlier) front out)

/-- Whether the content of the block has reached literals inside its room that the next sequence
needs. -/
def Keeping.overtaken (k : Keeping) (filled used literals : Nat) : Bool :=
  match k with
  | .inside place count =>
    used + literals ≤ count && place + used < filled && filled < place + used + literals
  | _ => false

/-- A block on its way. -/
structure Assembly where
  /-- The content of the frame up to now. -/
  out : ByteArray
  /-- How many literals were used. -/
  used : Nat

/-- What a block is put together from, and where. -/
structure Site where
  literals : Literals
  segments : Segments
  /-- Where the content of the block starts. -/
  origin : Nat
  /-- The bytes that the block may fill. -/
  room : Nat

/-- Carries a sequence out. -/
def Sequence.run (s : Sequence) (site : Site) (a : Assembly) : Except Fault Assembly :=
  let filled := a.out.size - site.origin
  let used := a.used + s.literals
  if site.room < filled + s.literals + s.length then .error .noRoom
  else if site.literals.content.size < used then .error .corrupted
  else if site.literals.keeping.overtaken filled a.used s.literals then .error .noRoom
  else
    let out := a.out ++ site.literals.content.extract a.used used
    if out.size < site.segments.earlier + s.distance ∨ s.distance = 0 then .error .corrupted
    else .ok { out := copyMatch site.segments s.distance s.length out, used }

/-- Reads and carries out so many sequences. -/
def runSequences (t : SequenceTables) (site : Site) :
    Nat → States → BackwardBits → Distances → Assembly →
      Except Fault (BackwardBits × Distances × Assembly)
  | 0, _, b, d, a => .ok (b, d, a)
  | count + 1, s, b, d, a =>
    let (sequence, b, d) := s.sequence t b d
    let (s, b) := if count = 0 then (s, b) else s.next t b
    match sequence.run site a with
    | .error f => .error f
    | .ok a => runSequences t site count s b d a

/-- Appends the literals that no sequence used. -/
def Assembly.finish (a : Assembly) (site : Site) : Except Fault ByteArray :=
  let content := site.literals.content
  if site.room < a.out.size - site.origin + (content.size - a.used) then .error .noRoom
  else .ok (a.out ++ content.extract a.used content.size)

end BinaryLog.Zstd
