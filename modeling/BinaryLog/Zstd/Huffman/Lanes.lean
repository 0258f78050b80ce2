/-
# BinaryLog.Zstd.Huffman.Lanes -- four coded streams in step

Many symbols are stored in four streams, each with a quarter of them.  A table of three
numbers in front gives the sizes of the first three streams.

Long streams are decoded in step: each `Lane` takes five look-ups, then moves its word on, as
long as no lane can run out of room or past the first byte of the whole (`Lane.advance`).  What
is left of each is then filled up as a single stream is, except that it may take its bits from
anywhere in front of it, and that nothing says where it has to end.  Short streams are decoded
one after the other, and each has to be used up.
-/
import BinaryLog.Zstd.Huffman.Stream

namespace BinaryLog.Zstd.Huffman

set_option autoImplicit false

/-! ## The four parts -/

/-- Where four streams lie and how many symbols they have. -/
structure Quarters where
  /-- The first byte of the table of sizes. -/
  first : Nat
  start1 : Nat
  start2 : Nat
  start3 : Nat
  start4 : Nat
  stop : Nat
  /-- The number of symbols of each stream but the last. -/
  share : Nat
  /-- The number of symbols of the last stream. -/
  rest : Nat

/-- The four streams of `count` symbols in the bytes from `first` up to `stop`. -/
def Quarters.read (data : ByteArray) (first stop count : Nat) : Option Quarters :=
  let start1 := first + 6
  let start2 := start1 + numberAt data first 2
  let start3 := start2 + numberAt data (first + 2) 2
  let start4 := start3 + numberAt data (first + 4) 2
  let share := (count + 3) / 4
  if stop < first + 10 ∨ stop < start4 ∨ count < 3 * share then none
  else some { first, start1, start2, start3, start4, stop, share, rest := count - 3 * share }

/-- Whether the streams are long enough to be decoded in step. -/
def Quarters.long (q : Quarters) : Bool :=
  q.start1 + 8 ≤ q.start2 && q.start2 + 8 ≤ q.start3 && q.start3 + 8 ≤ q.start4 &&
    q.start4 + 8 ≤ q.stop && 0 < q.rest

/-! ## Lanes -/

/-- A stream on its way.  The bits of its word move up as they are taken; the lowest one bit marks
how many were. -/
structure Lane where
  /-- The first byte of the word. -/
  place : Nat
  bits : UInt64
  out : ByteArray
  /-- The number of symbols wanted. -/
  size : Nat

namespace Lane

/-- A word of the data with its mark. -/
def marked (data : ByteArray) (place taken : Nat) : UInt64 :=
  (wordAt data place 8 ||| 1) <<< UInt64.ofNat taken

/-- The lane whose stream ends in front of `stop`. -/
def start (data : ByteArray) (stop size : Nat) : Lane :=
  let last := byteAt data (stop - 1)
  { place := stop - 8
    bits := marked data (stop - 8) (if last = 0 then 0 else 8 - last.log2)
    out := .emptyWithCapacity size
    size }

def lookUps (t : Table) : Nat → UInt64 → ByteArray → UInt64 × ByteArray
  | 0, bits, out => (bits, out)
  | n + 1, bits, out =>
    let (count, out) := t.append (bits >>> UInt64.ofNat (64 - t.width)).toNat out
    lookUps t n (bits <<< UInt64.ofNat count) out

/-- Five look-ups, then the word is moved on. -/
def step (t : Table) (data : ByteArray) (l : Lane) : Lane :=
  let (bits, out) := lookUps t 5 l.bits l.out
  let taken := trailingZeros bits 64
  let place := l.place - taken / 8
  { l with place, bits := marked data place (taken % 8), out }

def room (l : Lane) : Nat := l.size - l.out.size

/-- The whole content of a lane whose stream starts at byte `start`, when no bits in front of
`first` may be taken. -/
def finish (t : Table) (data : ByteArray) (first start : Nat) (l : Lane) : Option ByteArray :=
  if l.size < l.out.size ∨ l.place + 8 < start then none
  else
    let b : BackwardBits := {
      data, start := first, place := l.place
      word := wordAt data l.place 8
      taken := trailingZeros l.bits 64 }
    some (t.fill l.size b l.out).2

end Lane

/-- Four lanes, in the order of their streams. -/
structure Lanes where
  one : Lane
  two : Lane
  three : Lane
  four : Lane

namespace Lanes

def step (t : Table) (data : ByteArray) (l : Lanes) : Lanes where
  one := l.one.step t data
  two := l.two.step t data
  three := l.three.step t data
  four := l.four.step t data

/-- How many steps are safe: each takes fewer than seven bytes, and appends five symbols or, with a
paired table, up to ten. -/
def safeSteps (t : Table) (first : Nat) (l : Lanes) : Nat :=
  let steps := (l.one.place - first) / 7
  if t.paired then
    min steps ((min (min l.one.room l.two.room) (min l.three.room l.four.room)) / 10)
  else min steps (l.four.room / 5)

/-- Whether the words still stand in the order of their streams. -/
def ordered (l : Lanes) : Bool :=
  l.one.place ≤ l.two.place && l.two.place ≤ l.three.place && l.three.place ≤ l.four.place

/-- Steps until the last lane has `goal` symbols, and then on with a new goal, while there are safe
steps and the words stand in order. -/
def advance (t : Table) (data : ByteArray) (first : Nat) : Nat → Nat → Lanes → Lanes
  | 0, _, l => l
  | fuel + 1, goal, l =>
    if l.four.out.size < goal then advance t data first fuel goal (l.step t data)
    else
      let steps := l.safeSteps t first
      if steps = 0 ∨ ¬ l.ordered then l
      else advance t data first fuel (l.four.out.size + 5 * steps) (l.step t data)

end Lanes

/-! ## Decoding -/

/-- The symbols of four streams decoded in step. -/
def Quarters.decodeInStep (q : Quarters) (t : Table) (data : ByteArray) : Option ByteArray := do
  let lanes : Lanes := {
    one := .start data q.start2 q.share
    two := .start data q.start3 q.share
    three := .start data q.start4 q.share
    four := .start data q.stop q.rest }
  let lanes := lanes.advance t data q.first (q.rest + 1) 0
  let one ← lanes.one.finish t data q.first q.start1
  let two ← lanes.two.finish t data q.first q.start2
  let three ← lanes.three.finish t data q.first q.start3
  let four ← lanes.four.finish t data q.first q.start4
  return one ++ two ++ three ++ four

/-- The symbols of four streams decoded one after the other. -/
def Quarters.decodeInTurn (q : Quarters) (t : Table) (data : ByteArray) : Option ByteArray := do
  let one ← t.decodeSlice data q.start1 (q.start2 - q.start1) q.share
  let two ← t.decodeSlice data q.start2 (q.start3 - q.start2) q.share
  let three ← t.decodeSlice data q.start3 (q.start4 - q.start3) q.share
  let four ← t.decodeSlice data q.start4 (q.stop - q.start4) q.rest
  return one ++ two ++ three ++ four

/-- The `count` symbols that four streams in the bytes from `first` up to `stop` hold. -/
def Table.decodeFour (t : Table) (data : ByteArray) (first stop count : Nat) : Option ByteArray := do
  let q ← Quarters.read data first stop count
  if t.width = commonWidth ∧ q.long then q.decodeInStep t data else q.decodeInTurn t data

end BinaryLog.Zstd.Huffman
