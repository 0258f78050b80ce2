/-
# BinaryLog.Zstd.Huffman.Stream -- the symbols of one coded stream

A stream is decoded until its content has the size wanted.  The bits run short only if the
stream is damaged, and then the moments of the refills decide what the last symbols are: `fill`
makes them in rounds, of several look-ups each while there is plenty, then one look-up at a
time, and none once the word of the stream has reached its start.
-/
import BinaryLog.Zstd.Huffman

namespace BinaryLog.Zstd.Huffman.Table

set_option autoImplicit false

/-- Appends the symbols of a word; also gives how many bits they take. -/
def append (t : Table) (word : Nat) (out : ByteArray) : Nat × ByteArray :=
  let first := t.cell word
  match t.second? word first with
  | none => (first.bits, out.push first.symbol)
  | some second => (first.bits + second.bits, (out.push first.symbol).push second.symbol)

/-- Makes `n` look-ups. -/
def lookUps (t : Table) : Nat → BackwardBits → ByteArray → BackwardBits × ByteArray
  | 0, b, out => (b, out)
  | n + 1, b, out =>
    let (bits, out) := t.append (b.peek t.width) out
    lookUps t n (b.skip bits) out

/-- Rounds of `count` look-ups, each behind a refill, while there is plenty and `least` symbols
more fit in front of `size`. -/
def rounds (t : Table) (size least count : Nat) :
    Nat → BackwardBits → ByteArray → BackwardBits × ByteArray
  | 0, b, out => (b, out)
  | fuel + 1, b, out =>
    let (b, supply) := b.refill
    if supply = .plenty ∧ out.size + least ≤ size then
      let (b, out) := t.lookUps count b out
      rounds t size least count fuel b out
    else (b, out)

/-- Makes look-ups while two more symbols fit in front of `size`. -/
def pairs (t : Table) (size : Nat) : Nat → BackwardBits → ByteArray → BackwardBits × ByteArray
  | 0, b, out => (b, out)
  | fuel + 1, b, out =>
    if out.size + 2 ≤ size then
      let (b, out) := t.lookUps 1 b out
      pairs t size fuel b out
    else (b, out)

/-- Appends the first symbol of the next word.  If the word holds a second one, its bits are taken
too as far as there are any. -/
def appendLast (t : Table) (b : BackwardBits) (out : ByteArray) : BackwardBits × ByteArray :=
  let word := b.peek t.width
  let first := t.cell word
  let out := out.push first.symbol
  match t.second? word first with
  | none => (b.skip first.bits, out)
  | some second =>
    if b.taken < 64 then
      ({ b with taken := min 64 (b.taken + first.bits + second.bits) }, out)
    else (b, out)

/-- Appends symbols until there are `size`. -/
def fill (t : Table) (size : Nat) (b : BackwardBits) (out : ByteArray) : BackwardBits × ByteArray :=
  if t.paired then
    let (b, out) := if t.width ≤ commonWidth then t.rounds size 10 5 (size + 1) b out
      else t.rounds size 8 4 (size + 1) b out
    let (b, out) := if out.size + 2 ≤ size then t.rounds size 2 1 (size + 1) b out else (b, out)
    let (b, out) := t.pairs size (size + 1) b out
    if out.size < size then t.appendLast b out else (b, out)
  else
    let (b, out) := t.rounds size 4 4 (size + 1) b out
    t.lookUps (size - out.size) b out

/-- The `count` symbols that the `size` bytes from `first` on hold, and nothing else. -/
def decodeSlice (t : Table) (data : ByteArray) (first size count : Nat) : Option ByteArray := do
  let b ← BackwardBits.ofSlice data first size
  let (b, out) := t.fill count b (.emptyWithCapacity count)
  if b.finished then return out else none

end BinaryLog.Zstd.Huffman.Table
