/-
# BinaryLog.Zstd.Huffman -- prefix codes for literals

A code is given by a weight for each symbol.  Of all `2 ^ log` words of `log` bits, a symbol of
weight `w > 0` owns `2 ^ (w - 1)` neighbouring ones, namely those that start with its code;
symbols are laid out by weight and then by value.  The weight of the last symbol is not
written, since it has to fill the words up.

A table answers look-ups of words of `width` bits, which are at least as long as the longest
code.  A paired table gives two symbols for a word that holds the codes of both.
-/
import BinaryLog.Zstd.Fse

namespace BinaryLog.Zstd.Huffman

set_option autoImplicit false

structure Cell where
  symbol : UInt8
  bits : Nat
deriving Inhabited

structure Table where
  width : Nat
  cells : Array Cell
  paired : Bool

/-- The longest code that a table may have. -/
def maxLog : Nat := 12

/-- The words of all codes that are no longer than this have this many bits. -/
def commonWidth : Nat := 11

namespace Table

/-- The number of words that symbols of these weights own. -/
def words (weights : List Nat) : Nat :=
  weights.foldl (fun n w => if w = 0 then n else n + (1 <<< (w - 1))) 0

/-- The table of a code from the weights of all symbols but the last. -/
def ofWeights (paired : Bool) (weights : List Nat) : Option Table :=
  let given := words weights
  let log := given.log2 + 1
  let missing := (1 <<< log) - given
  let all := weights ++ [missing.log2 + 1]
  let width := max log commonWidth
  if given = 0 ∨ maxLog < log ∨ missing ≠ 1 <<< missing.log2 ∨ all.count 1 < 2 then none
  else
    let cells := (List.range log).flatMap fun k =>
      all.zipIdx.flatMap fun (w, s) =>
        if w = k + 1 then
          List.replicate (1 <<< (k + width - log)) { symbol := .ofNat s, bits := log - k }
        else []
    some { width, cells := cells.toArray, paired }

def cell (t : Table) (word : Nat) : Cell := t.cells.getD word default

/-- Behind the first symbol of a word, the second one, if the word holds the codes of both and
the table is paired. -/
def second? (t : Table) (word : Nat) (first : Cell) : Option Cell :=
  if t.paired then
    let second := t.cell ((word <<< first.bits) % (1 <<< t.width))
    if first.bits + second.bits ≤ t.width then some second else none
  else none

end Table

/-! ## Reading the weights -/

/-- Weights of four bits each, two in a byte. -/
def directWeights (data : ByteArray) (first count : Nat) : List Nat :=
  (List.range count).map fun k =>
    let b := byteAt data (first + k / 2)
    if k % 2 = 0 then b / 16 else b % 16

/-- Weights from two states that take turns, until the stream is overrun. -/
def turns (t : Fse.Table) : Nat → Nat → Nat → BackwardBits → List Nat → Option (List Nat)
  | 0, _, _, _, _ => none
  | fuel + 1, one, other, b, weights =>
    let weights := (t.cell one).symbol :: weights
    let (one, b) := t.next one b
    match b.refill with
    | (_, .overrun) => some ((t.cell other).symbol :: weights).reverse
    | (b, _) => turns t fuel other one b weights

/-- The most weights that a distribution over `2 ^ log` states may have. -/
def maxWeights (log : Nat) : Nat := if log = 6 then 12 else 92

/-- Weights coded in the bytes from `first` up to `stop`. -/
def codedWeights (data : ByteArray) (first stop : Nat) : Option (List Nat) := do
  let (distribution, next) ← Fse.readDistribution data first stop 6 256
  let table ← if maxWeights distribution.log < distribution.shares.length then none
    else Fse.Table.build distribution
  let b ← BackwardBits.ofSlice data next (stop - next)
  let (one, b) := table.start b
  let (other, b) := table.start b
  if b.refill.2 = .overrun then none else turns table 254 one other b []

/-- The table described from byte `first` on, and the byte behind the description, which is not
behind `stop`. -/
def readTable (paired : Bool) (data : ByteArray) (first stop : Nat) : Option (Table × Nat) := do
  let lead := byteAt data first
  let next := first + 1 + (if lead < 128 then lead else (lead - 127 + 1) / 2)
  if stop < next ∨ stop ≤ first then none
  else
    let weights ← if lead < 128 then codedWeights data (first + 1) next
      else some (directWeights data (first + 1) (lead - 127))
    if weights.any (maxLog < ·) then none
    else
      let table ← Table.ofWeights paired weights
      return (table, next)

end BinaryLog.Zstd.Huffman
