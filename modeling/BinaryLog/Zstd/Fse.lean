/-
# BinaryLog.Zstd.Fse -- tables of finite state entropy coding

A distribution gives each symbol a share of the `2 ^ log` states of a table: a count, or -1
for a symbol that is rarer than one state.  `readDistribution` reads one, `Table.build` spreads
the symbols over the states.  In a state, the next state is the state's base plus the number
in its next bits.
-/
import BinaryLog.Zstd.Bits

namespace BinaryLog.Zstd.Fse

set_option autoImplicit false

/-! ## Distributions -/

/-- Reads bits in the order in which they were written, four bytes at a time.  The four bytes
never reach behind `stop`; there, taken bits count modulo 32. -/
structure Reader where
  data : ByteArray
  stop : Nat
  /-- The first of the four bytes. -/
  place : Nat
  /-- How many bits of the four bytes were taken. -/
  taken : Nat

namespace Reader

/-- The bits that are left of the four bytes. -/
def word (r : Reader) : Nat := numberAt r.data r.place 4 >>> r.taken

/-- Moves on by the whole bytes that were taken. -/
def settle (r : Reader) : Reader :=
  if r.place + 7 ≤ r.stop ∨ r.place + r.taken / 8 + 4 ≤ r.stop then
    { r with place := r.place + r.taken / 8, taken := r.taken % 8 }
  else { r with place := r.stop - 4, taken := (r.taken - 8 * (r.stop - 4 - r.place)) % 32 }

/-- Moves on by three bytes. -/
def threeBytes (r : Reader) : Reader :=
  if r.place + 7 ≤ r.stop then { r with place := r.place + 3 }
  else { r with place := r.stop - 4, taken := (r.taken + 8 * (r.place + 7 - r.stop)) % 32 }

end Reader

/-- The number of ones at the low end of a number, at most `fuel`. -/
def trailingOnes : Nat → Nat → Nat
  | 0, _ => 0
  | fuel + 1, n => if n % 2 = 1 then trailingOnes fuel (n / 2) + 1 else 0

/-- The number of zero shares that a row of two-bit flags announces: a flag of three is followed
by another one. -/
def readZeros : Nat → Reader → Nat × Reader
  | 0, r => (0, r)
  | fuel + 1, r =>
    let threes := trailingOnes 31 r.word / 2
    if 12 ≤ threes then
      let (more, r) := readZeros fuel r.threeBytes
      (36 + more, r)
    else (3 * threes + (r.word >>> (2 * threes)) % 4, { r with taken := r.taken + 2 * threes + 2 })

/-- The shares of at most `fuel` symbols in front of which there are `shares`, latest first, until
`unassigned` states are given away.  A share is written in the fewest bits that its bound
needs; small ones take one bit less. -/
def readShares (symbols : Nat) : Nat → Reader → Nat → List Int → Option (List Int × Reader)
  | 0, _, _, _ => none
  | fuel + 1, r, unassigned, shares =>
    let width := (unassigned + 1).log2 + 1
    let half := 1 <<< (width - 1)
    let spare := (1 <<< width) - 1 - (unassigned + 1)
    let raw := r.word
    let low := raw % half
    let full := raw % (1 <<< width)
    let (code, bits) :=
      if low < spare then (low, width - 1)
      else (if full < half then full else full - spare, width)
    let r := { r with taken := r.taken + bits }
    let shares := (Int.ofNat code - 1) :: shares
    let unassigned := unassigned - (if code = 0 then 1 else code - 1)
    if unassigned = 0 then some (shares.reverse, r)
    else if code = 1 then
      let (zeros, r) := readZeros (r.stop + 8) r.settle
      let shares := List.replicate zeros 0 ++ shares
      if symbols ≤ shares.length then none else readShares symbols fuel r.settle unassigned shares
    else if symbols ≤ shares.length then none
    else readShares symbols fuel r.settle unassigned shares

structure Distribution where
  log : Nat
  shares : List Int

/-- The most states that a description can announce. -/
def maxAnnounced : Nat := 15

/-- The distribution in the bytes from `first` up to `stop`, of at most `symbols` symbols and
`2 ^ maxLog` states, and the byte behind it.  Behind fewer than eight bytes stand zeros. -/
def readDistribution (data : ByteArray) (first stop maxLog symbols : Nat) :
    Option (Distribution × Nat) := do
  let size := stop - first
  let short := size < 8
  let reader : Reader :=
    if short then
      { data := data.extract first stop, stop := 8, place := 0, taken := 4 }
    else { data, stop, place := first, taken := 4 }
  let log := numberAt reader.data reader.place 1 % 16 + 5
  let (shares, r) ← if maxAnnounced < log then none
    else readShares symbols symbols reader (1 <<< log) []
  let used := r.place - reader.place + (r.taken + 7) / 8
  if 32 < r.taken ∨ size < used ∨ maxLog < log then none
  else return ({ log, shares }, first + used)

/-! ## Tables -/

structure Cell where
  symbol : Nat
  bits : Nat
  base : Nat
deriving Inhabited

structure Table where
  log : Nat
  cells : Array Cell

namespace Table

/-- The table whose only state has the given symbol. -/
def single (symbol : Nat) : Table where
  log := 0
  cells := #[{ symbol, bits := 0, base := 0 }]

/-- The symbol of each state.  Rare symbols have the last states, in order from the end; the
others are spread over the states in front of those by a fixed step. -/
def spread (d : Distribution) : Option (Array Nat) :=
  let size := 1 <<< d.log
  let rare := d.shares.zipIdx.filterMap fun (share, s) => if share = -1 then some s else none
  let common := d.shares.zipIdx.flatMap fun (share, s) => List.replicate share.toNat s
  let step := size / 2 + size / 8 + 3
  let free := size - rare.length
  let places := (List.range size).filterMap fun k =>
    let place := k * step % size
    if place < free then some place else none
  if rare.length + common.length ≠ size then none
  else
    let symbols := (Array.replicate size 0)
    let symbols := (places.zip common).foldl (fun a (place, s) => a.setIfInBounds place s) symbols
    some (rare.zipIdx.foldl (fun a (s, k) => a.setIfInBounds (size - 1 - k) s) symbols)

/-- Numbers the states of each symbol upwards from its share; the number gives how many bits
the next state takes and where it starts. -/
def build (d : Distribution) : Option Table := do
  let symbols ← spread d
  let counters := (d.shares.map fun share => if share = -1 then 1 else share.toNat).toArray
  let (cells, _) := symbols.foldl (fun (cells, counters) s =>
    let n := counters.getD s 1
    let bits := d.log - n.log2
    (cells.push { symbol := s, bits, base := (n <<< bits) - (1 <<< d.log) },
      counters.setIfInBounds s (n + 1))) (#[], counters)
  return { log := d.log, cells }

def cell (t : Table) (state : Nat) : Cell := t.cells.getD state default

/-- The first state of a stream. -/
def start (t : Table) (b : BackwardBits) : Nat × BackwardBits :=
  let (state, b) := b.takeCyclic t.log
  (state, b.refill.1)

/-- The state after `state`. -/
def next (t : Table) (state : Nat) (b : BackwardBits) : Nat × BackwardBits :=
  let c := t.cell state
  let (low, b) := b.takeCyclic c.bits
  (c.base + low, b)

end Table

end BinaryLog.Zstd.Fse
