/-
# BinaryLog.Zstd.Bits -- bits and little-endian numbers inside a byte array

Everything behind the end of an array is zero.  Entropy coded streams are written to be read
from their end: the bit that ends a stream is the highest one set in its last byte, and the
first bits to read stand below it.

A `BackwardBits` holds a word of eight bytes of its stream.  Bits are taken from the word, its
highest ones first; `refill` moves the word towards the start of the stream, as far as whole
bytes of it are used up.  More bits can be taken than there are.  What they are is then fixed by
the word alone, and `refill` tells; a stream was read as a whole when its word stands at the
start and has no bit left (`finished`).
-/

namespace BinaryLog.Zstd

set_option autoImplicit false

def octetAt (data : ByteArray) (i : Nat) : UInt8 :=
  if h : i < data.size then data[i] else 0

def byteAt (data : ByteArray) (i : Nat) : Nat := (octetAt data i).toNat

/-- The number in the `width` bytes from `i` on. -/
def numberAt (data : ByteArray) (i : Nat) : Nat → Nat
  | 0 => 0
  | width + 1 => byteAt data i + 256 * numberAt data (i + 1) width

/-- The number in the `width` bytes from `i` on, at most eight of them, as a word. -/
def wordAt (data : ByteArray) (i : Nat) : Nat → UInt64
  | 0 => 0
  | width + 1 => (octetAt data i).toUInt64 ||| (wordAt data (i + 1) width <<< 8)

/-- The number of zeros below the lowest one bit of a word; a word of zeros has 64. -/
def trailingZeros (word : UInt64) : Nat → Nat
  | 0 => 0
  | fuel + 1 => if word &&& 1 = 1 then 0 else trailingZeros (word >>> 1) fuel + 1

/-- What a refill found. -/
inductive Supply
  /-- The word was moved as far as asked; there may be more in front of it. -/
  | plenty
  /-- The word stands at the start and has bits left. -/
  | last
  /-- The word stands at the start and has none. -/
  | spent
  /-- More bits were taken than the word had. -/
  | overrun
deriving DecidableEq

structure BackwardBits where
  data : ByteArray
  /-- The first byte of the stream. -/
  start : Nat
  /-- The first byte of the word. -/
  place : Nat
  word : UInt64
  /-- How many bits of the word were taken. -/
  taken : Nat

namespace BackwardBits

/-- The stream in the `size` bytes from `first` on, unless it lacks the bit that ends it.  A
stream of fewer than eight bytes fills the low part of a word whose high part counts as taken. -/
def ofSlice (data : ByteArray) (first size : Nat) : Option BackwardBits :=
  let last := byteAt data (first + size - 1)
  if size = 0 ∨ last = 0 then none
  else
    let place := first + (size - 8)
    some {
      data, start := first, place
      word := wordAt data place (min size 8)
      taken := 8 * (8 - size) + (8 - last.log2) }

/-- The next `n` bits, at least one of them; zeros stand behind the word. -/
def peek (b : BackwardBits) (n : Nat) : Nat :=
  ((b.word <<< UInt64.ofNat b.taken) >>> UInt64.ofNat (64 - n)).toNat

/-- The next `n` bits; the word is cyclic. -/
def peekCyclic (b : BackwardBits) (n : Nat) : Nat :=
  ((b.word >>> (0 - UInt64.ofNat (b.taken + n))) &&& ((1 <<< UInt64.ofNat n) - 1)).toNat

def skip (b : BackwardBits) (n : Nat) : BackwardBits := { b with taken := b.taken + n }

/-- Takes `n` bits; none at all are zero. -/
def take (b : BackwardBits) (n : Nat) : Nat × BackwardBits :=
  if n = 0 then (0, b) else (b.peek n, b.skip n)

def takeCyclic (b : BackwardBits) (n : Nat) : Nat × BackwardBits := (b.peekCyclic n, b.skip n)

/-- Moves the word by `n` bytes. -/
def back (b : BackwardBits) (n : Nat) : BackwardBits :=
  let place := b.place - n
  { b with place, word := wordAt b.data place 8, taken := b.taken - 8 * n }

def refill (b : BackwardBits) : BackwardBits × Supply :=
  let used := b.taken / 8
  if 64 < b.taken then (b, .overrun)
  else if b.start + 8 ≤ b.place then (b.back used, .plenty)
  else if b.place = b.start then (b, if b.taken < 64 then .last else .spent)
  else if b.place < b.start + used then (b.back (b.place - b.start), .last)
  else (b.back used, .plenty)

/-- Whether exactly the bits of the stream were taken. -/
def finished (b : BackwardBits) : Bool := b.place == b.start && b.taken == 64

end BackwardBits

end BinaryLog.Zstd
