/-
# BinaryLog.Zstd.XxHash -- the 64-bit hash that checks a frame's content

Four accumulators take the content in stripes of 32 bytes; they are merged, and the rest is
taken in words of eight, four and one byte.
-/
import BinaryLog.Zstd.Bits

namespace BinaryLog.Zstd.XxHash

set_option autoImplicit false

def prime1 : UInt64 := 0x9E3779B185EBCA87
def prime2 : UInt64 := 0xC2B2AE3D27D4EB4F
def prime3 : UInt64 := 0x165667B19E3779F9
def prime4 : UInt64 := 0x85EBCA77C2B2AE63
def prime5 : UInt64 := 0x27D4EB2F165667C5

def rotate (x : UInt64) (n : UInt64) : UInt64 := (x <<< n) ||| (x >>> (64 - n))

def round (acc input : UInt64) : UInt64 := rotate (acc + input * prime2) 31 * prime1

def merge (acc lane : UInt64) : UInt64 := (acc ^^^ round 0 lane) * prime1 + prime4

def word64 (data : ByteArray) (i : Nat) : UInt64 := .ofNat (numberAt data i 8)

/-- The four accumulators. -/
structure Lanes where
  a : UInt64
  b : UInt64
  c : UInt64
  d : UInt64

def Lanes.stripe (l : Lanes) (data : ByteArray) (i : Nat) : Lanes where
  a := round l.a (word64 data i)
  b := round l.b (word64 data (i + 8))
  c := round l.c (word64 data (i + 16))
  d := round l.d (word64 data (i + 24))

def Lanes.stripes (data : ByteArray) (i : Nat) : Nat → Lanes → Lanes
  | 0, l => l
  | n + 1, l => stripes data (i + 32) n (l.stripe data i)

def Lanes.merged (l : Lanes) : UInt64 :=
  let sum := rotate l.a 1 + rotate l.b 7 + rotate l.c 12 + rotate l.d 18
  merge (merge (merge (merge sum l.a) l.b) l.c) l.d

def words (data : ByteArray) (i : Nat) : Nat → UInt64 → UInt64
  | 0, h => h
  | n + 1, h =>
    words data (i + 8) n (rotate (h ^^^ round 0 (word64 data i)) 27 * prime1 + prime4)

def bytes (data : ByteArray) (i : Nat) : Nat → UInt64 → UInt64
  | 0, h => h
  | n + 1, h =>
    bytes data (i + 1) n (rotate (h ^^^ (.ofNat (byteAt data i) * prime5)) 11 * prime1)

def avalanche (h : UInt64) : UInt64 :=
  let h := (h ^^^ (h >>> 33)) * prime2
  let h := (h ^^^ (h >>> 29)) * prime3
  h ^^^ (h >>> 32)

/-- The hash of the `size` bytes from `first` on. -/
def hash (data : ByteArray) (first size : Nat) : UInt64 :=
  let stripeCount := size / 32
  let lanes : Lanes := { a := prime1 + prime2, b := prime2, c := 0, d := 0 - prime1 }
  let start := if stripeCount = 0 then prime5 else (Lanes.stripes data first stripeCount lanes).merged
  let h := start + .ofNat size
  let tail := first + 32 * stripeCount
  let wordCount := size % 32 / 8
  let h := words data tail wordCount h
  let tail := tail + 8 * wordCount
  let h := if size % 8 < 4 then h
    else rotate (h ^^^ (.ofNat (numberAt data tail 4) * prime1)) 23 * prime2 + prime3
  let tail := if size % 8 < 4 then tail else tail + 4
  avalanche (bytes data tail (size % 4) h)

end BinaryLog.Zstd.XxHash
