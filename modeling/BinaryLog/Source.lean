/-
# BinaryLog.Source -- where bytes come from

A source answers reads, one reply after the other: a piece of the bytes, an interruption after
which the read is tried again, or a fault.  Behind the last reply it has ended, every further
read fails, or the bytes come from compressed data.

`take` reads until it has as many bytes as wanted or the source has ended; a fault loses what
the same call had read before it.  How much each single read asks for (`Intake`) matters to
compressed data only: a read meets the faults that lie right behind what it is given.

The text of a read that failed stays with the source until it is taken (`takeRaised`), so that a
consumer that was told of a failure can find out whether it came from here.
-/
import BinaryLog.Buffer
import BinaryLog.Zstd.Decoder

namespace BinaryLog

set_option autoImplicit false

/-- The reply to one read.  One that brings bytes brings at least one. -/
inductive Reply
  | bytes (first : UInt8) (more : Bytes)
  | interrupted
  | fault (text : String)
deriving DecidableEq, Repr

/-- The reply that brings all these bytes, if there are any. -/
def Reply.whole : Bytes → List Reply
  | [] => []
  | first :: more => [.bytes first more]

/-- What comes behind the last reply of a source. -/
inductive Rest
  | ended
  /-- Every read fails. -/
  | failing (text : String)
  | compressed (decoder : Zstd.Decoder)

structure Source where
  replies : List Reply
  rest : Rest
  /-- The text of the last read that failed, unless it was taken. -/
  raised : Option String := none

/-! ## Reading -/

/-- Reads on from compressed data until `want` more bytes are there, in front of which `got` was
read, latest byte first.  Every read but the last brings a byte, so that `want` reads are enough.
A fault stays. -/
def Rest.decompress : Nat → Intake → Nat → Bytes → Zstd.Decoder → Except String Bytes × Rest
  | 0, _, _, got, d => (.ok got.reverse, .compressed d)
  | fuel + 1, intake, want, got, d =>
    if want = 0 then (.ok got.reverse, .compressed d)
    else match d.read (intake.ask want) with
      | .error fault => (.error fault.message, .failing fault.message)
      | .ok (piece, d) =>
        let count := piece.length
        if count = 0 then (.ok got.reverse, .compressed d)
        else decompress fuel (intake.took count) (want - count) (piece.reverseAux got) d

def Rest.take (intake : Intake) (want : Nat) (got : Bytes) : Rest → Except String Bytes × Rest
  | ended => (.ok got.reverse, ended)
  | failing text => (if want = 0 then .ok got.reverse else .error text, failing text)
  | compressed d => decompress want intake want got d

/-- An upper bound for the number of bytes to come, with room for a last read. -/
def Rest.bound : Rest → Nat
  | compressed d => d.bound
  | _ => 0

namespace Source

/-- A source that has all its bytes ready. -/
def ofBytes (bs : Bytes) : Source where
  replies := Reply.whole bs
  rest := .ended

/-- A source of the content of compressed data. -/
def ofCompressed (bs : Bytes) : Source where
  replies := []
  rest := .compressed (.ofBytes bs)

/-- The number of bytes that the replies still bring. -/
def size (s : Source) : Nat :=
  s.replies.foldl
    (fun n r => match r with | .bytes first more => n + (first :: more).length | _ => n) 0

/-- An upper bound for the number of bytes to come, with room for a last read. -/
def bound (s : Source) : Nat := s.size + s.rest.bound + 1

/-- Reads on until `want` more bytes are there, in front of which `got` was read, latest byte
first. -/
def gather (rest : Rest) (raised : Option String) (intake : Intake) (want : Nat) (got : Bytes) :
    List Reply → Except String Bytes × Source
  | [] =>
    match rest.take intake want got with
    | (.error text, rest) => (.error text, { replies := [], rest, raised := some text })
    | (.ok got, rest) => (.ok got, { replies := [], rest, raised })
  | r :: replies =>
    if want = 0 then (.ok got.reverse, { replies := r :: replies, rest, raised })
    else match r with
      | .interrupted => gather rest raised intake want got replies
      | .fault text => (.error text, { replies, rest, raised := some text })
      | .bytes first more =>
        let front := (first :: more).take want
        let got := front.reverseAux got
        match (first :: more).drop want with
        | [] => gather rest raised (intake.took front.length) (want - front.length) got replies
        | first :: more =>
          (.ok got.reverse, { replies := .bytes first more :: replies, rest, raised })

/-- Reads `want` bytes, or all that are left if there are fewer. -/
def take (intake : Intake) (want : Nat) (s : Source) : Except String Bytes × Source :=
  gather s.rest s.raised intake want [] s.replies

/-- Reads `n` bytes, or all that are left if there are fewer, into a place that holds just as
many. -/
def fill (n : Nat) (s : Source) : Except String Bytes × Source := s.take .exact n

/-- Reads `n` bytes, or all that are left if there are fewer, into a buffer that grows from
nothing. -/
def collect (n : Nat) (s : Source) : Except String Bytes × Source :=
  s.take (.growing (.new 0 0)) n

/-- Reads everything. -/
def drain (s : Source) : Except String Bytes × Source := s.collect s.bound

/-- The text of the last read that failed, if there is one, and the source without it. -/
def takeRaised (s : Source) : Option String × Source := (s.raised, { s with raised := none })

/-! ## Sources that deliver in pieces -/

/-- Replies that deliver bytes in pieces of at most `n + 1`. -/
def pieces (n : Nat) : Nat → Bytes → List Reply
  | 0, _ => []
  | _ + 1, [] => []
  | fuel + 1, b :: bs => .bytes b (bs.take n) :: pieces n fuel (bs.drop n)

/-- Replies that deliver bytes, at most `chunk` at a time. -/
def deliver (chunk : Option Nat) (bs : Bytes) : List Reply :=
  match chunk with
  | none => Reply.whole bs
  | some n => pieces (n - 1) bs.length bs

/-- Puts an interruption in front of every `k`-th reply, the first one `n` replies ahead. -/
def interruptEvery (k : Nat) : Nat → List Reply → List Reply
  | _, [] => []
  | 0, r :: rs => .interrupted :: r :: interruptEvery k (k - 1) rs
  | n + 1, r :: rs => r :: interruptEvery k n rs

/-- A source of the given bytes that delivers at most `chunk` of them at a time, is interrupted
before every `interrupt`-th piece, and fails once, with the text of `failure`, at its position. -/
def script (bs : Bytes) (chunk interrupt : Option Nat) (failure : Option (Nat × String)) : Source :=
  let replies := match failure with
    | some (position, text) =>
      if position ≤ bs.length then
        deliver chunk (bs.take position) ++ .fault text :: deliver chunk (bs.drop position)
      else deliver chunk bs
    | none => deliver chunk bs
  { replies := match interrupt with
      | some k => interruptEvery k (k - 1) replies
      | none => replies
    rest := .ended }

end Source

end BinaryLog
