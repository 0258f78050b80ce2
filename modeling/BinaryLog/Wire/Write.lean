/-
# BinaryLog.Wire.Write -- writing to the tail of a byte string

A `Write` adds to a buffer that may hold anything, and tells how many bytes it has added, or fails
and says why.  Where `encode` says what is written for a value, `write` says how: part by part, each
behind what is there already.  The primitive writes are `octets` and `word`; `row` writes several
parts and adds up their counts, and `aside` writes to a buffer of its own.

A write `Performs` a result if it adds those bytes and counts them, or fails for that reason and
leaves the buffer as it was, whatever the buffer holds:

* `appends_octets`, `appends_word`: the primitive writes add what they are given;
* `Appends.cons`, `Appends.last`: parts that are written in a row stand there in a row;
* `Performs.aside_ok`, `Performs.aside_error`: what is written aside does not touch the buffer;
* `Performs.unique`: a write comes to one result only.
-/
import BinaryLog.Wire.Item

namespace BinaryLog.Wire

set_option autoImplicit false

/-- A write to the tail of a buffer, and the number of bytes that it has written. -/
abbrev Write := EStateM Violation Bytes Nat

namespace Write

/-- Bytes as they are. -/
def octets (bs : Bytes) : Write := fun out => .ok bs.length (out ++ bs)

/-- An unsigned integer, least significant byte first. -/
def word {α : Type} [Word α] (x : α) : Write := fun out => .ok (Word.width α) (out ++ Word.bytes x)

/-- One write behind the other. -/
def row : List Write → Write
  | [] => return 0
  | w :: ws => do
    let n ← w
    let m ← row ws
    return n + m

/-- What a write leaves in a buffer of its own. -/
def aside (w : Write) : EStateM Violation Bytes Bytes := fun out =>
  match w [] with
  | .ok _ bs => .ok bs out
  | .error v _ => .error v out

/-! ## What a write does to the buffer -/

/-- What is behind `out` when `result` was written to it, and how many bytes that are. -/
def onto (result : Except Violation Bytes) (out : Bytes) : EStateM.Result Violation Bytes Nat :=
  match result with
  | .ok bs => .ok bs.length (out ++ bs)
  | .error v => .error v out

/-- The write comes to this result on every buffer. -/
def Performs (w : Write) (result : Except Violation Bytes) : Prop := ∀ out, w out = onto result out

/-- The write adds these bytes to every buffer. -/
def Appends (w : Write) (bs : Bytes) : Prop := w.Performs (.ok bs)

theorem appends_octets (bs : Bytes) : (octets bs).Appends bs := fun _ => rfl

theorem appends_word {α : Type} [Word α] (x : α) : (word x).Appends (Word.bytes x) := by
  intro out
  simp only [word, onto, Word.length_bytes]

variable {w : Write} {ws : List Write} {bs bs' : Bytes}

theorem appends_nil : (row []).Appends [] := by
  intro out
  simp only [row, pure, EStateM.pure, onto, List.length_nil, List.append_nil]

theorem Appends.cons (first : w.Appends bs) (later : (row ws).Appends bs') :
    (row (w :: ws)).Appends (bs ++ bs') := by
  intro out
  have here : w out = .ok bs.length (out ++ bs) := first out
  have behind : row ws (out ++ bs) = .ok bs'.length (out ++ bs ++ bs') := later (out ++ bs)
  simp only [row, bind, EStateM.bind, here, behind, pure, EStateM.pure, onto, List.length_append,
    List.append_assoc]

theorem Appends.last (only : w.Appends bs) : (row [w]).Appends bs := by
  have whole := only.cons appends_nil
  rwa [List.append_nil] at whole

theorem Performs.aside_ok (performs : w.Performs (.ok bs)) (out : Bytes) :
    w.aside out = .ok bs out := by
  have alone : w [] = .ok bs.length bs := performs []
  simp only [aside, alone]

theorem Performs.aside_error {v : Violation} (performs : w.Performs (.error v)) (out : Bytes) :
    w.aside out = .error v out := by
  have alone : w [] = .error v [] := performs []
  simp only [aside, alone]

theorem Performs.unique {x y : Except Violation Bytes} (one : w.Performs x)
    (other : w.Performs y) : x = y := by
  have same : onto x [] = onto y [] := (one []).symm.trans (other [])
  cases x with
  | ok bs =>
      cases y with
      | ok bs' =>
          simp only [onto, List.nil_append, EStateM.Result.ok.injEq] at same
          rw [same.2]
      | error v => cases same
  | error v =>
      cases y with
      | ok bs => cases same
      | error v' =>
          cases same
          rfl

end Write

/-! ## Packed integers and strings, and items -/

def PackedInt.write : PackedInt → Write
  | null => .word (0xfb : UInt8)
  | error => .word (0xff : UInt8)
  | one n => .word n
  | two n => .row [.word (0xfc : UInt8), .word n]
  | three n => .row [.word (0xfd : UInt8), .word n]
  | eight n => .row [.word (0xfe : UInt8), .word n]

def PackedString.write : PackedString → Write
  | null => PackedInt.null.write
  | error => PackedInt.error.write
  | bytes content => .row [(PackedInt.ofNat content.length).write, .octets content]

def Item.write : Item → Write
  | u8 n => .word n
  | u16 n => .word n
  | u24 n => .word n
  | u32 n => .word n
  | u48 n => .word n
  | u64 n => .word n
  | bytes content => .octets content
  | integer n => n.write
  | string s => s.write

/-- Several items, one behind the other. -/
def Item.writeAll (items : List Item) : Write := .row (items.map write)

end BinaryLog.Wire
