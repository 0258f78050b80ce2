/-
# BinaryLog.Wire.Read -- reading from the head of a byte string

`Read α` takes a value off the head of the unread bytes, or fails and says why; in both
cases it says which bytes are unread afterwards.  The primitive reads are `take`, `word`,
`signed`, `untilByte` and `rest`.  A primitive read that fails leaves everything unread,
and one that succeeds does not look past what it takes:

* `take_append`, `word_append`: a value followed by anything is read back and the rest is left;
* `append_of_take`: the bytes taken and those left are the input;
* `take_short`: with fewer bytes than wanted, the fault names the difference.
-/
import BinaryLog.Wire.Error

namespace BinaryLog.Wire

set_option autoImplicit false

abbrev Read := EStateM ReadError Bytes

namespace Read

/-- The value of a read of `bs`, whatever it leaves unread. -/
def value {α : Type} (r : Read α) (bs : Bytes) : Except ReadError α :=
  match r bs with
  | .ok a _ => .ok a
  | .error e _ => .error e

def fail {α : Type} (rule : Violation) : Read α := throw (.violation rule)

/-- Exactly `n` bytes. -/
def take (n : Nat) : Read Bytes := fun bs =>
  let front := bs.take n
  let got := front.length
  if got = n then .ok front (bs.drop n) else .error (.incomplete bs (some (n - got))) bs

/-- Everything that is left. -/
def rest : Read Bytes := fun bs => .ok bs []

/-- An unsigned little-endian integer. -/
def word (α : Type) [Word α] : Read α := Word.ofBytes <$> take (Word.width α)

/-- A little-endian integer in two's complement, as wide as `α`. -/
def signed (α : Type) [Word α] : Read Int :=
  (fun x => Int.bmod (Word.toNat x) (256 ^ Word.width α)) <$> word α

/-- The bytes up to the first `b`, which is taken too, but counts as one of them only if
`inclusive`. -/
def untilByte (b : UInt8) (inclusive : Bool) : Read Bytes := fun bs =>
  match bs.dropWhile (· != b) with
  | [] => .error (.incomplete bs none) bs
  | last :: after =>
    let before := bs.takeWhile (· != b)
    .ok (if inclusive then before ++ [last] else before) after

/-- The next byte, which stays unread. -/
def peek : Read UInt8 := fun bs =>
  match bs with
  | [] => .error (.incomplete [] (some 1)) []
  | b :: _ => .ok b bs

/-- Whether bytes are left. -/
def more : Read Bool := fun bs => .ok (!bs.isEmpty) bs

/-- Reads the word if bytes are left, and has the default otherwise. -/
def wordOr (α : Type) [Word α] (default : α) : Read α := do
  if ← more then word α else return default

/-- Reads as `r` does, but takes nothing if `r` fails. -/
def atomically {α : Type} (r : Read α) : Read α := fun bs =>
  match r bs with
  | .ok a after => .ok a after
  | .error e _ => .error e bs

/-- The text with these bytes. -/
def text (bs : Bytes) : Read String :=
  match Text.Utf8.decode bs with
  | .ok s => return s
  | .error f => throw (.notUtf8 f)

/-- Whether at least `n` bytes are left. -/
def holds (n : Nat) : Read Bool := fun bs => .ok (decide ((bs.take n).length = n)) bs

/-- `n` values in a row. -/
def times {α : Type} (r : Read α) : Nat → Read (List α)
  | 0 => return []
  | n + 1 => do
    let a ← r
    let as ← times r n
    return a :: as

/-- Values in a row, at most `fuel` of them, until nothing is left. -/
def allWithin {α : Type} (r : Read α) : Nat → Read (List α)
  | 0 => return []
  | fuel + 1 => do
    if ← more then
      let a ← r
      let as ← allWithin r fuel
      return a :: as
    else return []

/-- Values in a row until nothing is left, for a read that takes at least one byte. -/
def all {α : Type} (r : Read α) : Read (List α) := fun bs => allWithin r bs.length bs

/-! ## What the primitive reads do -/

theorem take_append {a : Bytes} {n : Nat} (h : a.length = n) (r : Bytes) :
    take n (a ++ r) = .ok a r := by
  subst h
  simp [take]

theorem append_of_take {n : Nat} {bs a r : Bytes} (h : take n bs = .ok a r) :
    a ++ r = bs ∧ a.length = n := by
  simp only [take] at h
  split at h
  · next hn =>
    cases h
    exact ⟨List.take_append_drop n bs, hn⟩
  · cases h

theorem take_short {bs : Bytes} {n : Nat} (h : bs.length < n) :
    take n bs = .error (.incomplete bs (some (n - bs.length))) bs := by
  have hne : ¬ bs.length = n := by omega
  simp [take, List.take_of_length_le (Nat.le_of_lt h), hne]

theorem of_map {α β : Type} {f : α → β} {r : Read α} {bs rest : Bytes} {b : β}
    (h : (f <$> r) bs = .ok b rest) : ∃ a, r bs = .ok a rest ∧ f a = b := by
  simp only [Functor.map, EStateM.map] at h
  split at h
  · next a _ ha =>
    cases h
    exact ⟨a, ha, rfl⟩
  · cases h

theorem word_append {α : Type} [Word α] (x : α) (r : Bytes) :
    word α (Word.bytes x ++ r) = .ok x r := by
  have h := take_append (Word.length_bytes x) r
  simp [word, Functor.map, EStateM.map, h]

end Read

end BinaryLog.Wire
