/-
# BinaryLog.Proofs.Strict -- reads whose operations have bounds

On a list every operation has a value: what is dropped behind the end is nothing, and a difference
that would be negative is zero.  On a buffer of a machine they have bounds: a buffer is split
where it has bytes, a slice lies within it, and a length is a word of 64 bits, from which no more
can be taken than it is.  A `Strict` read is made of such operations, and `none` is what it comes
to when one of them is out of its bounds.

A strict read `Follows` a read if on every buffer of less than `2 ^ 63` bytes it comes to the same
result, so that each operation on the way is within its bounds, and if no more bytes are left than
there were.  This goes through from the parts of a read to the whole (`Follows.bind`), and where an
operation is within its bounds only because of what was read before it, the reads before it say so
(`Follows.bind_of`).
-/
import BinaryLog.Proofs.Cursor
import BinaryLog.Proofs.Description

namespace BinaryLog

set_option autoImplicit false

open Wire

/-! ## Operations with bounds -/

/-- A difference of lengths. -/
def sub? (a b : Nat) : Option Nat := if b ≤ a then some (a - b) else none

/-- A sum of lengths. -/
def add? (a b : Nat) : Option Nat := if a + b < 2 ^ 64 then some (a + b) else none

/-- The bytes of a buffer from `start` to `stop`. -/
def Bytes.slice? (bs : Bytes) (start stop : Nat) : Option Bytes :=
  if start ≤ stop ∧ stop ≤ bs.length then some ((bs.take stop).drop start) else none

theorem sub?_of_le {a b : Nat} (le : b ≤ a) : sub? a b = some (a - b) := if_pos le

theorem add?_of_lt {a b : Nat} (lt : a + b < 2 ^ 64) : add? a b = some (a + b) := if_pos lt

theorem Bytes.slice?_of_le {bs : Bytes} {start stop : Nat} (ordered : start ≤ stop)
    (inside : stop ≤ bs.length) : bs.slice? start stop = some ((bs.take stop).drop start) :=
  if_pos ⟨ordered, inside⟩

/-- The bytes of a buffer from `start` on. -/
theorem Bytes.slice?_from {bs : Bytes} {start : Nat} (inside : start ≤ bs.length) :
    bs.slice? start bs.length = some (bs.drop start) := by
  rw [slice?_of_le inside (Nat.le_refl _), List.take_length]

/-! ## Strict reads -/

/-- A read of which none of the operations may be out of its bounds. -/
def Strict (ε α : Type) : Type := Bytes → Option (EStateM.Result ε Bytes α)

namespace Strict

variable {ε ε' α β : Type}

instance : Monad (Strict ε) where
  pure a := fun bs => some (.ok a bs)
  bind r f := fun bs =>
    match r bs with
    | none => none
    | some (.ok a rest) => f a rest
    | some (.error e rest) => some (.error e rest)

/-- An operation with bounds that leaves the buffer alone. -/
instance : MonadLift Option (Strict ε) where
  monadLift x := fun bs => x.map (.ok · bs)

def fail (e : ε) : Strict ε α := fun bs => some (.error e bs)

/-- A read without operations that have bounds. -/
def total (r : EStateM ε Bytes α) : Strict ε α := fun bs => some (r bs)

/-- The buffer, which stays unread. -/
def unread : Strict ε Bytes := fun bs => some (.ok bs bs)

/-- Splits `n` bytes off the buffer. -/
def splitTo (n : Nat) : Strict ε Bytes := fun bs =>
  if n ≤ bs.length then some (.ok (bs.take n) (bs.drop n)) else none

/-- What a strict read of `bs` comes to. -/
def run (s : Strict ε α) (bs : Bytes) : Option (EStateM.Result ε Bytes α) := s bs

/-- What a read of a copy of the buffer comes to; the buffer stays unread. -/
def copied (s : Strict ε α) : Strict ε (EStateM.Result ε Bytes α) := fun bs =>
  (s.run bs).map (.ok · bs)

/-- The value of a strict read of `bs`, whatever it leaves unread. -/
def value (s : Strict ε α) (bs : Bytes) : Option (Except ε α) :=
  (s.run bs).map fun
    | .ok a _ => .ok a
    | .error e _ => .error e

/-- Fails for other reasons. -/
def adapt (f : ε → ε') (s : Strict ε α) : Strict ε' α := fun bs =>
  (s.run bs).map fun
    | .ok a rest => .ok a rest
    | .error e rest => .error (f e) rest

/-! ## Following a read -/

/-- What a read leaves unread. -/
def left : EStateM.Result ε Bytes α → Bytes
  | .ok _ rest => rest
  | .error _ rest => rest

/-- On every buffer the strict read comes to what the read comes to. -/
structure Follows (s : Strict ε α) (r : EStateM ε Bytes α) : Prop where
  same : ∀ {bs : Bytes}, bs.length < 2 ^ 63 → s bs = some (r bs)
  shrinks : ∀ {bs : Bytes}, bs.length < 2 ^ 63 → (left (r bs)).length ≤ bs.length

variable {s : Strict ε α} {r : EStateM ε Bytes α}

theorem follows_pure (a : α) : Follows (pure a : Strict ε α) (pure a) where
  same _ := rfl
  shrinks _ := Nat.le_refl _

theorem follows_total (shrinks : ∀ bs, (left (r bs)).length ≤ bs.length) :
    Follows (total r) r where
  same _ := rfl
  shrinks _ := shrinks _

theorem follows_fail (rule : Violation) :
    Follows (fail (.violation rule) : Strict ReadError α) (Read.fail rule) where
  same _ := rfl
  shrinks _ := Nat.le_refl _

theorem follows_throw (e : ε) : Follows (fail e : Strict ε α) (throw e) where
  same _ := rfl
  shrinks _ := Nat.le_refl _

/-- What comes behind a read has to follow only for what the read gives. -/
theorem Follows.bind_of {f : α → Strict ε β} {g : α → EStateM ε Bytes β} (first : Follows s r)
    (later : ∀ {bs rest : Bytes} {a : α}, bs.length < 2 ^ 63 → r bs = .ok a rest →
      Follows (f a) (g a)) : Follows (s >>= f) (r >>= g) where
  same := by
    intro bs short
    have here := first.same short
    have fewer := first.shrinks short
    cases gives : r bs with
    | ok a rest =>
        rw [gives] at here fewer
        simp only [bind, EStateM.bind, here, gives]
        exact (later short gives).same (Nat.lt_of_le_of_lt fewer short)
    | error e rest =>
        rw [gives] at here
        simp only [bind, EStateM.bind, here, gives]
  shrinks := by
    intro bs short
    have fewer := first.shrinks short
    cases gives : r bs with
    | ok a rest =>
        rw [gives] at fewer
        simp only [bind, EStateM.bind, gives]
        exact Nat.le_trans ((later short gives).shrinks (Nat.lt_of_le_of_lt fewer short)) fewer
    | error e rest =>
        rw [gives] at fewer
        simp only [bind, EStateM.bind, gives]
        exact fewer

theorem Follows.bind {f : α → Strict ε β} {g : α → EStateM ε Bytes β} (first : Follows s r)
    (later : ∀ a, Follows (f a) (g a)) : Follows (s >>= f) (r >>= g) :=
  first.bind_of fun _ _ => later _

theorem Follows.map (follows : Follows s r) (f : α → β) : Follows (f <$> s) (f <$> r) := by
  rw [← bind_pure_comp f r]
  exact follows.bind fun a => follows_pure (f a)

theorem Follows.run_eq (follows : Follows s r) {bs : Bytes} (short : bs.length < 2 ^ 63) :
    s.run bs = some (r bs) := follows.same short

theorem Follows.adapt (follows : Follows s r) (f : ε → ε') :
    Follows (s.adapt f) (r.adaptExcept f) where
  same := by
    intro bs short
    simp only [Strict.adapt, follows.run_eq short, EStateM.adaptExcept, Option.map_some]
    cases r bs <;> rfl
  shrinks := by
    intro bs short
    have fewer := follows.shrinks short
    simp only [EStateM.adaptExcept]
    cases gives : r bs <;> rw [gives] at fewer <;> exact fewer

theorem Follows.value_eq {r : Read α} {s : Strict ReadError α} (follows : Follows s r) {bs : Bytes}
    (short : bs.length < 2 ^ 63) : s.value bs = some (r.value bs) := by
  simp only [Strict.value, follows.run_eq short, Option.map_some, Read.value]
  cases r bs <;> rfl

theorem bind_of_ok {f : α → Strict ε β} {bs rest : Bytes} {a : α}
    (first : s bs = some (.ok a rest)) : (s >>= f) bs = f a rest := by
  simp only [bind, first]

theorem bind_of_error {f : α → Strict ε β} {bs rest : Bytes} {e : ε}
    (first : s bs = some (.error e rest)) : (s >>= f) bs = some (.error e rest) := by
  simp only [bind, first]

theorem map_eq_bind (f : α → β) (s : Strict ε α) : f <$> s = s >>= fun a => pure (f a) := rfl

/-- An operation that is within its bounds has its value and does nothing else. -/
theorem lift_bind {x : Option α} {a : α} (within : x = some a) (f : α → Strict ε β) :
    (liftM x : Strict ε α) >>= f = f a := by
  subst within
  rfl

/-! ## The primitive reads -/

/-- Refuses a buffer of less than `n` bytes. -/
def ensure (n : Nat) : Strict ReadError Unit := fun bs =>
  if bs.length < n then (sub? n bs.length).map fun k => .error (.incomplete bs (some k)) bs
  else some (.ok () bs)

def take (n : Nat) : Strict ReadError Bytes := do
  ensure n
  splitTo n

def word (α : Type) [Word α] : Strict ReadError α := do
  ensure (Word.width α)
  Word.ofBytes <$> splitTo (Word.width α)

def rest : Strict ε Bytes := do splitTo (← unread).length

def untilByte (b : UInt8) (inclusive : Bool) : Strict ReadError Bytes := do
  let bs ← unread
  match bs.findIdx? (· == b) with
  | none => fail (.incomplete bs none)
  | some i =>
    let found ← splitTo (← add? i 1)
    return if inclusive then found else found.take i

def wordOr (α : Type) [Word α] (default : α) : Strict ReadError α := do
  if ← total Read.more then word α else return default

def times (s : Strict ReadError α) : Nat → Strict ReadError (List α)
  | 0 => return []
  | n + 1 => do
    let a ← s
    let as ← times s n
    return a :: as

def allWithin (s : Strict ReadError α) : Nat → Strict ReadError (List α)
  | 0 => return []
  | fuel + 1 => do
    if ← total Read.more then
      let a ← s
      let as ← allWithin s fuel
      return a :: as
    else return []

def all (s : Strict ReadError α) : Strict ReadError (List α) := fun bs => allWithin s bs.length bs

theorem ensure_of_le {bs : Bytes} {n : Nat} (there : n ≤ bs.length) :
    ensure n bs = some (.ok () bs) := if_neg (Nat.not_lt.2 there)

theorem ensure_of_lt {bs : Bytes} {n : Nat} (short : bs.length < n) :
    ensure n bs = some (.error (.incomplete bs (some (n - bs.length))) bs) := by
  simp only [ensure, if_pos short, sub?_of_le (Nat.le_of_lt short), Option.map_some]

theorem splitTo_of_le {bs : Bytes} {n : Nat} (there : n ≤ bs.length) :
    (splitTo n : Strict ε Bytes) bs = some (.ok (bs.take n) (bs.drop n)) := if_pos there

theorem follows_take (n : Nat) : Follows (take n) (Read.take n) where
  same := by
    intro bs _
    rcases Nat.lt_or_ge bs.length n with short | there
    · rw [take, bind_of_error (ensure_of_lt short), Read.take_short short]
    · rw [take, bind_of_ok (ensure_of_le there), splitTo_of_le there, Read.take_of_le there]
  shrinks := by
    intro bs _
    rcases Nat.lt_or_ge bs.length n with short | there
    · rw [Read.take_short short]
      exact Nat.le_refl _
    · rw [Read.take_of_le there]
      simp [left]

theorem word_eq (α : Type) [Word α] : word α = Word.ofBytes <$> take (Word.width α) := by
  funext bs
  rcases Nat.lt_or_ge bs.length (Word.width α) with short | there
  · rw [word, bind_of_error (ensure_of_lt short), map_eq_bind, take,
      bind_of_error (bind_of_error (ensure_of_lt short))]
  · rw [word, bind_of_ok (ensure_of_le there), map_eq_bind, map_eq_bind, take]
    simp only [bind, ensure_of_le there]

theorem word_of_le {α : Type} [Word α] {bs : Bytes} (there : Word.width α ≤ bs.length) :
    word α bs = some (.ok (Word.ofBytes (bs.take (Word.width α))) (bs.drop (Word.width α))) := by
  rw [word, bind_of_ok (ensure_of_le there), map_eq_bind, bind_of_ok (splitTo_of_le there)]
  rfl

theorem follows_word (α : Type) [Word α] : Follows (word α) (Read.word α) :=
  word_eq α ▸ (follows_take _).map _

theorem follows_rest : Follows rest Read.rest where
  same _ := by
    simp [rest, bind, unread, splitTo, Read.rest]
  shrinks _ := Nat.zero_le _

/-- The byte is looked for, and one more than lies in front of it is split off. -/
theorem follows_untilByte (b : UInt8) (inclusive : Bool) :
    Follows (untilByte b inclusive) (Read.untilByte b inclusive) where
  same := by
    intro bs short
    unfold untilByte Read.untilByte
    rw [bind_of_ok (s := unread) rfl]
    cases found : bs.findIdx? (· == b) with
    | none =>
        have absent : bs.dropWhile (· != b) = [] := by
          rw [List.findIdx?_eq_none_iff] at found
          exact List.dropWhile_eq_nil_iff.2 fun x member => by simp [bne, found x member]
        simp only [absent]
        rfl
    | some i =>
        obtain ⟨inside, first⟩ := List.findIdx?_eq_some_iff_findIdx_eq.1 found
        have negated : (fun x : UInt8 => !(x != b)) = (· == b) := by
          funext x
          simp [bne]
        have behind : bs.dropWhile (· != b) = bs[i] :: bs.drop (i + 1) := by
          rw [List.dropWhile_eq_drop_findIdx_not, negated, first, List.drop_eq_getElem_cons inside]
        have front : bs.takeWhile (· != b) = bs.take i := by
          rw [List.takeWhile_eq_take_findIdx_not, negated, first]
        simp only [behind, front]
        rw [lift_bind (add?_of_lt (by omega)), bind_of_ok (splitTo_of_le inside),
          List.take_append_getElem inside, List.take_take, Nat.min_eq_left (Nat.le_succ i)]
        rfl
  shrinks := by
    intro bs _
    simp only [Read.untilByte]
    split
    · exact Nat.le_refl _
    · rename_i last after behind
      have tail := (behind ▸ List.dropWhile_suffix (l := bs) (· != b)).length_le
      exact Nat.le_trans (Nat.le_succ _) tail

theorem follows_more : Follows (total Read.more) Read.more :=
  follows_total fun _ => Nat.le_refl _

theorem follows_text (bs : Bytes) : Follows (total (Read.text bs)) (Read.text bs) :=
  follows_total fun rest => by
    simp only [Read.text]
    cases Text.Utf8.decode bs <;> exact Nat.le_refl _

theorem follows_wordOr (α : Type) [Word α] (default : α) :
    Follows (wordOr α default) (Read.wordOr α default) := by
  refine follows_more.bind fun more => ?_
  cases more with
  | true => exact follows_word α
  | false => exact follows_pure default

section Rows

variable {s : Strict ReadError α} {r : Read α}

theorem Follows.times (follows : Follows s r) (n : Nat) : Follows (s.times n) (r.times n) := by
  induction n with
  | zero => exact follows_pure []
  | succ n ih => exact follows.bind fun a => ih.bind fun as => follows_pure (a :: as)

theorem Follows.allWithin (follows : Follows s r) (fuel : Nat) :
    Follows (s.allWithin fuel) (r.allWithin fuel) := by
  induction fuel with
  | zero => exact follows_pure []
  | succ fuel ih =>
      refine follows_more.bind fun more => ?_
      cases more with
      | true => exact follows.bind fun a => ih.bind fun as => follows_pure (a :: as)
      | false => exact follows_pure []

theorem Follows.all (follows : Follows s r) : Follows s.all r.all where
  same short := (follows.allWithin _).same short
  shrinks short := (follows.allWithin _).shrinks short

end Rows

/-! ## Packed integers -/

/-- How many bytes a packed integer has that starts with this one. -/
def integerWidth (lead : UInt8) : Nat :=
  if lead = 0xfc then 3 else if lead = 0xfd then 4 else if lead = 0xfe then 9 else 1

/-- Nothing is taken before all of it is known to be there. -/
def integer : Strict ReadError PackedInt := do
  ensure 1
  let lead ← (← unread)[0]?
  ensure (integerWidth lead)
  let lead ← word UInt8
  if lead = 0xfc then .two <$> word UInt16
  else if lead = 0xfd then .three <$> word (BitVec 24)
  else if lead = 0xfe then .eight <$> word UInt64
  else return if lead = 0xfb then .null else if lead = 0xff then .error else .one lead

def packed64 : Strict ReadError UInt64 := do
  match ← integer with
  | .null => fail (.violation .nullInteger)
  | .error => fail (.violation .errorInteger)
  | .one n => return n.toUInt64
  | .two n => return n.toUInt64
  | .three n => return .ofNat n.toNat
  | .eight n => return n

def packed32 : Strict ReadError UInt32 := do
  let n ← packed64
  if n < 0x100000000 then return n.toUInt32 else fail (.violation (.integerTooWide n))

theorem word_octet (b : UInt8) (bs : Bytes) : word UInt8 (b :: bs) = some (.ok b bs) := by
  rw [word_of_le (Nat.le_add_left 1 bs.length)]
  show some (EStateM.Result.ok (Word.ofBytes [b]) bs) = _
  rw [← Word.bytes_octet, Word.ofBytes_bytes]

/-- What lies behind a marker is read when all of it is known to be there. -/
theorem marked_eq {α : Type} [Word α] {f : α → PackedInt}
    {behind : UInt8 → Strict ReadError PackedInt} {b : UInt8} (reads : behind b = f <$> word α)
    (bs : Bytes) :
    (ensure (1 + Word.width α) >>= fun _ => word UInt8 >>= behind) (b :: bs) =
      some ((f <$> PackedInt.marked α) (b :: bs)) := by
  rcases Nat.lt_or_ge (b :: bs).length (1 + Word.width α) with short | there
  · rw [bind_of_error (ensure_of_lt short), Read.map_eq_bind, PackedInt.marked, Read.map_eq_bind,
      Read.bind_of_error (Read.bind_of_error (Read.take_short short))]
  · have inside : Word.width α ≤ bs.length := by
      rw [List.length_cons] at there
      omega
    have marked : PackedInt.marked α (b :: bs) =
        .ok (Word.ofBytes (bs.take (Word.width α))) (bs.drop (Word.width α)) := by
      rw [PackedInt.marked, Read.map_eq_bind, Read.bind_of_ok (Read.take_of_le there), Nat.add_comm]
      rfl
    rw [bind_of_ok (ensure_of_le there), bind_of_ok (word_octet b bs), reads, map_eq_bind,
      bind_of_ok (word_of_le inside), Read.map_eq_bind, Read.bind_of_ok marked]
    rfl

theorem follows_integer : Follows integer PackedInt.read where
  same := by
    intro bs _
    cases bs with
    | nil => rfl
    | cons b bs =>
        unfold integer PackedInt.read
        rw [bind_of_ok (ensure_of_le (Nat.le_add_left 1 bs.length)), bind_of_ok (s := unread) rfl,
          lift_bind (x := (b :: bs)[0]?) rfl, Read.bind_of_ok (r := Read.peek) rfl]
        by_cases h16 : b = 0xfc
        · subst h16
          exact marked_eq (f := .two) rfl bs
        by_cases h24 : b = 0xfd
        · subst h24
          exact marked_eq (f := .three) rfl bs
        by_cases h64 : b = 0xfe
        · subst h64
          exact marked_eq (f := .eight) rfl bs
        have width : integerWidth b = 1 := by
          simp only [integerWidth, if_neg h16, if_neg h24, if_neg h64]
        rw [width, bind_of_ok (ensure_of_le (Nat.le_add_left 1 bs.length)),
          bind_of_ok (word_octet b bs)]
        simp only [if_neg h16, if_neg h24, if_neg h64]
        rfl
  shrinks := by
    intro bs _
    cases reads : PackedInt.read bs with
    | ok v rest => exact (Read.steady_integer.suffix reads).length_le
    | error e rest =>
        exact Nat.le_of_eq (congrArg List.length (Read.steady_integer.untouched reads))

theorem follows_packed64 : Follows packed64 Read.packed64 := by
  refine follows_integer.bind fun v => ?_
  cases v with
  | null => exact follows_fail _
  | error => exact follows_fail _
  | one n => exact follows_pure _
  | two n => exact follows_pure _
  | three n => exact follows_pure _
  | eight n => exact follows_pure _

theorem follows_packed32 : Follows packed32 Read.packed32 := by
  refine follows_packed64.bind fun n => ?_
  by_cases small : n < 0x100000000
  · simp only [if_pos small]
    exact follows_pure _
  · simp only [if_neg small]
    exact follows_fail _

end Strict

end BinaryLog
