/-
# BinaryLog.Proofs.Cursor -- what a read does to the cursor, and what more input changes

A read is `Onward` if it takes its value off the head and looks no further: with more input behind,
it gives the same value and leaves so much more.  Where it fails, bytes are missing, at the tail of
what is there, and fewer bytes than it says it needs do not help.  This goes through from the parts
of a read to the whole (`Onward.bind`).

An onward read is `Steady` if it also leaves the cursor where it was when it fails.  That does not
go through, since the parts that were read stay read, unless nothing was taken before the part that
fails (`Steady.peek_bind`) or what was taken is put back (`Onward.atomically`).  A read is `Exact`
if as many bytes as it needs are enough; a packed integer is not, since its first byte does not say
how many bytes there are before it is there.

A packed integer that must have a value, or a value that is not too large, is refused after it was
read, so that the cursor stands behind it (`Refuses`).
-/
import BinaryLog.Proofs.Reads
import Mathlib.Data.List.TakeWhile

namespace BinaryLog.Wire.Read

set_option autoImplicit false

variable {α β : Type}

/-! ## Properties of a read -/

structure Onward (r : Read α) : Prop where
  suffix : ∀ {bs rest : Bytes} {a : α}, r bs = .ok a rest → rest <:+ bs
  stable : ∀ {bs rest : Bytes} {a : α}, r bs = .ok a rest →
    ∀ more, r (bs ++ more) = .ok a (rest ++ more)
  starved : ∀ {bs rest : Bytes} {e : ReadError}, r bs = .error e rest →
    ∃ unread needed, e = .incomplete unread needed
  short : ∀ {bs rest unread : Bytes} {k : Nat}, r bs = .error (.incomplete unread (some k)) rest →
    unread <:+ bs ∧ 0 < k ∧ ∀ more : Bytes, more.length < k →
      ∃ unread' needed rest', r (bs ++ more) = .error (.incomplete unread' needed) rest'

/-- A failure leaves everything unread. -/
def Untouched (r : Read α) : Prop :=
  ∀ ⦃bs rest : Bytes⦄ ⦃e : ReadError⦄, r bs = .error e rest → rest = bs

structure Steady (r : Read α) : Prop extends Onward r where
  untouched : Untouched r

structure Exact (r : Read α) : Prop extends Steady r where
  enough : ∀ {bs rest unread : Bytes} {k : Nat}, r bs = .error (.incomplete unread (some k)) rest →
    ∀ more : Bytes, more.length = k → ∃ a rest', r (bs ++ more) = .ok a rest'

/-- A failure takes nothing if bytes are missing, and else the packed integer that is at fault. -/
def Refuses (r : Read α) (offends : PackedInt → Prop) : Prop :=
  ∀ ⦃bs rest : Bytes⦄ ⦃e : ReadError⦄, r bs = .error e rest →
    (∃ unread needed, e = .incomplete unread needed ∧ rest = bs) ∨
    (∃ rule v, e = .violation rule ∧ PackedInt.read bs = .ok v rest ∧ v.encode ++ rest = bs ∧
      offends v)

/-! ## From the parts to the whole -/

theorem onward_pure (a : α) : Onward (pure a : Read α) where
  suffix := by
    intro bs rest b reads
    cases reads
    exact List.suffix_refl bs
  stable := by
    intro bs rest b reads more
    cases reads
    rfl
  starved reads := by cases reads
  short reads := by cases reads

/-- A read fails in its first part or in the part behind it. -/
theorem of_bind_error {r : Read α} {f : α → Read β} {bs rest : Bytes} {e : ReadError}
    (reads : (r >>= f) bs = .error e rest) :
    r bs = .error e rest ∨ ∃ a mid, r bs = .ok a mid ∧ f a mid = .error e rest := by
  simp only [bind, EStateM.bind] at reads
  split at reads
  · rename_i a mid first
    exact .inr ⟨a, mid, first, reads⟩
  · rename_i first
    cases reads
    exact .inl first

theorem bind_of_ok {r : Read α} {f : α → Read β} {bs mid : Bytes} {a : α}
    (first : r bs = .ok a mid) : (r >>= f) bs = f a mid := by
  simp only [bind, EStateM.bind, first]

theorem bind_of_error {r : Read α} {f : α → Read β} {bs mid : Bytes} {e : ReadError}
    (first : r bs = .error e mid) : (r >>= f) bs = .error e mid := by
  simp only [bind, EStateM.bind, first]

theorem Onward.bind {r : Read α} {f : α → Read β} (first : Onward r) (later : ∀ a, Onward (f a)) :
    Onward (r >>= f) where
  suffix := by
    intro bs rest b reads
    obtain ⟨a, mid, here, behind⟩ := exists_of_bind_apply reads
    exact ((later a).suffix behind).trans (first.suffix here)
  stable := by
    intro bs rest b reads more
    obtain ⟨a, mid, here, behind⟩ := exists_of_bind_apply reads
    rw [bind_of_ok (first.stable here more), (later a).stable behind more]
  starved := by
    intro bs rest e reads
    rcases of_bind_error reads with here | ⟨a, mid, -, behind⟩
    · exact first.starved here
    · exact (later a).starved behind
  short := by
    intro bs rest unread k reads
    rcases of_bind_error reads with here | ⟨a, mid, here, behind⟩
    · obtain ⟨tail, pos, again⟩ := first.short here
      refine ⟨tail, pos, fun more few => ?_⟩
      obtain ⟨unread', needed, rest', fails⟩ := again more few
      exact ⟨unread', needed, rest', bind_of_error fails⟩
    · obtain ⟨tail, pos, again⟩ := (later a).short behind
      refine ⟨tail.trans (first.suffix here), pos, fun more few => ?_⟩
      rw [bind_of_ok (first.stable here more)]
      exact again more few

theorem map_eq_bind (f : α → β) (r : Read α) : f <$> r = r >>= fun a => pure (f a) :=
  (bind_pure_comp f r).symm

theorem Onward.map {r : Read α} (onward : Onward r) (f : α → β) : Onward (f <$> r) :=
  map_eq_bind f r ▸ onward.bind fun a => onward_pure (f a)

theorem Untouched.map {r : Read α} (untouched : Untouched r) (f : α → β) : Untouched (f <$> r) := by
  intro bs rest e reads
  rw [map_eq_bind] at reads
  rcases of_bind_error reads with here | ⟨a, mid, -, behind⟩
  · exact untouched here
  · cases behind

theorem Steady.map {r : Read α} (steady : Steady r) (f : α → β) : Steady (f <$> r) where
  toOnward := steady.toOnward.map f
  untouched := steady.untouched.map f

theorem Exact.map {r : Read α} (exact : Exact r) (f : α → β) : Exact (f <$> r) where
  toSteady := exact.toSteady.map f
  enough := by
    intro bs rest unread k reads more length
    rw [map_eq_bind] at reads ⊢
    rcases of_bind_error reads with here | ⟨a, mid, -, behind⟩
    · obtain ⟨a, rest', gives⟩ := exact.enough here more length
      exact ⟨f a, rest', bind_of_ok gives⟩
    · cases behind

/-- What was taken is put back when the read fails. -/
theorem Onward.atomically {r : Read α} (onward : Onward r) : Steady (atomically r) := by
  have ok {bs rest : Bytes} {a : α} (reads : Read.atomically r bs = .ok a rest) :
      r bs = .ok a rest := by
    simp only [Read.atomically] at reads
    split at reads <;> cases reads
    assumption
  have error {bs rest : Bytes} {e : ReadError} (reads : Read.atomically r bs = .error e rest) :
      rest = bs ∧ ∃ rest', r bs = .error e rest' := by
    simp only [Read.atomically] at reads
    split at reads <;> cases reads
    exact ⟨rfl, _, by assumption⟩
  refine { suffix := fun reads => onward.suffix (ok reads), stable := ?_, starved := ?_,
           short := ?_, untouched := fun _ _ _ reads => (error reads).1 }
  · intro bs rest a reads more
    simp only [Read.atomically, onward.stable (ok reads) more]
  · intro bs rest e reads
    obtain ⟨-, rest', fails⟩ := error reads
    exact onward.starved fails
  · intro bs rest unread k reads
    obtain ⟨-, rest', fails⟩ := error reads
    obtain ⟨tail, pos, again⟩ := onward.short fails
    refine ⟨tail, pos, fun more few => ?_⟩
    obtain ⟨unread', needed, rest'', fails'⟩ := again more few
    exact ⟨unread', needed, bs ++ more, by simp only [Read.atomically, fails']⟩

/-! ## The primitive reads -/

theorem of_take_error {n : Nat} {bs rest : Bytes} {e : ReadError}
    (reads : take n bs = .error e rest) :
    bs.length < n ∧ e = .incomplete bs (some (n - bs.length)) ∧ rest = bs := by
  rcases Nat.lt_or_ge bs.length n with short | long
  · rw [take_short short] at reads
    cases reads
    exact ⟨short, rfl, rfl⟩
  · have gives := take_append (List.length_take_of_le long) (bs.drop n)
    rw [List.take_append_drop, reads] at gives
    cases gives

theorem exact_take (n : Nat) : Exact (take n) where
  suffix reads := ⟨_, (append_of_take reads).1⟩
  stable := by
    intro bs rest a reads more
    obtain ⟨rfl, length⟩ := append_of_take reads
    rw [List.append_assoc, take_append length]
  starved reads := ⟨_, _, (of_take_error reads).2.1⟩
  short := by
    intro bs rest unread k reads
    obtain ⟨short, same, -⟩ := of_take_error reads
    cases same
    refine ⟨List.suffix_refl bs, Nat.sub_pos_of_lt short, fun more few => ?_⟩
    have less : (bs ++ more).length < n := by
      rw [List.length_append]
      omega
    exact ⟨_, _, _, take_short less⟩
  untouched _ _ _ reads := (of_take_error reads).2.2
  enough := by
    intro bs rest unread k reads more length
    obtain ⟨short, same, -⟩ := of_take_error reads
    cases same
    have all : (bs ++ more).length = n := by
      rw [List.length_append]
      omega
    have gives := take_append all []
    rw [List.append_nil] at gives
    exact ⟨_, _, gives⟩

theorem exact_word (α : Type) [Word α] : Exact (word α) := (exact_take _).map _

theorem exact_signed (α : Type) [Word α] : Exact (signed α) := (exact_word α).map _

theorem steady_untilByte (b : UInt8) (inclusive : Bool) : Steady (untilByte b inclusive) where
  suffix := by
    intro bs rest a reads
    simp only [untilByte] at reads
    split at reads
    · cases reads
    · rename_i last _ behind
      cases reads
      exact (List.suffix_cons last rest).trans (behind ▸ List.dropWhile_suffix _)
  stable := by
    intro bs rest a reads more
    simp only [untilByte] at reads ⊢
    split at reads
    · cases reads
    · rename_i last after behind
      cases reads
      -- the byte is found in front of what was added
      have found : (bs.takeWhile (· != b)).length ≠ bs.length := by
        intro all
        have parts := congrArg List.length
          (List.takeWhile_append_dropWhile (p := (· != b)) (l := bs))
        rw [List.length_append, behind, List.length_cons] at parts
        omega
      rw [List.dropWhile_append, List.takeWhile_append, behind, if_neg found]
      simp only [List.isEmpty_cons, Bool.false_eq_true, if_false, List.cons_append]
  starved := by
    intro bs rest e reads
    simp only [untilByte] at reads
    split at reads <;> cases reads
    exact ⟨bs, none, rfl⟩
  short := by
    intro bs rest unread k reads
    simp only [untilByte] at reads
    split at reads <;> cases reads
  untouched := by
    intro bs rest e reads
    simp only [untilByte] at reads
    split at reads <;> cases reads
    rfl

theorem steady_peek : Steady peek where
  suffix := by
    intro bs rest a reads
    cases bs <;> cases reads
    exact List.suffix_refl _
  stable := by
    intro bs rest a reads more
    cases bs <;> cases reads
    rfl
  starved := by
    intro bs rest e reads
    cases bs <;> cases reads
    exact ⟨[], some 1, rfl⟩
  short := by
    intro bs rest unread k reads
    cases bs <;> cases reads
    refine ⟨List.suffix_refl [], Nat.one_pos, fun more few => ⟨[], some 1, [], ?_⟩⟩
    obtain rfl := List.length_eq_zero_iff.1 (Nat.lt_one_iff.1 few)
    rfl
  untouched := by
    intro bs rest e reads
    cases bs <;> cases reads
    rfl

/-- Where nothing was taken before the part that fails, nothing is taken at all. -/
theorem Steady.peek_bind {f : UInt8 → Read α} (later : ∀ b, Steady (f b)) :
    Steady (peek >>= f) where
  toOnward := steady_peek.toOnward.bind fun b => (later b).toOnward
  untouched := by
    intro bs rest e reads
    rcases of_bind_error reads with here | ⟨b, mid, here, behind⟩
    · exact steady_peek.untouched here
    · cases bs with
      | nil => cases here
      | cons b bs =>
          cases here
          exact (later b).untouched behind

/-! ## Packed integers and strings -/

theorem steady_marked (α : Type) [Word α] : Steady (PackedInt.marked α) :=
  (exact_take _).toSteady.map _

theorem steady_integer : Steady PackedInt.read := by
  refine Steady.peek_bind fun lead => ?_
  split
  · exact (steady_marked UInt16).map _
  · split
    · exact (steady_marked (BitVec 24)).map _
    · split
      · exact (steady_marked UInt64).map _
      · exact map_eq_bind _ (take 1) ▸ (exact_take 1).toSteady.map _

theorem steady_string : Steady PackedString.read := by
  refine (steady_integer.toOnward.bind fun v => ?_).atomically
  cases v with
  | null => exact onward_pure _
  | error => exact onward_pure _
  | _ n => exact (exact_take _).toOnward.map _

theorem of_packed64_error {bs rest : Bytes} {e : ReadError} (reads : packed64 bs = .error e rest) :
    PackedInt.read bs = .error e rest ∨
      ∃ rule v, e = .violation rule ∧ PackedInt.read bs = .ok v rest ∧ v.toUInt64? = none := by
  rcases of_bind_error reads with here | ⟨v, mid, here, behind⟩
  · exact .inl here
  · cases v <;> cases behind
    · exact .inr ⟨.nullInteger, .null, rfl, here, rfl⟩
    · exact .inr ⟨.errorInteger, .error, rfl, here, rfl⟩

theorem exists_of_packed64 {bs rest : Bytes} {n : UInt64} (reads : packed64 bs = .ok n rest) :
    ∃ v, PackedInt.read bs = .ok v rest ∧ v.toUInt64? = some n := by
  obtain ⟨v, mid, here, behind⟩ := exists_of_bind_apply reads
  cases v <;> cases behind
  all_goals exact ⟨_, here, rfl⟩

theorem refuses_packed64 : packed64.Refuses (·.toUInt64? = none) := by
  intro bs rest e reads
  rcases of_packed64_error reads with here | ⟨rule, v, same, here, offends⟩
  · obtain ⟨unread, needed, same⟩ := steady_integer.starved here
    exact .inl ⟨unread, needed, same, steady_integer.untouched here⟩
  · exact .inr ⟨rule, v, same, here, PackedInt.encode_of_read here, offends⟩

theorem refuses_packed32 :
    packed32.Refuses fun v => ∀ n, v.toUInt64? = some n → 2 ^ 32 ≤ n.toNat := by
  intro bs rest e reads
  rcases of_bind_error reads with here | ⟨n, mid, here, behind⟩
  · refine (refuses_packed64 here).imp_right ?_
    rintro ⟨rule, v, same, there, whole, offends⟩
    refine ⟨rule, v, same, there, whole, fun n value => ?_⟩
    rw [offends] at value
    cases value
  · obtain ⟨v, there, value⟩ := exists_of_packed64 here
    split at behind
    · cases behind
    · rename_i wide
      cases behind
      refine .inr ⟨_, v, rfl, there, PackedInt.encode_of_read there, fun m value' => ?_⟩
      rw [value, Option.some.injEq] at value'
      exact value' ▸ Nat.le_of_not_lt wide

/-- **A read that fails does no harm, and one that succeeds stays as it is.**  Integers of a fixed
width, signed or not, and byte strings of a given length take nothing unless they are there as a
whole, and then more input changes nothing but what is left; the bytes that are said to be missing
are just enough.  Strings up to a byte, packed integers and packed strings take nothing either when
they fail, and need no fewer bytes than they say.  A packed integer that has no value, or one that
is too large, is taken when it is refused, and nothing else is. -/
theorem steady_reads :
    (∀ (α : Type) [Word α], Exact (word α) ∧ Exact (signed α)) ∧ (∀ n, Exact (take n)) ∧
      (∀ b inclusive, Steady (untilByte b inclusive)) ∧
      Steady PackedInt.read ∧ Steady PackedString.read ∧
      packed64.Refuses (·.toUInt64? = none) ∧
      packed32.Refuses (fun v => ∀ n, v.toUInt64? = some n → 2 ^ 32 ≤ n.toNat) :=
  ⟨fun α _ => ⟨exact_word α, exact_signed α⟩, exact_take, steady_untilByte, steady_integer,
    steady_string, refuses_packed64, refuses_packed32⟩

end BinaryLog.Wire.Read
