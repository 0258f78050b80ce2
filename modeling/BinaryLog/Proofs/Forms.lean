/-
# BinaryLog.Proofs.Forms -- the forms of a packed integer

A number can be packed in more than one way: into a single byte, if it is no marker, or behind a
marker in two, three or eight bytes, if these can hold it (`Packs`).  What stands at the head of a
byte string is one of three things (`packed_cases`):

* a number that is small enough, in one of its forms;
* what is no number that is wanted: one of the two markers without a value, or a number that is too
  large (`Refused`);
* less bytes than the first one announces (`CutOff`).

The two readers of packed integers tell these apart, and do nothing else (`Read.Unpacks`).
-/
import BinaryLog.Proofs.Cursor
import BinaryLog.Proofs.Packed

namespace BinaryLog.Wire

set_option autoImplicit false

/-- A map fails where what it maps does. -/
theorem Read.of_map_error {α β : Type} {f : α → β} {r : Read α} {bs rest : Bytes}
    {e : ReadError} (reads : (f <$> r) bs = .error e rest) : r bs = .error e rest := by
  rw [map_eq_bind] at reads
  rcases of_bind_error reads with here | ⟨a, mid, -, behind⟩
  · exact here
  · cases behind

namespace PackedInt

/-! ## The head of a byte string -/

/-- The bytes of a packed integer that stands for `n`. -/
inductive Packs (n : Nat) : Bytes → Prop
  | one (small : n < 0xfb) : Packs n [UInt8.ofNat n]
  | two (small : n < 2 ^ 16) : Packs n (0xfc :: Bytes.le 2 n)
  | three (small : n < 2 ^ 24) : Packs n (0xfd :: Bytes.le 3 n)
  | eight (small : n < 2 ^ 64) : Packs n (0xfe :: Bytes.le 8 n)

/-- How many bytes the packed integer at the head has, as far as its first byte tells. -/
def wanted : Bytes → Nat
  | [] => 1
  | lead :: _ => if lead = 0xfc then 3 else if lead = 0xfd then 4 else if lead = 0xfe then 9 else 1

/-- The bytes end within a packed integer, or in front of one. -/
def CutOff (bs : Bytes) : Prop := bs.length < wanted bs

instance : DecidablePred CutOff := fun bs => inferInstanceAs (Decidable (bs.length < wanted bs))

/-- At the head stands no number below `limit`, for this reason; what is behind it. -/
inductive Refused (limit : Nat) : Bytes → Violation → Bytes → Prop
  | null (rest : Bytes) : Refused limit (0xfb :: rest) .nullInteger rest
  | error (rest : Bytes) : Refused limit (0xff :: rest) .errorInteger rest
  | tooWide {n : Nat} {lead : Bytes} (packs : Packs n lead) (wide : limit ≤ n) (rest : Bytes) :
      Refused limit (lead ++ rest) (.integerTooWide (.ofNat n)) rest

variable {n limit : Nat} {lead bs rest : Bytes} {v : PackedInt}

theorem Packs.lt (packs : Packs n lead) : n < 2 ^ 64 := by
  cases packs <;> omega

theorem Packs.length_pos (packs : Packs n lead) : 0 < lead.length := by
  cases packs <;> exact Nat.succ_pos _

theorem Packs.exists_form (packs : Packs n lead) :
    ∃ v : PackedInt, v.Proper ∧ v.encode = lead ∧ v.toUInt64? = some (.ofNat n) := by
  cases packs with
  | one small =>
      have same : (UInt8.ofNat n).toNat = n :=
        UInt8.toNat_ofNat_of_lt' (Nat.lt_trans small (by decide))
      refine ⟨.one (.ofNat n), show (UInt8.ofNat n).toNat < 0xfb by rwa [same], rfl, ?_⟩
      rw [toUInt64?, ← UInt64.ofNat_uInt8ToNat, same]
  | two small =>
      have same : (UInt16.ofNat n).toNat = n := UInt16.toNat_ofNat_of_lt' small
      refine ⟨.two (.ofNat n), trivial, ?_, ?_⟩
      · rw [encode, Word.bytes]
        show 0xfc :: Bytes.le 2 (UInt16.ofNat n).toNat = _
        rw [same]
      · rw [toUInt64?, ← UInt64.ofNat_uInt16ToNat, same]
  | three small =>
      have same : (BitVec.ofNat 24 n).toNat = n := by
        rw [BitVec.toNat_ofNat, Nat.mod_eq_of_lt small]
      refine ⟨.three (.ofNat 24 n), trivial, ?_, ?_⟩
      · rw [encode, Word.bytes]
        show 0xfd :: Bytes.le 3 (BitVec.ofNat 24 n).toNat = _
        rw [same]
      · rw [toUInt64?, same]
  | eight small =>
      have same : (UInt64.ofNat n).toNat = n := UInt64.toNat_ofNat_of_lt' small
      refine ⟨.eight (.ofNat n), trivial, ?_, rfl⟩
      rw [encode, Word.bytes]
      show 0xfe :: Bytes.le 8 (UInt64.ofNat n).toNat = _
      rw [same]

theorem packs_encode {m : UInt64} (proper : v.Proper) (value : v.toUInt64? = some m) :
    Packs m.toNat v.encode := by
  cases v with
  | null => cases value
  | error => cases value
  | one n =>
      cases value
      have packs := Packs.one (n := n.toNat) proper
      rwa [UInt8.ofNat_toNat] at packs
  | two n =>
      cases value
      exact .two (UInt16.toNat_lt n)
  | three n =>
      cases value
      have same : (UInt64.ofNat n.toNat).toNat = n.toNat :=
        UInt64.toNat_ofNat_of_lt' (Nat.lt_trans n.isLt (by decide))
      rw [same]
      exact .three n.isLt
  | eight n =>
      obtain rfl : n = m := Option.some.inj value
      exact .eight n.toNat_lt

theorem packs_ofUInt64 (n : UInt64) : Packs n.toNat (ofUInt64 n).encode :=
  packs_encode (proper_ofUInt64 n) (toUInt64?_ofUInt64 n)

theorem packs_ofNat (small : n < 2 ^ 64) : Packs n (PackedInt.ofNat n).encode := by
  have packs := packs_ofUInt64 (.ofNat n)
  rwa [UInt64.toNat_ofNat_of_lt' small] at packs

/-! ## Reading it -/

theorem read_of_cutOff (cut : CutOff bs) :
    read bs = .error (.incomplete bs (some (wanted bs - bs.length))) bs := by
  cases bs with
  | nil => rfl
  | cons lead bs =>
      have cuts {α : Type} [Word α] (form : α → PackedInt)
          (short : (lead :: bs).length < 1 + Word.width α) :
          (form <$> marked α) (lead :: bs) =
            .error (.incomplete (lead :: bs) (some (1 + Word.width α - (lead :: bs).length)))
              (lead :: bs) := by
        simp only [PackedInt.marked, Functor.map, EStateM.map, Read.take_short short]
      by_cases lead₂ : lead = 0xfc
      · subst lead₂
        exact cuts two cut
      by_cases lead₃ : lead = 0xfd
      · subst lead₃
        exact cuts three cut
      by_cases lead₈ : lead = 0xfe
      · subst lead₈
        exact cuts eight cut
      · simp only [CutOff, wanted, lead₂, lead₃, lead₈, if_false, List.length_cons] at cut
        omega

/-- A single byte was read as a number only if it is no marker. -/
theorem proper_of_read (reads : read bs = .ok v rest) : v.Proper := by
  cases v with
  | one n =>
      obtain rfl : n :: rest = bs := encode_of_read reads
      by_contra large
      have markers : n = 0xfb ∨ n = 0xfc ∨ n = 0xfd ∨ n = 0xfe ∨ n = 0xff := by
        have below := n.toNat_lt
        have above : 0xfb ≤ n.toNat := Nat.not_lt.1 large
        simp only [← UInt8.toNat_inj]
        simp
        omega
      rcases markers with rfl | rfl | rfl | rfl | rfl
      · cases reads
      · obtain ⟨_, -, other⟩ := Read.of_map (f := two) reads
        cases other
      · obtain ⟨_, -, other⟩ := Read.of_map (f := three) reads
        cases other
      · obtain ⟨_, -, other⟩ := Read.of_map (f := eight) reads
        cases other
      · cases reads
  | _ => trivial

theorem cutOff_of_read_error {e : ReadError} (reads : read bs = .error e rest) : CutOff bs := by
  rcases Read.of_bind_error reads with here | ⟨lead, mid, here, behind⟩
  · cases bs with
    | nil => exact Nat.one_pos
    | cons b bs => cases here
  · cases bs with
    | nil => cases here
    | cons b bs =>
        cases here
        simp only [CutOff, wanted]
        split at behind
        · rename_i two
          rw [if_pos two]
          exact (Read.of_take_error (Read.of_map_error (Read.of_map_error behind))).1
        rename_i two
        rw [if_neg two]
        split at behind
        · rename_i three
          rw [if_pos three]
          exact (Read.of_take_error (Read.of_map_error (Read.of_map_error behind))).1
        rename_i three
        rw [if_neg three]
        split at behind
        · rename_i eight
          rw [if_pos eight]
          exact (Read.of_take_error (Read.of_map_error (Read.of_map_error behind))).1
        · rename_i eight
          rw [if_neg eight]
          rw [← Read.map_eq_bind] at behind
          exact (Read.of_take_error (Read.of_map_error behind)).1

/-- What stands at the head of a byte string. -/
theorem packed_cases (limit : Nat) (bs : Bytes) :
    CutOff bs ∨ (∃ rule rest, Refused limit bs rule rest) ∨
      ∃ n lead rest, Packs n lead ∧ n < limit ∧ bs = lead ++ rest := by
  cases reads : read bs with
  | error e rest => exact .inl (cutOff_of_read_error reads)
  | ok v rest =>
      have whole := encode_of_read reads
      cases value : v.toUInt64? with
      | none =>
          subst whole
          cases v with
          | null => exact .inr (.inl ⟨_, rest, .null rest⟩)
          | error => exact .inr (.inl ⟨_, rest, .error rest⟩)
          | _ n => cases value
      | some m =>
          subst whole
          have packs := packs_encode (proper_of_read reads) value
          rcases Nat.lt_or_ge m.toNat limit with small | wide
          · exact .inr (.inr ⟨m.toNat, v.encode, rest, packs, small, rfl⟩)
          · exact .inr (.inl ⟨_, rest, .tooWide packs wide rest⟩)

end PackedInt

open PackedInt

/-! ## The two readers -/

namespace Read

/-- A reader of numbers below `limit` takes them in any form, refuses what is none, and leaves what
is cut off. -/
structure Unpacks {α : Type} (limit : Nat) (ofNat : Nat → α) (r : Read α) : Prop where
  number : ∀ {n : Nat} {lead : Bytes}, Packs n lead → n < limit →
    ∀ rest, r (lead ++ rest) = .ok (ofNat n) rest
  refused : ∀ {bs rest : Bytes} {rule : Violation}, Refused limit bs rule rest →
    r bs = .error (.violation rule) rest
  cutOff : ∀ {bs : Bytes}, CutOff bs →
    r bs = .error (.incomplete bs (some (wanted bs - bs.length))) bs

theorem packed64_of_packs {n : Nat} {lead : Bytes} (packs : Packs n lead) (rest : Bytes) :
    packed64 (lead ++ rest) = .ok (.ofNat n) rest := by
  obtain ⟨v, proper, rfl, value⟩ := packs.exists_form
  exact packed64_of_read (read_encode proper rest) value

theorem unpacks_packed64 : Unpacks (2 ^ 64) UInt64.ofNat packed64 where
  number packs _ rest := packed64_of_packs packs rest
  refused := by
    intro bs rest rule refused
    cases refused with
    | null => rfl
    | error => rfl
    | tooWide packs wide => exact absurd packs.lt (Nat.not_lt.2 wide)
  cutOff cut := bind_of_error (read_of_cutOff cut)

theorem unpacks_packed32 : Unpacks (2 ^ 32) UInt32.ofNat packed32 where
  number := by
    intro n lead packs small rest
    have wide : (UInt64.ofNat n).toNat = n := UInt64.toNat_ofNat_of_lt' packs.lt
    have fits : UInt64.ofNat n < 0x100000000 := by
      rw [UInt64.lt_iff_toNat_lt, wide]
      exact small
    rw [packed32, bind_of_ok (packed64_of_packs packs rest), if_pos fits]
    simp only [pure, EStateM.pure, UInt64.toUInt32_ofNat']
  refused := by
    intro bs rest rule refused
    cases refused with
    | null => rfl
    | error => rfl
    | @tooWide n lead packs wide =>
        have same : (UInt64.ofNat n).toNat = n := UInt64.toNat_ofNat_of_lt' packs.lt
        have large : ¬ UInt64.ofNat n < 0x100000000 := by
          rw [UInt64.lt_iff_toNat_lt, same]
          exact Nat.not_lt.2 wide
        rw [packed32, bind_of_ok (packed64_of_packs packs rest), if_neg large]
        rfl
  cutOff cut := bind_of_error (unpacks_packed64.cutOff cut)

end Read

end BinaryLog.Wire
