/-
# BinaryLog.Proofs.Checksum -- no single byte changes unseen

A remainder moves on by one bit in a way that can be undone: the bit that is shifted out is the
highest one afterwards, since the polynomial has it (`Crc32.shift_injective`).  So two remainders
that differ stay different whatever bytes are taken up (`Crc32.foldl_step_injective`), and two bytes
that differ make them differ (`Crc32.step_right_injective`).  Hence a byte string with one byte
changed has another checksum, however long it is (`Crc32.checksum_set_ne`).

Where a checksum is verified, it is that of the bytes in front of it (`checksum_of_verified`).  So
one changed byte, of the checksum or in front of it, is found (`verifyChecksum_set`).
-/
import BinaryLog.Stream
import Mathlib.Logic.Function.Basic

namespace BinaryLog

set_option autoImplicit false

/-! ## Remainders -/

namespace Crc32

theorem and_one_iff (r : UInt32) : r &&& 1 = 1 ↔ r.toNat % 2 = 1 := by
  rw [← UInt32.toNat_inj, UInt32.toNat_and]
  show r.toNat &&& 1 = 1 ↔ _
  rw [Nat.and_one_is_mod]

theorem toNat_half (r : UInt32) : (r >>> 1).toNat = r.toNat / 2 := by
  rw [UInt32.toNat_shiftRight]
  exact Nat.shiftRight_eq_div_pow r.toNat 1

/-- The polynomial has the highest bit, and no half has. -/
theorem half_xor_ne (r r' : UInt32) : (r >>> 1) ^^^ polynomial ≠ r' >>> 1 := by
  intro same
  have halves : polynomial.toNat = (r >>> 1).toNat ^^^ (r' >>> 1).toNat := by
    rw [← same, UInt32.toNat_xor, ← Nat.xor_assoc, Nat.xor_self, Nat.zero_xor]
  have small : ∀ x : UInt32, (x >>> 1).toNat < 2 ^ 31 := by
    intro x
    have bound := x.toNat_lt
    rw [toNat_half]
    omega
  have below := Nat.xor_lt_two_pow (small r) (small r')
  rw [← halves] at below
  exact absurd below (by decide)

theorem shift_injective : Function.Injective shift := by
  intro r r' same
  -- the halves agree, and so do the bits that are shifted out
  obtain ⟨half, last⟩ : r >>> 1 = r' >>> 1 ∧ (r.toNat % 2 = 1 ↔ r'.toNat % 2 = 1) := by
    simp only [shift, and_one_iff] at same
    by_cases odd : r.toNat % 2 = 1 <;> by_cases odd' : r'.toNat % 2 = 1 <;>
      simp only [odd, odd', if_true, if_false] at same
    · exact ⟨(UInt32.xor_left_inj polynomial).1 same, iff_of_true odd odd'⟩
    · exact absurd same (half_xor_ne r r')
    · exact absurd same.symm (half_xor_ne r' r)
    · exact ⟨same, iff_of_false odd odd'⟩
  have quotient := congrArg UInt32.toNat half
  rw [toNat_half, toNat_half] at quotient
  apply UInt32.toNat_inj.1
  omega

theorem shifts_injective (n : Nat) : Function.Injective (shifts n) := by
  induction n with
  | zero => exact Function.injective_id
  | succ n ih => exact ih.comp shift_injective

theorem step_left_injective (b : UInt8) : Function.Injective (step · b) := by
  intro r r' same
  exact (UInt32.xor_left_inj b.toUInt32).1 (shifts_injective 8 same)

theorem step_right_injective (r : UInt32) : Function.Injective (step r) := by
  intro b b' same
  have wide := congrArg UInt32.toNat ((UInt32.xor_right_inj r).1 (shifts_injective 8 same))
  exact UInt8.toNat_inj.1 (by simpa using wide)

theorem foldl_step_injective (bs : Bytes) : Function.Injective (bs.foldl step) := by
  induction bs with
  | nil => exact Function.injective_id
  | cons b bs ih => exact ih.comp (step_left_injective b)

/-- One changed byte changes the checksum, whatever stands in front of it and behind it. -/
theorem checksum_set_ne {bs : Bytes} {i : Nat} {b : UInt8} (inside : i < bs.length)
    (other : bs[i] ≠ b) : checksum (bs.set i b) ≠ checksum bs := by
  intro same
  have parts : bs.take i ++ bs[i] :: bs.drop (i + 1) = bs := by simp
  have changed : bs.set i b = bs.take i ++ b :: bs.drop (i + 1) := by
    rw [List.set_eq_take_append_cons_drop, if_pos inside]
  have remainders : (bs.set i b).foldl step 0xFFFFFFFF =
      (bs.take i ++ bs[i] :: bs.drop (i + 1)).foldl step 0xFFFFFFFF := by
    rw [parts]
    exact UInt32.not_inj.1 same
  rw [changed, List.foldl_append, List.foldl_append, List.foldl_cons, List.foldl_cons]
    at remainders
  exact other (step_right_injective _ (foldl_step_injective _ remainders)).symm

end Crc32

/-! ## Bytes that are changed -/

namespace Bytes

variable {bs : Bytes} {i n k : Nat} {b : UInt8}

/-- A change outside a slice leaves it as it is. -/
theorem slice_set_outside (outside : i < n ∨ n + k ≤ i) :
    ((bs.set i b).drop n).take k = (bs.drop n).take k := by
  rw [List.drop_set]
  split
  · rfl
  · rw [List.take_set, List.set_eq_of_length_le]
    rw [List.length_take]
    omega

theorem slice_set_inside (reaches : n ≤ i) :
    ((bs.set i b).drop n).take k = ((bs.drop n).take k).set (i - n) b := by
  rw [List.drop_set, if_neg (Nat.not_lt_of_le reaches), List.take_set]

/-- A change makes another byte string of it. -/
theorem set_ne (inside : i < bs.length) (other : bs[i] ≠ b) : bs.set i b ≠ bs := by
  intro same
  have there := List.getElem_set_self (l := bs) (i := i) (a := b) (by simpa using inside)
  simp only [same] at there
  exact other there

end Bytes

theorem Word.ofBytes_inj {α : Type} [Word α] {bs bs' : Bytes} (width : bs.length = Word.width α)
    (width' : bs'.length = Word.width α) (same : (Word.ofBytes bs : α) = Word.ofBytes bs') :
    bs = bs' := by
  rw [← Word.bytes_ofBytes width, same, Word.bytes_ofBytes width']

/-! ## Verified checksums -/

section Verified

variable {o : Options} {raw : Bytes} {crc32 : UInt32}

theorem verifyChecksum_eq (verified : verifyChecksum o raw = .ok crc32) :
    crc32 = Word.ofBytes (raw.drop (raw.length - Crc32.size)) := by
  simp only [verifyChecksum] at verified
  split at verified
  · cases verified
  · cases verified
    rfl

/-- A checksum that is validated is that of the bytes in front of it. -/
theorem checksum_of_verified (validated : o.validate = true)
    (verified : verifyChecksum o raw = .ok crc32) :
    crc32 = Crc32.checksum (raw.take (raw.length - Crc32.size)) := by
  simp only [verifyChecksum, validated, true_and] at verified
  split at verified
  · cases verified
  · rename_i right
    cases verified
    exact Decidable.not_not.1 right

theorem verifyChecksum_mismatch (validated : o.validate = true)
    (wrong : (Word.ofBytes (raw.drop (raw.length - Crc32.size)) : UInt32) ≠
      Crc32.checksum (raw.take (raw.length - Crc32.size))) :
    ∃ expected actual, verifyChecksum o raw = .error (.checksumMismatch expected actual) :=
  ⟨_, _, if_pos ⟨validated, wrong⟩⟩

/-- Of bytes whose checksum is right, none can be changed on its own. -/
theorem verifyChecksum_set {i : Nat} {b : UInt8} (validated : o.validate = true)
    (verified : verifyChecksum o raw = .ok crc32) (long : Crc32.size ≤ raw.length)
    (inside : i < raw.length) (other : raw[i] ≠ b) :
    ∃ expected actual,
      verifyChecksum o (raw.set i b) = .error (.checksumMismatch expected actual) := by
  have right := (verifyChecksum_eq verified).symm.trans (checksum_of_verified validated verified)
  apply verifyChecksum_mismatch validated
  rw [List.length_set, List.drop_set, List.take_set]
  split
  · -- in front of the checksum: it stays as it was, and the one computed does not
    rename_i front
    have there : i < (raw.take (raw.length - Crc32.size)).length := by
      rw [List.length_take]
      omega
    rw [right]
    exact (Crc32.checksum_set_ne there (by rwa [List.getElem_take])).symm
  · -- in the checksum, which is another one then
    rename_i behind
    have width : (raw.drop (raw.length - Crc32.size)).length = Word.width UInt32 := by
      rw [List.length_drop]
      exact Nat.sub_sub_self long
    have beyond : (raw.take (raw.length - Crc32.size)).length ≤ i := by
      rw [List.length_take]
      omega
    rw [List.set_eq_of_length_le beyond, ← right]
    intro same
    have back := Word.ofBytes_inj (by rwa [List.length_set]) width same
    refine Bytes.set_ne ?_ ?_ back
    · rw [List.length_drop]
      omega
    · rw [List.getElem_drop]
      simpa only [Nat.add_sub_cancel' (Nat.le_of_not_lt behind)] using other

end Verified

end BinaryLog
