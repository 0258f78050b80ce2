/-
# BinaryLog.Proofs.Packed -- what is written is read back: integers, and fields of payload headers

A packed integer in front of anything is read back and leaves what is behind it
(`PackedInt.read_encode`), if it is `Proper`: a single byte must not be one of the markers.  The
shortest form of a number always is, so that numbers come back too (`Read.packed64_encode`,
`Read.packed32_encode`), and with them the header of a transaction payload
(`PayloadHeader.read_encode`).
-/
import BinaryLog.Payload.Header

namespace BinaryLog

set_option autoImplicit false

open Wire

/-! ## Packed integers -/

namespace Wire.PackedInt

/-- A single byte stands for itself if it is no marker. -/
def Proper : PackedInt → Prop
  | one n => n < 0xfb
  | _ => True

theorem marked_append {α : Type} [Word α] (b : UInt8) (x : α) (r : Bytes) :
    marked α (b :: (Word.bytes x ++ r)) = .ok x r := by
  have len : (b :: Word.bytes x).length = 1 + Word.width α := by simp [Nat.add_comm]
  have taken := Read.take_append len r
  simp only [List.cons_append] at taken
  simp [marked, Functor.map, EStateM.map, taken]

theorem read_encode {v : PackedInt} (proper : v.Proper) (r : Bytes) :
    read (v.encode ++ r) = .ok v r := by
  cases v with
  | null => rfl
  | error => rfl
  | one n =>
      have small : n.toNat < 0xfb := proper
      have differs : ∀ m : UInt8, 0xfb ≤ m.toNat → n ≠ m := by
        rintro m large rfl
        omega
      simp [read, Read.peek, encode, bind, EStateM.bind, pure, EStateM.pure, Read.take,
        differs 0xfb (by decide), differs 0xfc (by decide), differs 0xfd (by decide),
        differs 0xfe (by decide), differs 0xff (by decide)]
  | two n =>
      simp [read, Read.peek, encode, bind, EStateM.bind, Functor.map, EStateM.map, marked_append]
  | three n =>
      simp [read, Read.peek, encode, bind, EStateM.bind, Functor.map, EStateM.map, marked_append]
  | eight n =>
      simp [read, Read.peek, encode, bind, EStateM.bind, Functor.map, EStateM.map, marked_append]

/-- The four forms of a number, by its size. -/
theorem ofUInt64_cases (n : UInt64) :
    (n.toNat < 0xfb ∧ ofUInt64 n = one n.toUInt8) ∨
      (n.toNat < 2 ^ 16 ∧ ofUInt64 n = two n.toUInt16) ∨
      (n.toNat < 2 ^ 24 ∧ ofUInt64 n = three (.ofNat 24 n.toNat)) ∨ ofUInt64 n = eight n := by
  simp only [ofUInt64]
  split
  · rename_i small
    exact .inl ⟨small, rfl⟩
  · split
    · rename_i small
      exact .inr (.inl ⟨Nat.lt_succ_of_le small, rfl⟩)
    · split
      · rename_i small
        exact .inr (.inr (.inl ⟨Nat.lt_succ_of_le small, rfl⟩))
      · exact .inr (.inr (.inr rfl))

theorem proper_ofUInt64 (n : UInt64) : (ofUInt64 n).Proper := by
  rcases ofUInt64_cases n with ⟨small, form⟩ | ⟨-, form⟩ | ⟨-, form⟩ | form
  · rw [form]
    show n.toUInt8.toNat < 0xfb
    rw [UInt64.toNat_toUInt8]
    omega
  all_goals rw [form]; trivial

/-- The shortest form of a number stands for that number. -/
theorem toUInt64?_ofUInt64 (n : UInt64) : (ofUInt64 n).toUInt64? = some n := by
  rcases ofUInt64_cases n with ⟨small, form⟩ | ⟨small, form⟩ | ⟨small, form⟩ | form
  · have back : n.toUInt8.toUInt64 = n := by
      apply UInt64.toNat_inj.1
      rw [UInt8.toNat_toUInt64, UInt64.toNat_toUInt8]
      omega
    rw [form, toUInt64?, back]
  · have back : n.toUInt16.toUInt64 = n := by
      apply UInt64.toNat_inj.1
      rw [UInt16.toNat_toUInt64, UInt64.toNat_toUInt16]
      omega
    rw [form, toUInt64?, back]
  · have back : (BitVec.ofNat 24 n.toNat).toNat = n.toNat := by
      rw [BitVec.toNat_ofNat, Nat.mod_eq_of_lt small]
    rw [form, toUInt64?, back, UInt64.ofNat_toNat]
  · rw [form, toUInt64?]

end Wire.PackedInt

namespace Wire.Read

theorem packed64_of_read {bs r : Bytes} {v : PackedInt} {n : UInt64}
    (reads : PackedInt.read bs = .ok v r) (value : v.toUInt64? = some n) :
    packed64 bs = .ok n r := by
  simp only [packed64, bind, EStateM.bind, reads]
  cases v <;> cases value <;> rfl

theorem packed64_encode (n : UInt64) (r : Bytes) :
    packed64 ((PackedInt.ofUInt64 n).encode ++ r) = .ok n r :=
  packed64_of_read (PackedInt.read_encode (PackedInt.proper_ofUInt64 n) r)
    (PackedInt.toUInt64?_ofUInt64 n)

theorem packed32_encode {n : Nat} (small : n < 2 ^ 32) (r : Bytes) :
    packed32 ((PackedInt.ofNat n).encode ++ r) = .ok (.ofNat n) r := by
  have wide : (UInt64.ofNat n).toNat = n :=
    UInt64.toNat_ofNat_of_lt' (Nat.lt_trans small (by decide))
  have fits : UInt64.ofNat n < 0x100000000 := by
    rw [UInt64.lt_iff_toNat_lt, wide]
    exact small
  simp [packed32, PackedInt.ofNat, bind, EStateM.bind, packed64_encode, fits, pure, EStateM.pure]

end Wire.Read

/-! ## Payload headers -/

namespace PayloadField

theorem readTag_encode {n : Nat} (small : n < 2 ^ 32) (r : Bytes) :
    readTag ((PackedInt.ofNat n).encode ++ r) = .ok (some (.ofNat n)) r := by
  simp only [readTag, Read.packed32_encode small]

theorem readTag_width (v : PackedInt) (r : Bytes) :
    readTag ((PackedInt.ofNat v.width).encode ++ r) = .ok (some (.ofNat v.width)) r :=
  readTag_encode (by cases v <;> simp [PackedInt.width]) r

theorem readValue_of_ok {α : Type} (type : UInt32) {value : Read α} {bs r : Bytes} {a : α}
    (reads : value bs = .ok a r) : readValue type value bs = .ok a r := by
  simp only [readValue, EStateM.adaptExcept, reads]

theorem read_payloadSize (n : UInt32) (r : Bytes) :
    read (encode 1 (.ofNat n.toNat) ++ r) = .ok (.field (.payloadSize n)) r := by
  have value := fun type => readValue_of_ok type (Read.packed32_encode n.toNat_lt r)
  simp [read, encode, bind, EStateM.bind, pure, EStateM.pure, readTag_encode, readTag_width, value]

theorem read_compressionType (code : UInt32) (r : Bytes) :
    read (encode 2 (.ofNat code.toNat) ++ r) = .ok (.field (.compressionType code)) r := by
  have value := fun type => readValue_of_ok type (Read.packed32_encode code.toNat_lt r)
  simp [read, encode, bind, EStateM.bind, pure, EStateM.pure, readTag_encode, readTag_width, value]

theorem read_uncompressedSize (n : UInt64) (r : Bytes) :
    read (encode 3 (.ofUInt64 n) ++ r) = .ok (.field (.uncompressedSize n)) r := by
  have value := fun type => readValue_of_ok type (Read.packed64_encode n r)
  simp [read, encode, bind, EStateM.bind, pure, EStateM.pure, readTag_encode, readTag_width, value]

theorem read_endMark (r : Bytes) : read ((PackedInt.ofNat 0).encode ++ r) = .ok .endMark r := by
  simp [read, bind, EStateM.bind, pure, EStateM.pure, readTag_encode]

end PayloadField

theorem PayloadField.readWithin_encode (h : PayloadHeader) (fuel : Nat) (r : Bytes) :
    readWithin (fuel + 4) (h.encode ++ r) =
      .ok ([.payloadSize h.payloadSize, .compressionType h.compressionType,
        .uncompressedSize h.uncompressedSize], true) r := by
  simp only [PayloadHeader.encode, List.append_assoc, readWithin, bind, EStateM.bind, pure,
    EStateM.pure, read_payloadSize, read_compressionType, read_uncompressedSize, read_endMark]

theorem PayloadHeader.length_encode_ge (h : PayloadHeader) : 4 ≤ h.encode.length := by
  have mark : (PackedInt.ofNat 0).encode.length = 1 := by decide
  have one : ∀ n v, 1 ≤ (PayloadField.encode n v).length := by
    intro n v
    have pos : 1 ≤ v.width := by cases v <;> simp [PackedInt.width]
    simp only [PayloadField.encode, List.length_append, PackedInt.length_encode]
    omega
  have first := one 1 (.ofNat h.payloadSize.toNat)
  have second := one 2 (.ofNat h.compressionType.toNat)
  have third := one 3 (.ofUInt64 h.uncompressedSize)
  simp only [encode, List.length_append, mark]
  omega

/-- A written header in front of anything is read back. -/
theorem PayloadHeader.read_encode (h : PayloadHeader) (r : Bytes) :
    read (h.encode ++ r) = .ok h r := by
  have long := h.length_encode_ge
  have fuel : (h.encode ++ r).length + 1 = ((h.encode ++ r).length - 3) + 4 := by
    rw [List.length_append]
    omega
  have fields : PayloadField.readAll (h.encode ++ r) = _ :=
    (congrArg (PayloadField.readWithin · (h.encode ++ r)) fuel).trans
      (PayloadField.readWithin_encode h _ r)
  simp only [read, Functor.map, EStateM.map, fields]
  rfl

end BinaryLog
