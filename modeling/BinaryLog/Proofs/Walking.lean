/-
# BinaryLog.Proofs.Walking -- payload headers for those who know none of their fields

A field of a payload header says how long its value is, so that whoever does not know its type can
pass over it.  The reader of headers does not look at the lengths of the fields that it knows, and
would not notice a wrong one.

`PayloadField.walk` goes by types and lengths alone, and looks at no value.  If each field has the
length of its value (`PayloadField.Measured`), it comes to the end mark where the reader of headers
does, and what it has passed over are the values (`PayloadHeader.walk_of_measured`).  The three
fields that are written have the lengths of their values (`PayloadField.measured_encode`), in
whichever form the values are packed (`PayloadHeader.walk_of_written`).
-/
import BinaryLog.Proofs.Headers
import BinaryLog.Proofs.Writers

namespace BinaryLog

set_option autoImplicit false

open Wire PackedInt

/-! ## Going by the lengths -/

namespace PayloadField

/-- The type of a field and as many bytes as it declares, or nothing at the end mark. -/
def skip : Read (Option (UInt32 × Bytes)) := do
  let type ← Read.packed32
  if type = 0 then return none
  else
    let length ← Read.packed32
    let content ← Read.take length.toNat
    return some (type, content)

/-- At most `fuel` fields. -/
def walkWithin : Nat → Read (List (UInt32 × Bytes))
  | 0 => return []
  | fuel + 1 => do
    match ← skip with
    | none => return []
    | some part =>
      let parts ← walkWithin fuel
      return part :: parts

/-- The types of all fields up to the end mark, and what is behind their lengths. -/
def walk : Read (List (UInt32 × Bytes)) := fun bs => walkWithin (bs.length + 1) bs

/-- A field whose length is that of its value. -/
inductive Measured (f : PayloadField) (value : Bytes) : Bytes → Prop
  | intro {tags : Bytes} (tagged : Tags f.type value.length tags)
      (valued : f.Value value.length value) : Measured f value (tags ++ value)

/-- Such fields one behind the other; their types and values, and the bytes of all of them. -/
inductive MeasuredRow : List PayloadField → List (UInt32 × Bytes) → Bytes → Prop
  | nil : MeasuredRow [] [] []
  | cons {f : PayloadField} {fs : List PayloadField} {parts : List (UInt32 × Bytes)}
      {value lead behind : Bytes} (first : f.Measured value lead)
      (later : MeasuredRow fs parts behind) :
      MeasuredRow (f :: fs) ((f.type, value) :: parts) (lead ++ behind)

variable {f : PayloadField} {fs : List PayloadField} {parts : List (UInt32 × Bytes)}
  {value lead mark bs rest : Bytes}

theorem Measured.stands (measured : f.Measured value lead) : f.Stands lead := by
  cases measured with
  | intro tagged valued => exact .intro tagged valued

theorem MeasuredRow.row (row : MeasuredRow fs parts lead) : Row fs lead := by
  induction row with
  | nil => exact .nil
  | cons first later ih => exact .cons first.stands ih

theorem MeasuredRow.length_eq (row : MeasuredRow fs parts lead) : parts.length = fs.length := by
  induction row with
  | nil => rfl
  | cons first later ih => exact congrArg (· + 1) ih

theorem skip_of_marked (marked : Marked bs rest) : skip bs = .ok none rest := by
  cases marked with
  | intro packs =>
      have reads := Read.unpacks_packed32.number packs (by decide) rest
      rw [skip, Read.bind_of_ok reads]
      rfl

theorem skip_of_measured (measured : f.Measured value lead) (rest : Bytes) :
    skip (lead ++ rest) = .ok (some (f.type, value)) rest := by
  cases measured with
  | intro tagged valued =>
      have some : f.type ≠ 0 := type_ne_zero valued
      cases tagged with
      | @intro t l typed sized short =>
          have first := Read.unpacks_packed32.number typed f.type.toNat_lt (l ++ (value ++ rest))
          have second := Read.unpacks_packed32.number sized short (value ++ rest)
          have same : value.length = (UInt32.ofNat value.length).toNat :=
            (UInt32.toNat_ofNat_of_lt' short).symm
          rw [UInt32.ofNat_toNat] at first
          rw [List.append_assoc, List.append_assoc, skip, Read.bind_of_ok first, if_neg some,
            Read.bind_of_ok second, Read.bind_of_ok (Read.take_append same rest)]
          rfl

theorem walkWithin_of_measured (row : MeasuredRow fs parts lead) (marked : Marked bs rest)
    (fuel : Nat) : walkWithin (parts.length + (fuel + 1)) (lead ++ bs) = .ok parts rest := by
  induction row with
  | nil =>
      rw [List.length_nil, Nat.zero_add, List.nil_append, walkWithin,
        Read.bind_of_ok (skip_of_marked marked)]
      rfl
  | cons first later ih =>
      rw [List.length_cons, Nat.add_right_comm, List.append_assoc, walkWithin,
        Read.bind_of_ok (skip_of_measured first _)]
      dsimp only
      rw [Read.bind_of_ok ih]
      rfl

/-- A field that is written as a type, the width of its value and that value. -/
theorem measured_encode {v : PackedInt} (valued : f.Value v.encode.length v.encode) :
    f.Measured v.encode (encode f.type v) := by
  have typed : Packs f.type.toNat (PackedInt.ofNat f.type.toNat).encode :=
    packs_ofNat (Nat.lt_trans f.type.toNat_lt (by decide))
  have narrow : v.encode.length < 2 ^ 32 := by
    rw [length_encode]
    cases v <;> simp [PackedInt.width]
  have sized : Packs v.encode.length (PackedInt.ofNat v.width).encode := by
    rw [length_encode] at narrow ⊢
    exact packs_ofNat (Nat.lt_trans narrow (by decide))
  rw [encode, ← List.append_assoc]
  exact .intro (.intro typed sized narrow) valued

end PayloadField

/-! ## Headers -/

namespace PayloadHeader

open PayloadField

variable {fs : List PayloadField} {parts : List (UInt32 × Bytes)} {lead mark : Bytes}

/-- Whoever goes by the lengths comes to the end mark where the reader of the fields does. -/
theorem walk_of_measured (row : MeasuredRow fs parts lead) (ends : Packs 0 mark) (rest : Bytes) :
    read (lead ++ (mark ++ rest)) = .ok (ofFields fs) rest ∧
      walk (lead ++ (mark ++ rest)) = .ok parts rest := by
  refine ⟨read_of_marked ⟨lead, row.row, rfl⟩ (.intro ends rest), ?_⟩
  have few := row.row.length_le
  have count := row.length_eq
  have fuel : (lead ++ (mark ++ rest)).length + 1 =
      parts.length + (lead.length - parts.length + (mark ++ rest).length + 1) := by
    rw [List.length_append]
    omega
  rw [walk, fuel]
  exact walkWithin_of_measured row (.intro ends rest) _

/-- With a wrong length of a known field the two come to different places. -/
example : read [1, 2, 7, 0, 0] = .ok ⟨7, 0, 7⟩ [0] ∧ walk [1, 2, 7, 0, 0] = .ok [(1, [7, 0])] [] :=
  ⟨rfl, rfl⟩

/-- What is written in front of the end mark. -/
theorem exists_measured_row (h : PayloadHeader) :
    ∃ lead, h.encode = lead ++ (PackedInt.ofNat 0).encode ∧
      MeasuredRow [.payloadSize h.payloadSize, .compressionType h.compressionType,
          .uncompressedSize h.uncompressedSize]
        [(1, (PackedInt.ofNat h.payloadSize.toNat).encode),
          (2, (PackedInt.ofNat h.compressionType.toNat).encode),
          (3, (PackedInt.ofUInt64 h.uncompressedSize).encode)] lead := by
  have packs (n : UInt32) : Packs n.toNat (PackedInt.ofNat n.toNat).encode :=
    packs_ofNat (Nat.lt_trans n.toNat_lt (by decide))
  have size := measured_encode (f := .payloadSize h.payloadSize) (packs _)
  have compression := measured_encode (f := .compressionType h.compressionType) (packs _)
  have uncompressed :=
    measured_encode (f := .uncompressedSize h.uncompressedSize) (packs_ofUInt64 _)
  refine ⟨_, ?_, .cons size (.cons compression (.cons uncompressed .nil))⟩
  simp only [encode, PayloadField.type, List.append_assoc, List.nil_append]

/-- **A written header is read back, and its lengths are right.**  Behind any buffer, bytes are
added that are read as the header, in front of anything.  Whoever knows none of the fields, reads
types and lengths and passes over as many bytes, comes to the same place, and what was passed over
are the three values, each as it was written. -/
theorem walk_of_written (h : PayloadHeader) :
    ∃ out, h.write.Appends out ∧ ∀ rest,
      read (out ++ rest) = .ok h rest ∧
      walk (out ++ rest) = .ok
        [(1, (PackedInt.ofNat h.payloadSize.toNat).encode),
          (2, (PackedInt.ofNat h.compressionType.toNat).encode),
          (3, (PackedInt.ofUInt64 h.uncompressedSize).encode)] rest := by
  obtain ⟨lead, whole, row⟩ := h.exists_measured_row
  have mark : Packs 0 (PackedInt.ofNat 0).encode := packs_ofNat (by decide)
  refine ⟨h.encode, h.appends_write, fun rest => ?_⟩
  rw [whole, List.append_assoc]
  exact walk_of_measured row mark rest

end PayloadHeader

end BinaryLog
