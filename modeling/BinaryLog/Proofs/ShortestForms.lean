/-
# BinaryLog.Proofs.ShortestForms -- packed integers keep their form, and numbers get the shortest

The forms of a number overlap: a small one may stand behind any of the markers.  A packed integer
that was read keeps the form in which it stood there, and its writer adds those bytes again
(`PackedInt.read_eq_ok_iff`).

A number that is packed anew gets as many bytes as its size asks for (`PackedInt.width_ofUInt64`),
and all bytes that stand for it are at least as many (`PackedInt.Packs.width_le`).  Two forms of one
number differ in their length (`PackedInt.Packs.unique`), so that only one of them is the shortest
(`PackedInt.shortest_iff`).
-/
import BinaryLog.Proofs.Forms
import BinaryLog.Proofs.Grammars
import BinaryLog.Proofs.Writers

namespace BinaryLog.Wire.PackedInt

set_option autoImplicit false

variable {n : Nat} {m : UInt64} {v w : PackedInt} {lead lead' bs rest : Bytes}

/-! ## The form that was read -/

/-- Every packed integer can be read, but a single byte that is a marker. -/
theorem takes_read : Read.Takes read fun v lead => v.Proper ∧ lead = v.encode where
  reads := by
    rintro v lead ⟨proper, rfl⟩ rest
    exact read_encode proper rest
  allows reads := ⟨_, ⟨proper_of_read reads, rfl⟩, (encode_of_read reads).symm⟩

/-- What is read is what its writer would add there, as many bytes as its width says. -/
theorem read_eq_ok_iff : read bs = .ok v rest ↔
    v.Proper ∧ ∃ lead, v.write.Appends lead ∧ lead.length = v.width ∧ lead ++ rest = bs := by
  rw [takes_read.eq_ok_iff]
  constructor
  · rintro ⟨lead, ⟨proper, rfl⟩, rfl⟩
    exact ⟨proper, v.encode, v.appends_write, v.length_encode, rfl⟩
  · rintro ⟨proper, lead, appends, -, rfl⟩
    -- no other bytes could be added
    obtain rfl : lead = v.encode := Except.ok.inj (appends.unique v.appends_write)
    exact ⟨v.encode, ⟨proper, rfl⟩, rfl⟩

/-- What some input is read as. -/
def Readable (v : PackedInt) : Prop := ∃ bs rest, read bs = .ok v rest

theorem readable_iff : v.Readable ↔ v.Proper := by
  constructor
  · rintro ⟨bs, rest, reads⟩
    exact proper_of_read reads
  · intro proper
    exact ⟨_, [], read_encode proper []⟩

/-! ## The shortest form -/

/-- A form of a number that can be read, where none that can be read has fewer bytes. -/
structure Shortest (m : UInt64) (v : PackedInt) : Prop where
  value : v.toUInt64? = some m
  readable : v.Readable
  least : ∀ w : PackedInt, w.Readable → w.toUInt64? = some m → v.width ≤ w.width

theorem width_ofUInt64 (m : UInt64) :
    (ofUInt64 m).width =
      if m.toNat < 0xfb then 1 else if m.toNat < 2 ^ 16 then 3 else if m.toNat < 2 ^ 24 then 4
      else 9 := by
  have below : m < 0xfb ↔ m.toNat < 0xfb := Iff.rfl
  have within₂ : m ≤ 0xffff ↔ m.toNat < 2 ^ 16 := Nat.lt_succ_iff.symm
  have within₃ : m ≤ 0xffffff ↔ m.toNat < 2 ^ 24 := Nat.lt_succ_iff.symm
  simp only [ofUInt64, below, within₂, within₃]
  split_ifs <;> rfl

/-- No bytes that stand for a number are fewer than those of its form. -/
theorem Packs.width_le (packs : Packs m.toNat lead) : (ofUInt64 m).width ≤ lead.length := by
  rw [width_ofUInt64]
  cases packs with
  | one small => rw [if_pos small, List.length_singleton]
  | two small | three small =>
      rw [if_pos small, List.length_cons, Bytes.length_le]
      split_ifs <;> decide
  | eight small =>
      rw [List.length_cons, Bytes.length_le]
      split_ifs <;> decide

/-- The bytes of a number are told by how many they are. -/
theorem Packs.unique (one : Packs n lead) (other : Packs n lead')
    (same : lead.length = lead'.length) : lead = lead' := by
  -- the four forms have one, three, four and nine bytes
  cases one <;> cases other <;> simp at same ⊢

theorem shortest_ofUInt64 (m : UInt64) : Shortest m (ofUInt64 m) where
  value := toUInt64?_ofUInt64 m
  readable := readable_iff.2 (proper_ofUInt64 m)
  least := by
    intro w readable value
    have packs : Packs m.toNat w.encode := packs_encode (readable_iff.1 readable) value
    exact w.length_encode ▸ packs.width_le

theorem Shortest.unique (one : Shortest m v) (other : Shortest m w) : v = w := by
  have proper := readable_iff.1 one.readable
  have proper' := readable_iff.1 other.readable
  have width : v.encode.length = w.encode.length := by
    rw [length_encode, length_encode]
    exact Nat.le_antisymm (one.least w other.readable other.value)
      (other.least v one.readable one.value)
  have bytes : v.encode = w.encode :=
    (packs_encode proper one.value).unique (packs_encode proper' other.value) width
  have same : v.encode ++ [] = w.encode ++ [] := congrArg (· ++ []) bytes
  exact (takes_read.unique ⟨proper, rfl⟩ ⟨proper', rfl⟩ same).1

theorem shortest_iff : Shortest m v ↔ v = ofUInt64 m := by
  constructor
  · intro shortest
    exact shortest.unique (shortest_ofUInt64 m)
  · rintro rfl
    exact shortest_ofUInt64 m

/-- The width in which a number is given does not matter. -/
theorem ofWord_eq {α : Type} [Word α] {x : α} (same : Word.toNat x = m.toNat) :
    ofWord x = ofUInt64 m := by
  rw [ofWord, ofNat, same, UInt64.ofNat_toNat]

/-- **A packed integer keeps its form, and a number gets the shortest.**  What is read is what
stands there: its writer adds the very bytes that were taken, as many as its width says.  And what
a writer has added is read, unless it is a single byte that is a marker.  The form of a number
stands for that number and can be read, and every other form that stands for it and can be read is
longer.  A number of one, two or four bytes gets the form that it gets as one of eight. -/
theorem exact_and_shortest :
    (∀ (bs rest : Bytes) (v : PackedInt), read bs = .ok v rest ↔
      v.Proper ∧ ∃ lead, v.write.Appends lead ∧ lead.length = v.width ∧ lead ++ rest = bs) ∧
    (∀ (m : UInt64) (v : PackedInt), Shortest m v ↔ v = ofUInt64 m) ∧
    (∀ x : UInt8, ofWord x = ofUInt64 x.toUInt64) ∧
    (∀ x : UInt16, ofWord x = ofUInt64 x.toUInt64) ∧
    ∀ x : UInt32, ofWord x = ofUInt64 x.toUInt64 := by
  refine ⟨fun bs rest v => read_eq_ok_iff, fun m v => shortest_iff, fun x => ?_, fun x => ?_,
    fun x => ?_⟩
  · exact ofWord_eq (UInt8.toNat_toUInt64 x).symm
  · exact ofWord_eq (UInt16.toNat_toUInt64 x).symm
  · exact ofWord_eq (UInt32.toNat_toUInt64 x).symm

/-- A number that was read in nine bytes is written in nine, but gets only one of its own. -/
example : read [0xfe, 5, 0, 0, 0, 0, 0, 0, 0, 7] = .ok (.eight 5) [7] ∧
    (PackedInt.eight 5).encode = [0xfe, 5, 0, 0, 0, 0, 0, 0, 0] ∧ ofUInt64 5 = .one 5 :=
  ⟨rfl, rfl, rfl⟩

end BinaryLog.Wire.PackedInt
