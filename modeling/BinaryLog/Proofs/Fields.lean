/-
# BinaryLog.Proofs.Fields -- how many bytes the header of a payload takes

A field takes a byte for its type, one for its length and at least one for its value.  The code for
stored payloads does not fit into one byte, because that byte is a marker, so that it takes three.
So a header that announces bytes, and announces them as stored, takes eight bytes for the two fields
that say so, and one more for the end mark (`PayloadHeader.length_of_stored`).

A header without an end mark ends where the input does: what is left there is too short for a packed
integer, so that it has less than nine bytes.
-/
import BinaryLog.Proofs.Headers

namespace BinaryLog

set_option autoImplicit false

open Wire PackedInt

/-! ## Packed integers -/

namespace Wire.PackedInt

variable {n : Nat} {lead bs : Bytes}

/-- A number takes so many bytes at least. -/
def least (n : Nat) : Nat := if n < 0xfb then 1 else 3

theorem least_pos (n : Nat) : 0 < least n := by
  unfold least
  split <;> decide

theorem Packs.least_le (packs : Packs n lead) : least n ≤ lead.length := by
  unfold least
  cases packs with
  | one small => exact Nat.le_of_eq (if_pos small)
  | _ _ => split <;> simp

/-- The longest form has nine bytes. -/
theorem CutOff.length_le (cut : CutOff bs) : bs.length ≤ 8 := by
  unfold CutOff wanted at cut
  split at cut
  · exact Nat.zero_le 8
  · split_ifs at cut <;> omega

end Wire.PackedInt

/-! ## Fields -/

namespace PayloadField

/-- A field takes so many bytes at least. -/
def least : PayloadField → Nat
  | payloadSize n => 2 + PackedInt.least n.toNat
  | compressionType code => 2 + PackedInt.least code.toNat
  | uncompressedSize n => 2 + PackedInt.least n.toNat
  | unknown _ content => 2 + content.length

/-- Some fields take so many bytes at least. -/
def leastAll : List PayloadField → Nat
  | [] => 0
  | f :: fs => f.least + leastAll fs

variable {f : PayloadField} {fs : List PayloadField} {lead tail rest : Bytes}

/-- A field takes as many bytes as it must. -/
theorem Stands.least_le (stands : f.Stands lead) : f.least ≤ lead.length := by
  cases stands with
  | intro tagged valued =>
      rw [List.length_append]
      refine Nat.le_trans ?_ (Nat.add_le_add_right tagged.two_le _)
      cases f with
      | unknown type content =>
          obtain ⟨-, -, rfl⟩ := valued
          exact Nat.le_refl _
      | _ => exact Nat.add_le_add_left (Packs.least_le valued) 2

theorem Row.leastAll_le (row : Row fs lead) : leastAll fs ≤ lead.length := by
  induction row with
  | nil => exact Nat.le_refl 0
  | cons first later ih =>
      rw [leastAll, List.length_append]
      exact Nat.add_le_add first.least_le ih

theorem Exhausted.cutOff (exhausted : Exhausted tail rest) : CutOff rest := by
  cases exhausted with
  | type cut => exact cut
  | length _ _ cut => exact cut

theorem least_le_leastAll (here : f ∈ fs) :
    f.least ≤ leastAll fs := by
  induction fs with
  | nil => cases here
  | cons first fs ih =>
      rw [leastAll]
      rcases List.mem_cons.1 here with rfl | later
      · exact Nat.le_add_right _ _
      · exact Nat.le_trans (ih later) (Nat.le_add_left _ _)

theorem least_add_least_le {g : PayloadField} (here : f ∈ fs)
    (there : g ∈ fs) (differ : f ≠ g) : f.least + g.least ≤ leastAll fs := by
  induction fs with
  | nil => cases here
  | cons first fs ih =>
      rw [leastAll]
      rcases List.mem_cons.1 here with rfl | behind
      · have other := (List.mem_cons.1 there).resolve_left differ.symm
        exact Nat.add_le_add_left (least_le_leastAll other) _
      rcases List.mem_cons.1 there with rfl | other
      · rw [Nat.add_comm]
        exact Nat.add_le_add_left (least_le_leastAll behind) _
      · exact Nat.le_trans (ih behind other) (Nat.le_add_left _ _)

/-- What is not the default stands in a field. -/
theorem LastOr.mem {α : Type} {field : α → PayloadField} {default a : α}
    (last : LastOr field default fs a) (differs : a ≠ default) : field a ∈ fs := by
  cases last with
  | last only => exact List.mem_append_right _ List.mem_cons_self
  | absent none => exact absurd rfl differs

end PayloadField

/-! ## Headers -/

namespace PayloadHeader

open PayloadField

theorem code_of_stored {h : PayloadHeader} (stored : h.compression = .stored) :
    h.compressionType = 255 := by
  unfold compression Compression.ofCode at stored
  split at stored
  · cases stored
  split at stored
  · assumption
  · cases stored

/-- A header that announces stored bytes leaves almost nothing, or has taken nine bytes. -/
theorem length_of_stored {bs rest : Bytes} {h : PayloadHeader} (reads : read bs = .ok h rest)
    (stored : h.compression = .stored) (some : h.payloadSize ≠ 0) :
    rest.length < 9 ∨ rest.length + 9 ≤ bs.length := by
  obtain ⟨fs, tail, tells, ⟨lead, row, rfl⟩, marked | exhausted⟩ := read_eq_ok_iff.1 reads
  · refine .inr ?_
    have code : h.compressionType = 255 := code_of_stored stored
    have announced := tells.payloadSize.mem some
    have compression := tells.compressionType.mem (by rw [code]; decide)
    have both := least_add_least_le announced compression (by simp)
    have size : 3 ≤ (PayloadField.payloadSize h.payloadSize).least :=
      Nat.add_le_add_left (PackedInt.least_pos _) 2
    have five : (PayloadField.compressionType 255).least = 5 := by decide
    have fields := row.leastAll_le
    cases marked with
    | intro packs =>
        have mark := packs.length_pos
        rw [code] at both
        simp only [List.length_append]
        omega
  · exact .inl (Nat.lt_succ_of_le exhausted.cutOff.length_le)

end PayloadHeader

end BinaryLog
