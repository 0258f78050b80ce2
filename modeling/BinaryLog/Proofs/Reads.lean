/-
# BinaryLog.Proofs.Reads -- what a read that succeeded has taken

A read made of others succeeds only if each of them does, one behind the other
(`exists_of_bind_apply`), and a word that was read stands in front of what is left
(`Wire.Read.append_of_word`).  So a header was read only where nineteen bytes are, and it is the one
they hold (`EventHeader.eq_of_read`).
-/
import BinaryLog.Proofs.Framing

namespace BinaryLog

set_option autoImplicit false

open Wire

theorem exists_of_bind_eq_ok {ε α β : Type} {x : Except ε α} {f : α → Except ε β} {b : β}
    (bound : x >>= f = .ok b) : ∃ a, x = .ok a ∧ f a = .ok b := by
  cases x with
  | error e => cases bound
  | ok a => exact ⟨a, rfl, bound⟩

/-- What a computation comes to, told by some part of it. -/
theorem exists_of_map_toOption {ε α β : Type} {x : Except ε α} {f : α → β} {b : β}
    (found : x.toOption.map f = some b) : ∃ a, x = .ok a ∧ f a = b := by
  cases x with
  | error e => cases found
  | ok a => exact ⟨a, rfl, Option.some.inj found⟩

theorem eq_ok_getD {ε α : Type} {x : Except ε α} (succeeds : x.toOption.isSome = true)
    (default : α) : x = .ok (x.toOption.getD default) := by
  cases x with
  | error e => cases succeeds
  | ok a => rfl

theorem eq_ok_of_mapError {ε ε' α : Type} {x : Except ε α} {f : ε → ε'} {a : α}
    (mapped : x.mapError f = .ok a) : x = .ok a := by
  cases x with
  | error e => cases mapped
  | ok b =>
      cases mapped
      rfl

theorem exists_of_bind_apply {ε σ α β : Type} {r : EStateM ε σ α} {f : α → EStateM ε σ β} {s s' : σ}
    {b : β} (bound : (r >>= f) s = .ok b s') : ∃ a mid, r s = .ok a mid ∧ f a mid = .ok b s' := by
  simp only [bind, EStateM.bind] at bound
  split at bound
  · rename_i a mid first
    exact ⟨a, mid, first, bound⟩
  · cases bound

theorem Wire.Read.value_eq_ok_iff {α : Type} {r : Read α} {bs : Bytes} {a : α} :
    r.value bs = .ok a ↔ ∃ rest, r bs = .ok a rest := by
  unfold value
  split
  · rename_i here
    simp [here]
  · rename_i here
    simp [here]

theorem Wire.Read.append_of_word {α : Type} [Word α] {bs rest : Bytes} {x : α}
    (reads : word α bs = .ok x rest) : Word.bytes x ++ rest = bs := by
  obtain ⟨a, taken, rfl⟩ := of_map reads
  obtain ⟨whole, width⟩ := append_of_take taken
  rw [Word.bytes_ofBytes width, whole]

theorem EventHeader.eq_of_read {bs rest : Bytes} {h : EventHeader} (reads : read bs = .ok h rest) :
    size ≤ bs.length ∧ h = ofBytes bs := by
  have there : size ≤ bs.length := by
    obtain ⟨timestamp, bs₁, first, later⟩ := exists_of_bind_apply reads
    obtain ⟨typeCode, bs₂, second, later⟩ := exists_of_bind_apply later
    obtain ⟨serverId, bs₃, third, later⟩ := exists_of_bind_apply later
    obtain ⟨eventLength, bs₄, fourth, later⟩ := exists_of_bind_apply later
    obtain ⟨nextPosition, bs₅, fifth, later⟩ := exists_of_bind_apply later
    obtain ⟨flags, bs₆, sixth, -⟩ := exists_of_bind_apply later
    rw [← Read.append_of_word first, ← Read.append_of_word second, ← Read.append_of_word third,
      ← Read.append_of_word fourth, ← Read.append_of_word fifth, ← Read.append_of_word sixth]
    simp [Word.width, size]
    omega
  rw [read_eq there, EStateM.Result.ok.injEq] at reads
  exact ⟨there, reads.1.symm⟩

end BinaryLog
