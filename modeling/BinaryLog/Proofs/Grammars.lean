/-
# BinaryLog.Proofs.Grammars -- reads that take what a grammar allows, and nothing else

A grammar says which byte strings a value may be written as.  A read `Takes` a grammar if it reads
what the grammar allows, in front of anything, and if whatever it reads was allowed.  Then no byte
string can be cut in two ways (`Takes.unique`), not even within a row of values
(`Takes.exists_next`).

Values of a grammar may stand one behind the other (`InRow`).  A read that is made so many times
takes rows of so many values (`Takes.times`).  One that is made until nothing is left takes rows
that are the whole input (`Takes.all_eq_ok_iff`), and what it comes to behind a row is what it comes
to there, with the values of the row in front (`Takes.all_append`).
-/
import BinaryLog.Proofs.Bodies
import BinaryLog.Proofs.Cursor
import Mathlib.Data.List.Forall2

namespace BinaryLog.Wire.Read

set_option autoImplicit false

variable {α : Type}

/-! ## Grammars -/

structure Takes (r : Read α) (form : α → Bytes → Prop) : Prop where
  reads : ∀ {a : α} {lead : Bytes}, form a lead → ∀ rest, r (lead ++ rest) = .ok a rest
  allows : ∀ {bs rest : Bytes} {a : α}, r bs = .ok a rest → ∃ lead, form a lead ∧ bs = lead ++ rest

/-- Values one behind the other, each in a piece of its own. -/
def InRow (form : α → Bytes → Prop) (as : List α) (bs : Bytes) : Prop :=
  ∃ pieces, List.Forall₂ form as pieces ∧ bs = pieces.flatten

variable {form : α → Bytes → Prop} {r : Read α} {a b : α} {as : List α} {n : Nat}
  {lead lead' bs rest rest' : Bytes}

theorem Takes.eq_ok_iff (takes : r.Takes form) :
    r bs = .ok a rest ↔ ∃ lead, form a lead ∧ bs = lead ++ rest := by
  constructor
  · exact takes.allows
  · rintro ⟨lead, allowed, rfl⟩
    exact takes.reads allowed rest

theorem Takes.congr {form' : α → Bytes → Prop} (takes : r.Takes form)
    (same : ∀ a lead, form a lead ↔ form' a lead) : r.Takes form' where
  reads allowed := takes.reads ((same _ _).2 allowed)
  allows := by
    intro bs rest a reads
    obtain ⟨lead, allowed, whole⟩ := takes.allows reads
    exact ⟨lead, (same a lead).1 allowed, whole⟩

/-- There is only one way to cut the first value off. -/
theorem Takes.unique (takes : r.Takes form) (one : form a lead) (other : form b lead')
    (same : lead ++ rest = lead' ++ rest') : a = b ∧ lead = lead' ∧ rest = rest' := by
  have reads := takes.reads one rest
  rw [same, takes.reads other rest', EStateM.Result.ok.injEq] at reads
  obtain ⟨rfl, rfl⟩ := reads
  exact ⟨rfl, List.append_cancel_right same, rfl⟩

/-- What is put back when the read fails does not matter. -/
theorem Takes.atomically (takes : r.Takes form) : (atomically r).Takes form where
  reads := by
    intro a lead allowed rest
    simp only [Read.atomically, takes.reads allowed rest]
  allows := by
    intro bs rest a reads
    simp only [Read.atomically] at reads
    split at reads <;> cases reads
    exact takes.allows (by assumption)

/-! ## Primitive reads -/

theorem takes_take (n : Nat) : (take n).Takes fun a lead => lead = a ∧ a.length = n where
  reads := by
    rintro a lead ⟨rfl, length⟩ rest
    exact take_append length rest
  allows := by
    intro bs rest a reads
    obtain ⟨whole, length⟩ := append_of_take reads
    exact ⟨a, ⟨rfl, length⟩, whole.symm⟩

theorem takes_word (α : Type) [Word α] : (word α).Takes fun x lead => lead = Word.bytes x where
  reads := by
    rintro x lead rfl rest
    exact word_append x rest
  allows reads := ⟨_, rfl, (append_of_word reads).symm⟩

/-- The bytes up to one that is not among them. -/
theorem takes_untilByte (b : UInt8) :
    (untilByte b false).Takes fun a lead => lead = a ++ [b] ∧ b ∉ a where
  reads := by
    rintro a lead ⟨rfl, free⟩ rest
    have differ : ∀ c ∈ a, (c != b) = true := fun c member => bne_iff_ne.2 fun same =>
      free (same ▸ member)
    have before : (a ++ b :: rest).takeWhile (· != b) = a := by
      rw [List.takeWhile_append_of_pos differ]
      simp
    have behind : (a ++ b :: rest).dropWhile (· != b) = b :: rest := by
      rw [List.dropWhile_append_of_pos differ]
      simp
    rw [List.append_assoc, List.singleton_append]
    simp only [untilByte, behind, before]
    rfl
  allows := by
    intro bs rest a reads
    simp only [untilByte] at reads
    split at reads
    · cases reads
    · rename_i last after behind
      cases reads
      have parts := List.takeWhile_append_dropWhile (p := (· != b)) (l := bs)
      have stops := List.head?_dropWhile_not (· != b) bs
      rw [behind] at stops parts
      obtain rfl : last = b := by simpa using stops
      refine ⟨bs.takeWhile (· != last) ++ [last], ⟨rfl, fun member => ?_⟩, ?_⟩
      · have other := List.mem_takeWhile_imp (p := (· != last)) member
        exact absurd rfl (bne_iff_ne.1 other)
      · rw [List.append_assoc]
        exact parts.symm

/-- Bytes behind their number. -/
def counted (s : Bytes) : Bytes := UInt8.ofNat s.length :: s

theorem bind_counted {β : Type} {s : Bytes} (short : s.length ≤ 255) (f : UInt8 → Bytes → Read β)
    (rest : Bytes) :
    (word UInt8 >>= fun n => take n.toNat >>= f n) (counted s ++ rest) =
      f (UInt8.ofNat s.length) s rest := by
  have size : s.length = (UInt8.ofNat s.length).toNat :=
    (UInt8.toNat_ofNat_of_lt' (Nat.lt_succ_of_le short)).symm
  rw [counted, List.cons_append, bind_of_ok (octet_cons _ _), bind_of_ok (take_append size rest)]

/-! ## Rows -/

theorem inRow_nil : InRow form [] [] := ⟨[], .nil, rfl⟩

theorem InRow.cons (first : form a lead) (later : InRow form as bs) :
    InRow form (a :: as) (lead ++ bs) := by
  obtain ⟨pieces, each, rfl⟩ := later
  exact ⟨lead :: pieces, .cons first each, rfl⟩

theorem InRow.single (only : form a lead) : InRow form [a] lead :=
  ⟨[lead], .cons only .nil, (List.append_nil lead).symm⟩

/-- A row of values that are written in one way each. -/
theorem inRow_iff {encode : α → Bytes} {proper : α → Prop} :
    InRow (fun a lead => lead = encode a ∧ proper a) as bs ↔
      bs = as.flatMap encode ∧ ∀ a ∈ as, proper a := by
  constructor
  · rintro ⟨pieces, each, rfl⟩
    induction each with
    | nil => exact ⟨rfl, nofun⟩
    | cons first later ih =>
        obtain ⟨rfl, here⟩ := first
        rw [List.flatten_cons, List.flatMap_cons, ih.1]
        exact ⟨rfl, List.forall_mem_cons.2 ⟨here, ih.2⟩⟩
  · rintro ⟨rfl, proper⟩
    induction as with
    | nil => exact inRow_nil
    | cons a as ih =>
        obtain ⟨here, later⟩ := List.forall_mem_cons.1 proper
        exact (ih later).cons ⟨rfl, here⟩

theorem InRow.exists_form (row : InRow form as bs) (member : a ∈ as) : ∃ lead, form a lead := by
  obtain ⟨pieces, each, -⟩ := row
  induction each with
  | nil => cases member
  | cons first later ih =>
      rcases List.mem_cons.1 member with rfl | member
      · exact ⟨_, first⟩
      · exact ih member

theorem Takes.times (takes : r.Takes form) (n : Nat) :
    (r.times n).Takes fun as lead => as.length = n ∧ InRow form as lead where
  reads := by
    rintro as lead ⟨rfl, pieces, each, rfl⟩ rest
    induction each with
    | nil => rfl
    | cons first later ih =>
        rw [List.flatten_cons, List.append_assoc, List.length_cons, Read.times,
          bind_of_ok (takes.reads first _), bind_of_ok ih]
        rfl
  allows := by
    induction n with
    | zero =>
        intro bs rest as reads
        cases reads
        exact ⟨[], ⟨rfl, inRow_nil⟩, rfl⟩
    | succ n ih =>
        intro bs rest as reads
        obtain ⟨a, mid, first, later⟩ := exists_of_bind_apply reads
        obtain ⟨as', mid', second, last⟩ := exists_of_bind_apply later
        cases last
        obtain ⟨lead, allowed, rfl⟩ := takes.allows first
        obtain ⟨behind, ⟨count, row⟩, rfl⟩ := ih second
        exact ⟨lead ++ behind, ⟨congrArg (· + 1) count, row.cons allowed⟩,
          (List.append_assoc ..).symm⟩

/-- What stands behind a row that goes on starts with the next value. -/
theorem Takes.exists_next (takes : r.Takes form) {bs : List α} {front front' tail : Bytes}
    (row : InRow form as front) (longer : InRow form bs front')
    (same : front ++ tail = front' ++ rest) (more : as.length < bs.length) :
    ∃ b next behind, form b next ∧ tail = next ++ behind := by
  obtain ⟨pieces, each, rfl⟩ := row
  obtain ⟨pieces', each', rfl⟩ := longer
  induction each generalizing bs pieces' with
  | nil =>
      cases each' with
      | nil => cases more
      | cons first later =>
          rw [List.flatten_cons, List.append_assoc] at same
          exact ⟨_, _, _, first, same⟩
  | cons first later ih =>
      cases each' with
      | nil => cases more
      | cons first' later' =>
          rw [List.flatten_cons, List.flatten_cons, List.append_assoc, List.append_assoc] at same
          obtain ⟨-, -, same⟩ := takes.unique first first' same
          exact ih (Nat.lt_of_succ_lt_succ more) _ later' same

theorem InRow.mul_length_le {k : Nat}
    (least : ∀ {a : α} {lead : Bytes}, form a lead → k ≤ lead.length)
    (row : InRow form as bs) : k * as.length ≤ bs.length := by
  obtain ⟨pieces, each, rfl⟩ := row
  induction each with
  | nil => exact Nat.le_refl _
  | cons first later ih =>
      have here := least first
      rw [List.length_cons, List.flatten_cons, List.length_append, Nat.mul_succ]
      omega

/-! ## Rows that are the whole input -/

/-- A row that was not empty took a byte for each value, so that there is only one way to cut it. -/
theorem Takes.row_unique (takes : r.Takes form)
    (pos : ∀ {a : α} {lead : Bytes}, form a lead → 0 < lead.length) {bs : List α}
    {pieces pieces' : List Bytes} (row : List.Forall₂ form as pieces)
    (other : List.Forall₂ form bs pieces') (same : pieces.flatten = pieces'.flatten) :
    as = bs ∧ pieces = pieces' := by
  induction row generalizing bs pieces' with
  | nil =>
      cases other with
      | nil => exact ⟨rfl, rfl⟩
      | cons first later =>
          rw [List.flatten_nil, List.flatten_cons] at same
          have empty := (List.append_eq_nil_iff.1 same.symm).1
          exact absurd empty (List.ne_nil_of_length_pos (pos first))
  | cons first later ih =>
      cases other with
      | nil =>
          rw [List.flatten_nil, List.flatten_cons] at same
          exact absurd (List.append_eq_nil_iff.1 same).1 (List.ne_nil_of_length_pos (pos first))
      | cons first' later' =>
          obtain ⟨rfl, rfl, behind⟩ := takes.unique first first' same
          obtain ⟨rfl, rfl⟩ := ih later' behind
          exact ⟨rfl, rfl⟩

section

variable (takes : r.Takes form) (pos : ∀ {a : α} {lead : Bytes}, form a lead → 0 < lead.length)

theorem allWithin_nil (fuel : Nat) : r.allWithin fuel [] = .ok [] [] := by
  cases fuel <;> rfl

theorem allWithin_cons (fuel : Nat) (b : UInt8) (bs : Bytes) :
    r.allWithin (fuel + 1) (b :: bs) =
      (r >>= fun a => (a :: ·) <$> r.allWithin fuel) (b :: bs) := by
  simp only [map_eq_bind]
  rfl

include takes pos

/-- Each value takes a byte, so that there are no more of them than bytes. -/
theorem Takes.allWithin_eq {m n : Nat} (enough : bs.length ≤ m) (enough' : bs.length ≤ n) :
    r.allWithin m bs = r.allWithin n bs := by
  induction m generalizing n bs with
  | zero =>
      obtain rfl := List.length_eq_zero_iff.1 (Nat.le_zero.1 enough)
      rw [allWithin_nil, allWithin_nil]
  | succ m ih =>
      cases bs with
      | nil => rw [allWithin_nil, allWithin_nil]
      | cons b bs =>
          cases n with
          | zero => cases enough'
          | succ n =>
              rw [allWithin_cons, allWithin_cons]
              simp only [bind, EStateM.bind]
              split
              · rename_i a rest reads
                obtain ⟨lead, allowed, whole⟩ := takes.allows reads
                have shorter := congrArg List.length whole
                rw [List.length_append] at shorter
                have taken := pos allowed
                have same : r.allWithin m rest = r.allWithin n rest := ih (by omega) (by omega)
                simp only [Functor.map, EStateM.map, same]
              · rfl

theorem Takes.all_cons (first : form a lead) (rest : Bytes) :
    r.all (lead ++ rest) = ((a :: ·) <$> r.all) rest := by
  have taken := pos first
  obtain ⟨b, lead, rfl⟩ := List.exists_cons_of_length_pos taken
  have reads : r (b :: (lead ++ rest)) = .ok a rest := takes.reads first rest
  have enough : rest.length ≤ (lead ++ rest).length := by simp
  have same := takes.allWithin_eq pos enough (Nat.le_refl rest.length)
  rw [Read.all, List.cons_append, List.length_cons, allWithin_cons, bind_of_ok reads]
  simp only [Functor.map, EStateM.map, same, Read.all]

/-- Behind a row, the rest is read as it is read by itself. -/
theorem Takes.all_append (row : InRow form as lead) (rest : Bytes) :
    r.all (lead ++ rest) = ((as ++ ·) <$> r.all) rest := by
  obtain ⟨pieces, each, rfl⟩ := row
  induction each with
  | nil =>
      simp only [List.flatten_nil, List.nil_append, Functor.map, EStateM.map]
      cases r.all rest <;> rfl
  | cons first later ih =>
      rw [List.flatten_cons, List.append_assoc, takes.all_cons pos first]
      simp only [Functor.map, EStateM.map, ih]
      cases r.all rest <;> rfl

/-- What is read until nothing is left was a row, to the last byte. -/
theorem Takes.all_eq_ok_iff : r.all bs = .ok as rest ↔ rest = [] ∧ InRow form as bs := by
  constructor
  · intro reads
    induction len : bs.length using Nat.strongRecOn generalizing bs as with
    | ind n ih =>
        cases bs with
        | nil =>
            cases reads
            exact ⟨rfl, inRow_nil⟩
        | cons b bs =>
            rw [Read.all, List.length_cons, allWithin_cons] at reads
            obtain ⟨a, mid, first, later⟩ := exists_of_bind_apply reads
            obtain ⟨as', last, rfl⟩ := of_map later
            obtain ⟨lead, allowed, whole⟩ := takes.allows first
            have shorter := congrArg List.length whole
            rw [List.length_append] at shorter
            have taken := pos allowed
            rw [List.length_cons] at len shorter
            have fuel : mid.length ≤ bs.length := by omega
            rw [takes.allWithin_eq pos fuel (Nat.le_refl _)] at last
            obtain ⟨rfl, row⟩ := ih mid.length (by omega) last rfl
            exact ⟨rfl, whole ▸ row.cons allowed⟩
  · rintro ⟨rfl, row⟩
    have reads := takes.all_append pos row []
    rw [List.append_nil] at reads
    rw [reads]
    simp only [Functor.map, EStateM.map, Read.all, allWithin_nil, List.append_nil]

end

end BinaryLog.Wire.Read
