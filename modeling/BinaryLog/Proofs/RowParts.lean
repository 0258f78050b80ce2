/-
# BinaryLog.Proofs.RowParts -- the parts of the payload of a rows event

A payload is divided into extra data, whose length the event gives, the number of columns in any of
its packed forms, a bitmap with a bit for every column, for an update a second one, and the images
of the rows (`Rows.Division`).  The reader takes a division apart into its parts
(`Rows.Division.read_payload`) and accepts nothing that has none (`Rows.Division.exists_of_read`).

The length of the extra data is known, no packed form is the beginning of another, and the number of
columns counts the bytes of the bitmaps.  So a payload can be divided in one way only
(`Rows.Division.unique`), and every byte of it belongs to one part (`RowsEvent.rows_partition`).
-/
import BinaryLog.Event.Rows
import BinaryLog.Proofs.Forms
import BinaryLog.Proofs.Grammars
import Mathlib.Algebra.Order.Floor.Div

namespace BinaryLog

set_option autoImplicit false

open Wire Read PackedInt

theorem Bitmap.ceilDiv_eq_size (n : Nat) : n ⌈/⌉ 8 = size n :=
  Nat.ceilDiv_eq_add_pred_div ..

theorem Wire.Read.takes_packed32 : packed32.Takes fun n lead => Packs n.toNat lead where
  reads := by
    intro n lead packs rest
    have reads := unpacks_packed32.number packs n.toNat_lt rest
    rwa [UInt32.ofNat_toNat] at reads
  allows := by
    intro bs rest m reads
    -- bytes that are cut off within an integer, or that begin with a marker, are refused
    rcases packed_cases (2 ^ 32) bs with cut | ⟨rule, rest', refused⟩ | number
    · rw [unpacks_packed32.cutOff cut] at reads
      cases reads
    · rw [unpacks_packed32.refused refused] at reads
      cases reads
    · obtain ⟨n, lead, rest', packs, small, rfl⟩ := number
      rw [unpacks_packed32.number packs small, EStateM.Result.ok.injEq] at reads
      obtain ⟨rfl, rfl⟩ := reads
      exact ⟨lead, by rwa [UInt32.toNat_ofNat_of_lt' small], rfl⟩

namespace Rows

/-- The parts of a payload.  Only an update has a bitmap of its own for the images after it. -/
@[ext]
structure Division (change : RowChange) where
  extra : Bytes
  count : UInt32
  form : Bytes
  before : Bytes
  after : Bytes
  images : Bytes
  packs : Packs count.toNat form
  length_before : before.length = count.toNat ⌈/⌉ 8
  length_after : after.length = if change = .update then count.toNat ⌈/⌉ 8 else 0

namespace Division

variable {change : RowChange} {bs rest : Bytes} {r : Rows} {n : Nat}

def payload (p : Division change) : Bytes :=
  p.extra ++ (p.form ++ (p.before ++ (p.after ++ p.images)))

def rows (p : Division change) : Rows where
  extraData := p.extra
  columnCount := p.count
  before := p.before
  after := if change = .update then p.after else p.before
  images := p.images

theorem rows_of_update (p : Division change) (update : change = .update) :
    p.rows = ⟨p.extra, p.count, p.before, p.after, p.images⟩ := by
  rw [rows, if_pos update]

theorem rows_of_other (p : Division change) (other : change ≠ .update) :
    p.rows = ⟨p.extra, p.count, p.before, p.before, p.images⟩ := by
  rw [rows, if_neg other]

theorem length_rows_after (p : Division change) :
    p.rows.after.length = p.count.toNat ⌈/⌉ 8 := by
  by_cases update : change = .update
  · rw [p.rows_of_update update, p.length_after, if_pos update]
  · rw [p.rows_of_other update, p.length_before]

theorem read_payload (p : Division change) :
    Rows.read p.extra.length change p.payload = .ok p.rows [] := by
  have before := p.length_before
  have after := p.length_after
  rw [Bitmap.ceilDiv_eq_size] at before after
  rw [payload, Rows.read, bind_of_ok (take_append rfl _),
    bind_of_ok (takes_packed32.reads p.packs _), bind_of_ok (take_append before _)]
  by_cases update : change = .update
  · rw [if_pos update] at after ⊢
    rw [bind_of_ok (take_append after _), p.rows_of_update update]
    rfl
  · rw [if_neg update] at after ⊢
    rw [List.length_eq_zero_iff.1 after, p.rows_of_other update]
    rfl

theorem exists_of_read (reads : Rows.read n change bs = .ok r rest) :
    ∃ p : Division change, p.extra.length = n ∧ bs = p.payload ∧ r = p.rows := by
  obtain ⟨extra, bs₁, first, reads⟩ := exists_of_bind_apply reads
  obtain ⟨count, bs₂, second, reads⟩ := exists_of_bind_apply reads
  obtain ⟨before, bs₃, third, reads⟩ := exists_of_bind_apply reads
  obtain ⟨whole, length⟩ := append_of_take first
  obtain ⟨form, packs, whole₁⟩ := takes_packed32.allows second
  obtain ⟨whole₂, length_before⟩ := append_of_take third
  rw [← Bitmap.ceilDiv_eq_size] at length_before
  -- without a second bitmap the images begin right behind the first
  by_cases update : change = .update
  · simp only [if_pos update] at reads
    obtain ⟨after, bs₄, fourth, done⟩ := exists_of_bind_apply reads
    cases done
    obtain ⟨whole₃, length_after⟩ := append_of_take fourth
    rw [← Bitmap.ceilDiv_eq_size] at length_after
    let p : Division change := ⟨extra, count, form, before, after, bs₄, packs, length_before, by
      rw [if_pos update, length_after]⟩
    refine ⟨p, length, ?_, (p.rows_of_update update).symm⟩
    rw [payload, whole₃, whole₂, ← whole₁, whole]
  · simp only [if_neg update] at reads
    cases reads
    let p : Division change := ⟨extra, count, form, before, [], bs₃, packs, length_before, by
      rw [if_neg update, List.length_nil]⟩
    refine ⟨p, length, ?_, (p.rows_of_other update).symm⟩
    rw [payload, List.nil_append, whole₂, ← whole₁, whole]

/-- The number of columns is cut off in one way, and all other lengths follow from it. -/
theorem unique {p q : Division change} (length : p.extra.length = q.extra.length)
    (same : p.payload = q.payload) : p = q := by
  obtain ⟨extra, same⟩ := List.append_inj same length
  obtain ⟨count, form, same⟩ := takes_packed32.unique p.packs q.packs same
  have sized : p.before.length = q.before.length := by rw [p.length_before, q.length_before, count]
  obtain ⟨before, same⟩ := List.append_inj same sized
  have sized : p.after.length = q.after.length := by rw [p.length_after, q.length_after, count]
  obtain ⟨after, images⟩ := List.append_inj same sized
  exact Division.ext extra count form before after images

end Division

end Rows

open Rows

namespace RowsEvent

/-- The parts are those of the payload.  The length that the event gives of its extra data is two
bytes too long, its own. -/
structure Divided (e : RowsEvent) {change : RowChange} (p : Division change) : Prop where
  extra : e.extraDataLength.toNat = p.extra.length + 2
  payload : e.payload = p.payload

variable {e : RowsEvent} {change : RowChange} {r : Rows}

theorem rows_eq_ok_iff :
    e.rows change = .ok r ↔ ∃ p : Division change, e.Divided p ∧ r = p.rows := by
  unfold rows
  constructor
  · intro given
    split at given
    · cases given
    · rename_i enough
      obtain ⟨rest, reads⟩ := value_eq_ok_iff.1 given
      obtain ⟨p, length, payload, parts⟩ := Division.exists_of_read reads
      exact ⟨p, ⟨by omega, payload⟩, parts⟩
  · rintro ⟨p, ⟨extra, payload⟩, rfl⟩
    have length : e.extraDataLength.toNat - 2 = p.extra.length := by omega
    rw [if_neg (by omega), length, payload]
    exact value_eq_ok_iff.2 ⟨[], p.read_payload⟩

/-- **The parts of an event are read if its payload can be divided into such parts, and in the one
way in which it can.** -/
theorem rows_partition (e : RowsEvent) (change : RowChange) :
    ((∃ r, e.rows change = .ok r) ↔ ∃ p : Division change, e.Divided p) ∧
    ∀ p : Division change, e.Divided p →
      e.rows change = .ok p.rows ∧ ∀ q : Division change, e.Divided q → q = p := by
  refine ⟨?_, fun p divided => ⟨rows_eq_ok_iff.2 ⟨p, divided, rfl⟩, fun q other => ?_⟩⟩
  · constructor
    · rintro ⟨r, given⟩
      obtain ⟨p, divided, -⟩ := rows_eq_ok_iff.1 given
      exact ⟨p, divided⟩
    · rintro ⟨p, divided⟩
      exact ⟨_, rows_eq_ok_iff.2 ⟨p, divided, rfl⟩⟩
  · refine Division.unique ?_ (other.payload.symm.trans divided.payload)
    have lengths := other.extra.symm.trans divided.extra
    omega

namespace Example

/-- Nine columns, in a form that is longer than it needs to be, and as many bytes for bitmaps as an
update has. -/
def nine : RowsEvent :=
  { tableId := 108, flags := 1, extraDataLength := 4,
    payload := [0xaa, 0xbb, 0xfc, 9, 0, 0xff, 1, 0x0f, 0, 7] }

def updated : Division .update :=
  ⟨[0xaa, 0xbb], 9, [0xfc, 9, 0], [0xff, 1], [0x0f, 0], [7], .two (by decide), by decide,
    by decide⟩

def written : Division .write :=
  ⟨[0xaa, 0xbb], 9, [0xfc, 9, 0], [0xff, 1], [], [0x0f, 0, 7], .two (by decide), by decide,
    by decide⟩

end Example

/-- The second bitmap of an update is the first part of the images where rows were written.  Extra
data of a length that does not count itself leaves no division. -/
theorem rows_partition_of_nine :
    Example.nine.rows .update = .ok ⟨[0xaa, 0xbb], 9, [0xff, 1], [0x0f, 0], [7]⟩ ∧
      (∀ q : Division .update, Example.nine.Divided q → q = Example.updated) ∧
      Example.nine.rows .write = .ok ⟨[0xaa, 0xbb], 9, [0xff, 1], [0xff, 1], [0x0f, 0, 7]⟩ ∧
      ¬ ∃ r, { Example.nine with extraDataLength := 1 }.rows .update = .ok r := by
  obtain ⟨-, divided⟩ := rows_partition Example.nine .update
  obtain ⟨-, divided'⟩ := rows_partition Example.nine .write
  obtain ⟨given, only⟩ := divided Example.updated ⟨rfl, rfl⟩
  obtain ⟨given', -⟩ := divided' Example.written ⟨rfl, rfl⟩
  refine ⟨given, only, given', fun succeeds => ?_⟩
  obtain ⟨accepted, -⟩ := rows_partition { Example.nine with extraDataLength := 1 } .update
  obtain ⟨p, extra, -⟩ := accepted.1 succeeds
  cases extra

end RowsEvent

end BinaryLog
