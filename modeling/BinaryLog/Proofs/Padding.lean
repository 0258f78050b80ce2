/-
# BinaryLog.Proofs.Padding -- the bits of a bitmap behind the last column

A bitmap is a number whose bits are those of the columns, least significant first
(`Bitmap.get_eq_testBit`).  Its last byte may have bits for which there is no column.  The readers
take them as they are, and who asks for one column is told what its bit says, or that there is none
if the bitmap has ended.  So up to seven indexes behind the last column are answered from these
bits.  None of them is set if the number has no more bits than there are columns, and only then
(`Bitmap.Phantoms`).  This goes for the bitmaps of rows events as for those of tables
(`phantoms_of_accepted`, `fourth_of_three_present`).
-/
import BinaryLog.Proofs.RowParts
import BinaryLog.Proofs.Tables
import Mathlib.Data.Nat.Bitwise

namespace BinaryLog

set_option autoImplicit false

open Wire

/-! ## Bitmaps as numbers -/

namespace Bitmap

theorem get_eq_testBit (bitmap : Bytes) (i : Nat) :
    get bitmap i = (Bytes.ofLE bitmap).testBit i := by
  induction bitmap generalizing i with
  | nil => exact (Nat.zero_testBit i).symm
  | cons b bitmap ih =>
      have digits : Bytes.ofLE (b :: bitmap) = 2 ^ 8 * Bytes.ofLE bitmap + b.toNat :=
        Nat.add_comm ..
      rw [digits, Nat.testBit_two_pow_mul_add _ b.toNat_lt]
      by_cases first : i < 8
      · rw [if_pos first, get, Nat.div_eq_of_lt first, Nat.mod_eq_of_lt first]
        rfl
      · -- the byte is one of those behind the first, at the same place in it
        obtain ⟨j, rfl⟩ := Nat.exists_eq_add_of_le (Nat.le_of_not_lt first)
        rw [if_neg first, Nat.add_sub_cancel_left, ← ih, get, get, Nat.add_mod_left,
          Nat.add_div_left j (by decide), List.getElem?_cons_succ]

/-- What a bitmap for `n` columns answers, also for the indexes behind them: whatever bits fill up
its last byte. -/
structure Phantoms (n : Nat) (bitmap : Bytes) (present : Nat → Bool) : Prop where
  bit : ∀ i, present i = (Bytes.ofLE bitmap).testBit i
  within : ∀ i, present i = true → i < 8 * (n ⌈/⌉ 8)
  none_iff : (∀ i, n ≤ i → present i = false) ↔ Bytes.ofLE bitmap < 2 ^ n

theorem phantoms_of_length {n : Nat} {bitmap : Bytes} (length : bitmap.length = n ⌈/⌉ 8) :
    Phantoms n bitmap (get bitmap) where
  bit := get_eq_testBit bitmap
  within := by
    intro i present
    by_contra beyond
    rw [← length] at beyond
    have ends : bitmap[i / 8]? = none := List.getElem?_eq_none (by omega)
    rw [get, ends] at present
    cases present
  none_iff := by
    simp only [get_eq_testBit]
    constructor
    · intro clear
      apply Nat.lt_pow_two_of_testBit
      exact clear
    · intro small i behind
      have below : 2 ^ n ≤ 2 ^ i := Nat.pow_le_pow_right Nat.two_pos behind
      exact Nat.testBit_lt_two_pow (Nat.lt_of_lt_of_le small below)

end Bitmap

open Bitmap

/-! ## Rows events and tables -/

theorem RowsEvent.length_of_rows {e : RowsEvent} {change : RowChange} {r : Rows}
    (given : e.rows change = .ok r) :
    r.before.length = r.columnCount.toNat ⌈/⌉ 8 ∧ r.after.length = r.columnCount.toNat ⌈/⌉ 8 := by
  obtain ⟨p, -, rfl⟩ := rows_eq_ok_iff.1 given
  exact ⟨p.length_before, p.length_rows_after⟩

theorem TableMapEvent.length_of_table {e : TableMapEvent} {t : TableMap} (given : e.table = .ok t) :
    t.nullBitmap.length = t.columnCount ⌈/⌉ 8 := by
  obtain ⟨parts, reads, named⟩ := exists_of_bind_eq_ok given
  obtain ⟨schemaName, -, named⟩ := exists_of_bind_eq_ok named
  obtain ⟨tableName, -, done⟩ := exists_of_bind_eq_ok named
  cases done
  obtain ⟨rest, here⟩ := Read.value_eq_ok_iff.1 (eq_ok_of_mapError reads)
  obtain ⟨count, types, bitmap⟩ := TableMap.exists_count_of_readParts here
  rw [TableMap.columnCount, types, bitmap, ceilDiv_eq_size]

/-- **Columns behind the last one are there if they have a bit in the last byte of the bitmap.**
There are none if that bitmap, taken as a number, has no more bits than there are columns. -/
theorem phantoms_of_accepted (e : RowsEvent) (change : RowChange) (m : TableMapEvent) :
    (∀ r, e.rows change = .ok r →
      Phantoms r.columnCount.toNat r.before r.beforePresent ∧
        Phantoms r.columnCount.toNat r.after r.afterPresent) ∧
    ∀ t, m.table = .ok t → Phantoms t.columnCount t.nullBitmap t.nullable := by
  refine ⟨fun r given => ?_, fun t given => ?_⟩
  · obtain ⟨before, after⟩ := RowsEvent.length_of_rows given
    exact ⟨phantoms_of_length before, phantoms_of_length after⟩
  · exact phantoms_of_length (TableMapEvent.length_of_table given)

namespace Example

/-- An update of three columns, with this byte for each of the bitmaps, and its parts. -/
def threeUpdated (b : UInt8) : RowsEvent × Rows :=
  ({ tableId := 108, flags := 1, extraDataLength := 2, payload := [3, b, b] },
    { extraData := [], columnCount := 3, before := [b], after := [b], images := [] })

/-- A table without a name that has three columns, and this byte for the bitmap. -/
def threeMapped (b : UInt8) : TableMapEvent × TableMap :=
  ({ tableId := 108, flags := 1, payload := [0, 0, 0, 0, 3, 3, 15, 252, 0, b] },
    { schemaName := "", tableName := "", columnTypes := [3, 15, 252], columnMeta := [],
      nullBitmap := [b] })

theorem threeUpdated_rows (b : UInt8) :
    (threeUpdated b).1.rows .update = .ok (threeUpdated b).2 := rfl

theorem threeMapped_table (b : UInt8) : (threeMapped b).1.table = .ok (threeMapped b).2 := rfl

end Example

/-- Bits for three columns say nothing of a fourth, and a byte that is filled up says that there are
eight. -/
theorem phantoms_of_accepted_three :
    ((∀ i, 3 ≤ i → (Example.threeUpdated 0b111).2.beforePresent i = false) ∧
      (∀ i, 3 ≤ i → (Example.threeUpdated 0b111).2.afterPresent i = false) ∧
      ∀ i, 3 ≤ i → (Example.threeMapped 0b111).2.nullable i = false) ∧
    (¬ ∀ i, 3 ≤ i → (Example.threeUpdated 0xff).2.beforePresent i = false) ∧
      ∀ i, (Example.threeMapped 0xff).2.nullable i = true → i < 8 := by
  obtain ⟨rows, table⟩ :=
    phantoms_of_accepted (Example.threeUpdated 0b111).1 .update (Example.threeMapped 0b111).1
  obtain ⟨before, after⟩ := rows _ (Example.threeUpdated_rows 0b111)
  have nullable := table _ (Example.threeMapped_table 0b111)
  obtain ⟨rows', table'⟩ :=
    phantoms_of_accepted (Example.threeUpdated 0xff).1 .update (Example.threeMapped 0xff).1
  obtain ⟨filled, -⟩ := rows' _ (Example.threeUpdated_rows 0xff)
  refine ⟨⟨before.none_iff.2 (by decide), after.none_iff.2 (by decide),
    nullable.none_iff.2 (by decide)⟩, fun none => ?_, ?_⟩
  · exact absurd (filled.none_iff.1 none) (by decide)
  · exact (table' _ (Example.threeMapped_table 0xff)).within

/-- A fourth of three columns is present in a rows event, and nullable in a table. -/
theorem fourth_of_three_present :
    (Example.threeUpdated 0xff).1.rows .update = .ok (Example.threeUpdated 0xff).2 ∧
      (Example.threeUpdated 0xff).2.columnCount = 3 ∧
      (Example.threeUpdated 0xff).2.beforePresent 3 = true ∧
      (Example.threeUpdated 0xff).2.afterPresent 3 = true ∧
      (Example.threeMapped 0xff).1.table = .ok (Example.threeMapped 0xff).2 ∧
      (Example.threeMapped 0xff).2.columnCount = 3 ∧
      (Example.threeMapped 0xff).2.nullable 3 = true :=
  ⟨rfl, rfl, rfl, rfl, rfl, rfl, rfl⟩

end BinaryLog
