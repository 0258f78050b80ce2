/-
# BinaryLog.Proofs.Tables -- the payload written for a table, and the table that is read of it

A payload is a front part, which tells of everything how long it is, and the null bitmap, which
comes last and is as long as the reader finds that it must be (`TableMap.encode_eq`).  Servers may
have put more behind it.  What is read of the front part and of whatever stands behind it is the
table with its bitmap cut off there (`TableMap.table_eq_ok_iff`).  So a bitmap that is too long is
cut short, one that is too short is filled up with bytes that are none of its own, or misses them,
and just the one that has a bit for every column comes back (`TableMap.table_of_encode`).
-/
import BinaryLog.Event.TableMap
import BinaryLog.Proofs.Grammars
import BinaryLog.Proofs.Packed
import Mathlib.Algebra.Order.Floor.Div
import Mathlib.GroupTheory.GroupAction.Ring

namespace BinaryLog.TableMap

set_option autoImplicit false

open Wire Read

/-! ## Names -/

/-- A name behind its length, and the byte that ends it. -/
def nameBytes (name : String) : Bytes :=
  counted (Text.Utf8.encode name) ++ [0]

def TooLong (name : String) : Prop := 255 < (Text.Utf8.encode name).length

instance (name : String) : Decidable (TooLong name) := inferInstanceAs (Decidable (_ < _))

theorem encodeName_eq (name : String) : encodeName name =
    if TooLong name then .error (.nameTooLong (Text.Utf8.encode name).length)
    else .ok (nameBytes name) := by
  unfold encodeName
  by_cases long : TooLong name
  · rw [if_pos long]
    exact if_neg (Nat.not_le_of_lt long)
  · rw [if_neg long]
    exact if_pos (Nat.le_of_not_lt long)

theorem readName_append {name : String} (short : ¬ TooLong name) (rest : Bytes) :
    readName (nameBytes name ++ rest) = .ok (Text.Utf8.encode name) rest := by
  have last : Read.take 1 ([0] ++ rest) = .ok [0] rest := take_append (by rfl) rest
  rw [nameBytes, List.append_assoc, readName, bind_counted (Nat.le_of_not_lt short),
    bind_of_ok last]
  rfl

/-! ## Payloads -/

/-- Everything in front of the bitmap. -/
def lead (t : TableMap) : Bytes :=
  nameBytes t.schemaName ++ (nameBytes t.tableName ++
    ((PackedInt.ofNat t.columnTypes.length).encode ++ (t.columnTypes ++
      ((PackedInt.ofNat t.columnMeta.length).encode ++ t.columnMeta))))

/-- Lengths that can be written. -/
structure Fits (t : TableMap) : Prop where
  schemaName : ¬ TooLong t.schemaName
  tableName : ¬ TooLong t.tableName
  columnTypes : t.columnTypes.length < 2 ^ 64
  columnMeta : t.columnMeta.length < 2 ^ 64

theorem encode_eq (t : TableMap) : t.encode =
    if TooLong t.schemaName then .error (.nameTooLong (Text.Utf8.encode t.schemaName).length)
    else if TooLong t.tableName then .error (.nameTooLong (Text.Utf8.encode t.tableName).length)
    else .ok (t.lead ++ t.nullBitmap) := by
  rw [encode, encodeName_eq, encodeName_eq]
  split
  · rfl
  split
  · rfl
  simp only [lead, List.append_assoc]
  rfl

/-- What is written was short enough, and is the front part and the bitmap. -/
theorem encode_eq_ok {t : TableMap} {payload : Bytes} (written : t.encode = .ok payload) :
    ¬ TooLong t.schemaName ∧ ¬ TooLong t.tableName ∧ payload = t.lead ++ t.nullBitmap := by
  rw [encode_eq] at written
  split at written
  · cases written
  split at written
  · cases written
  cases written
  exact ⟨‹_›, ‹_›, rfl⟩

theorem encode_eq_error_iff (t : TableMap) :
    (∃ rule, t.encode = .error rule) ↔ TooLong t.schemaName ∨ TooLong t.tableName := by
  rw [encode_eq]
  by_cases schema : TooLong t.schemaName
  · rw [if_pos schema]
    exact ⟨fun _ => .inl schema, fun _ => ⟨_, rfl⟩⟩
  rw [if_neg schema]
  by_cases table : TooLong t.tableName
  · rw [if_pos table]
    exact ⟨fun _ => .inr table, fun _ => ⟨_, rfl⟩⟩
  rw [if_neg table]
  exact ⟨nofun, fun long => (long.elim schema table).elim⟩

/-- Behind the front part there is only the bitmap to be read. -/
theorem readParts_append {t : TableMap} (fits : t.Fits) (tail : Bytes) :
    readParts (t.lead ++ tail) =
      ((Parts.mk (Text.Utf8.encode t.schemaName) (Text.Utf8.encode t.tableName) t.columnTypes
        t.columnMeta ·) <$> Read.take (Bitmap.size t.columnTypes.length)) tail := by
  have types : (UInt64.ofNat t.columnTypes.length).toNat = t.columnTypes.length :=
    UInt64.toNat_ofNat_of_lt' fits.columnTypes
  have params : (UInt64.ofNat t.columnMeta.length).toNat = t.columnMeta.length :=
    UInt64.toNat_ofNat_of_lt' fits.columnMeta
  have count (rest : Bytes) : packed64 ((PackedInt.ofNat t.columnTypes.length).encode ++ rest) =
      .ok (.ofNat t.columnTypes.length) rest := packed64_encode _ rest
  have length (rest : Bytes) := PackedInt.read_encode
    (PackedInt.proper_ofUInt64 (.ofNat t.columnMeta.length)) rest
  simp only [lead, List.append_assoc]
  rw [readParts, bind_of_ok (readName_append fits.schemaName _),
    bind_of_ok (readName_append fits.tableName _), bind_of_ok (count _),
    bind_of_ok (take_append types.symm _), PackedInt.ofNat, bind_of_ok (length _),
    PackedInt.toUInt64?_ofUInt64]
  -- the length of the parameters is no marker, so that the reader goes on
  simp only
  rw [bind_of_ok (take_append params.symm tail), types, map_eq_bind]

/-- One number counts the types and, rounded up to bytes, the bits behind them. -/
theorem exists_count_of_readParts {bs rest : Bytes} {p : Parts}
    (reads : readParts bs = .ok p rest) : ∃ count : UInt64,
      p.columnTypes.length = count.toNat ∧ p.nullBitmap.length = Bitmap.size count.toNat := by
  obtain ⟨schemaName, _, -, later⟩ := exists_of_bind_apply reads
  obtain ⟨tableName, _, -, later⟩ := exists_of_bind_apply later
  obtain ⟨count, _, -, later⟩ := exists_of_bind_apply later
  obtain ⟨columnTypes, _, types, later⟩ := exists_of_bind_apply later
  obtain ⟨metaLength, _, -, later⟩ := exists_of_bind_apply later
  cases given : metaLength.toUInt64? with
  | none =>
      rw [given] at later
      cases later
  | some n =>
      rw [given] at later
      obtain ⟨columnMeta, _, -, later⟩ := exists_of_bind_apply later
      obtain ⟨nullBitmap, _, bitmap, done⟩ := exists_of_bind_apply later
      cases done
      exact ⟨count, (append_of_take types).2, (append_of_take bitmap).2⟩

/-! ## Tables -/

theorem ofParts_encode (t : TableMap) (bitmap : Bytes) :
    ofParts (.mk (Text.Utf8.encode t.schemaName) (Text.Utf8.encode t.tableName) t.columnTypes
      t.columnMeta bitmap) = .ok { t with nullBitmap := bitmap } := by
  rw [ofParts, Text.Utf8.decode_encode, Text.Utf8.decode_encode]
  rfl

theorem table_eq_ok_iff {t t' : TableMap} (fits : t.Fits) (tableId : BitVec 48) (flags : UInt16)
    (tail : Bytes) :
    (TableMapEvent.mk tableId flags (t.lead ++ tail)).table = .ok t' ↔
      Bitmap.size t.columnTypes.length ≤ tail.length ∧
        t' = { t with nullBitmap := tail.take (Bitmap.size t.columnTypes.length) } := by
  unfold TableMapEvent.table Read.value
  rw [readParts_append fits, map_eq_bind]
  by_cases enough : Bitmap.size t.columnTypes.length ≤ tail.length
  · have taken : (tail.take (Bitmap.size t.columnTypes.length)).length =
        Bitmap.size t.columnTypes.length := List.length_take_of_le enough
    have reads := take_append taken (tail.drop (Bitmap.size t.columnTypes.length))
    rw [List.take_append_drop] at reads
    rw [bind_of_ok reads]
    show ofParts _ = _ ↔ _
    rw [ofParts_encode, Except.ok.injEq]
    exact ⟨fun same => ⟨enough, same.symm⟩, fun same => same.2.symm⟩
  · cases reads : Read.take (Bitmap.size t.columnTypes.length) tail with
    | ok bitmap rest =>
        obtain ⟨rfl, length⟩ := append_of_take reads
        rw [List.length_append] at enough
        omega
    | error e rest =>
        rw [bind_of_error reads]
        exact ⟨nofun, fun both => absurd both.1 enough⟩

/-- **A table comes back if its bitmap has a bit for every column, rounded up to bytes.**  Behind
the payload there may be anything.  Only names can keep a table from being written: the two lengths
that have 64 bits are those of lists that fit into memory. -/
theorem table_of_encode (t : TableMap) :
    ((∃ rule, t.encode = .error rule) ↔
      255 < (Text.Utf8.encode t.schemaName).length ∨ 255 < (Text.Utf8.encode t.tableName).length) ∧
    (t.columnTypes.length < 2 ^ 64 → t.columnMeta.length < 2 ^ 64 →
      ∀ payload, t.encode = .ok payload → ∀ tableId flags more,
        (TableMapEvent.mk tableId flags (payload ++ more)).table = .ok t ↔
          t.nullBitmap.length = t.columnTypes.length ⌈/⌉ 8) := by
  refine ⟨t.encode_eq_error_iff, fun types params payload written tableId flags more => ?_⟩
  obtain ⟨schema, table, rfl⟩ := encode_eq_ok written
  have fits : t.Fits := ⟨schema, table, types, params⟩
  have size : t.columnTypes.length ⌈/⌉ 8 = Bitmap.size t.columnTypes.length :=
    Nat.ceilDiv_eq_add_pred_div ..
  rw [List.append_assoc, table_eq_ok_iff fits, size]
  constructor
  · -- the table that was read has the bitmap that was cut off, so that the given one is that long
    rintro ⟨enough, same⟩
    have bitmap : t.nullBitmap = _ := congrArg nullBitmap same
    rw [bitmap]
    exact List.length_take_of_le enough
  · intro length
    rw [← length, List.take_left]
    exact ⟨by simp, rfl⟩

namespace Example

def members : TableMap :=
  { schemaName := "db1", tableName := "t1", columnTypes := [3, 15, 252],
    columnMeta := [0x2c, 1, 2], nullBitmap := [0b110] }

end Example

/-- With a bit for each of three columns the table comes back, whatever stands behind.  With no
bitmap it does not, although there are bytes behind that are taken for one. -/
theorem table_of_encode_of_three_columns :
    (∃ payload, Example.members.encode = .ok payload ∧ ∀ tableId flags more,
      (TableMapEvent.mk tableId flags (payload ++ more)).table = .ok Example.members) ∧
    ∃ payload, { Example.members with nullBitmap := [] }.encode = .ok payload ∧
      ∀ tableId flags more, (TableMapEvent.mk tableId flags (payload ++ more)).table ≠
        .ok { Example.members with nullBitmap := [] } := by
  refine ⟨⟨_, rfl, fun tableId flags more => ?_⟩, _, rfl, fun tableId flags more same => ?_⟩
  · obtain ⟨-, comesBack⟩ := table_of_encode Example.members
    exact (comesBack (by decide) (by decide) _ rfl tableId flags more).2 (by decide)
  · obtain ⟨-, comesBack⟩ := table_of_encode { Example.members with nullBitmap := [] }
    have length := (comesBack (by decide) (by decide) _ rfl tableId flags more).1 same
    exact absurd length (by decide)

end BinaryLog.TableMap
