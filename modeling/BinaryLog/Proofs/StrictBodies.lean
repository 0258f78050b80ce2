/-
# BinaryLog.Proofs.StrictBodies -- bodies, and what is decoded of them on demand, read strictly

Each read of a body is written once more with operations that have bounds, in the order in which
they are made, and follows the read it is one of.  Most of them are rows of primitive reads.  Where
an operation is within its bounds for a reason that lies elsewhere, the reason is:

* a value in a status block is read again from where it starts, by the difference of what was and
  what is left, and what is left is the shorter one (`append_of_strings`);
* a column count that the types of as many columns follow is smaller than the buffer, so that it
  can be rounded up (`follows_tableParts`), and it is the number of the types;
* the end of an interval of transactions lies behind its start, so that it is not zero
  (`follows_intervals`).
-/
import BinaryLog.Proofs.Strict
import BinaryLog.Proofs.Tables
import BinaryLog.Payload.Events

namespace BinaryLog.Strict

set_option autoImplicit false

open Wire

/-! ## Headers and bodies -/

def header : Strict ReadError EventHeader := do
  let timestamp ← word UInt32
  let typeCode ← word UInt8
  let serverId ← word UInt32
  let eventLength ← word UInt32
  let nextPosition ← word UInt32
  let flags ← word UInt16
  return { timestamp, typeCode, serverId, eventLength, nextPosition, flags := .truncate flags }

def query : Strict ReadError Query := do
  let proxyId ← word UInt32
  let executionTime ← word UInt32
  let schemaLength ← word UInt8
  let errorCode ← word UInt16
  let statusVarsLength ← word UInt16
  let statusVars ← take statusVarsLength.toNat
  let schema ← take schemaLength.toNat
  let _ ← take 1
  let statement ← rest
  return { proxyId, executionTime, schemaLength, errorCode, statusVarsLength,
           statusVars, schema, statement }

def rotate : Strict ReadError Rotate := do
  let position ← word UInt64
  let nextFile ← rest
  return { position, nextFile }

def heartbeat : Strict ReadError Heartbeat := Heartbeat.mk <$> rest

def xid : Strict ReadError Xid := Xid.mk <$> word UInt64

def incident : Strict ReadError Incident := do
  let type ← word UInt16
  let length ← word UInt8
  let text ← take length.toNat
  return { type, text }

def rowsQuery : Strict ReadError RowsQuery := do
  let _ ← word UInt8
  RowsQuery.mk <$> rest

def intvar : Strict ReadError Intvar := do
  let bits ← word UInt8
  match Flags.ofBits? bits with
  | none => fail (.violation (.intvarKey bits))
  | some key =>
    let value ← word UInt64
    return { key, value }

def rand : Strict ReadError Rand := do
  let seed1 ← word UInt64
  let seed2 ← word UInt64
  return { seed1, seed2 }

def userVar : Strict ReadError UserVar := do
  let length ← word UInt32
  let name ← take length.toNat
  let isNull ← word UInt8
  let raw ← rest
  return { name, isNull, raw }

def tableMap : Strict ReadError TableMapEvent := do
  let tableId ← word (BitVec 48)
  let flags ← word UInt16
  let payload ← rest
  return { tableId, flags, payload }

def rows : Strict ReadError RowsEvent := do
  let tableId ← word (BitVec 48)
  let flags ← word UInt16
  let extraDataLength ← word UInt16
  let payload ← rest
  return { tableId, flags, extraDataLength, payload }

def order : Strict ReadError (UInt8 × UInt64 × UInt64) := do
  if ← total (Read.holds 17) then
    let type ← word UInt8
    let lastCommitted ← word UInt64
    let sequenceNumber ← word UInt64
    return (type, lastCommitted, sequenceNumber)
  else return (0, 0, 0)

def gtid : Strict ReadError GtidEvent := do
  let flags ← word UInt8
  let sid ← word Sid
  let number ← word UInt64
  let (timestampType, lastCommitted, sequenceNumber) ← order
  let _ ← rest
  return { flags, sid, number, timestampType, lastCommitted, sequenceNumber }

def previousGtids : Strict ReadError PreviousGtids := PreviousGtids.mk <$> rest

/-- The bytes in front of the first zero byte. -/
def version (bs : Bytes) : Option Bytes :=
  match bs.findIdx? (· == 0) with
  | some i => bs.slice? 0 i
  | none => some bs

def lengths : Strict ReadError Bytes := do
  let bs ← unread
  let index ← sub? EventType.formatDescription.code.toNat 1
  match bs[index]? with
  | none => fail (.violation (.postHeaderTableTooShort bs.length))
  | some entry =>
    if entry.toNat < FormatDescription.fixedLength then
      fail (.violation (.postHeaderTableLength entry))
    else take (entry.toNat - FormatDescription.fixedLength)

def formatDescription : Strict ReadError FormatDescription := do
  let binlogVersion ← word UInt16
  let serverVersion ← take FormatDescription.versionLength
  let serverVersion ← total (Read.text (← version serverVersion))
  let created ← word UInt32
  let headerLength ← word UInt8
  let postHeaderLengths ← lengths
  let checksumFlag ← wordOr UInt8 0
  return { binlogVersion, serverVersion, created, headerLength, postHeaderLengths, checksumFlag }

theorem follows_header : Follows header EventHeader.read :=
  (follows_word _).bind fun _ => (follows_word _).bind fun _ => (follows_word _).bind fun _ =>
  (follows_word _).bind fun _ => (follows_word _).bind fun _ => (follows_word _).bind fun _ =>
  follows_pure _

theorem follows_query : Follows query Query.read :=
  (follows_word _).bind fun _ => (follows_word _).bind fun _ => (follows_word _).bind fun _ =>
  (follows_word _).bind fun _ => (follows_word _).bind fun _ => (follows_take _).bind fun _ =>
  (follows_take _).bind fun _ => (follows_take _).bind fun _ => follows_rest.bind fun _ =>
  follows_pure _

theorem follows_rotate : Follows rotate Rotate.read :=
  (follows_word _).bind fun _ => follows_rest.bind fun _ => follows_pure _

theorem follows_heartbeat : Follows heartbeat Heartbeat.read := follows_rest.map _

theorem follows_xid : Follows xid Xid.read := (follows_word _).map _

theorem follows_incident : Follows incident Incident.read :=
  (follows_word _).bind fun _ => (follows_word _).bind fun _ => (follows_take _).bind fun _ =>
  follows_pure _

theorem follows_rowsQuery : Follows rowsQuery RowsQuery.read :=
  (follows_word _).bind fun _ => follows_rest.map _

theorem follows_intvar : Follows intvar Intvar.read := by
  refine (follows_word _).bind fun bits => ?_
  cases (Flags.ofBits? bits : Option (Flags (0x03 : UInt8))) with
  | none => exact follows_fail _
  | some key => exact (follows_word _).bind fun _ => follows_pure _

theorem follows_rand : Follows rand Rand.read :=
  (follows_word _).bind fun _ => (follows_word _).bind fun _ => follows_pure _

theorem follows_userVar : Follows userVar UserVar.read :=
  (follows_word _).bind fun _ => (follows_take _).bind fun _ => (follows_word _).bind fun _ =>
  follows_rest.bind fun _ => follows_pure _

theorem follows_tableMap : Follows tableMap TableMapEvent.read :=
  (follows_word _).bind fun _ => (follows_word _).bind fun _ => follows_rest.bind fun _ =>
  follows_pure _

theorem follows_rows : Follows rows RowsEvent.read :=
  (follows_word _).bind fun _ => (follows_word _).bind fun _ => (follows_word _).bind fun _ =>
  follows_rest.bind fun _ => follows_pure _

theorem follows_order : Follows order GtidEvent.readOrder := by
  refine (follows_total fun _ => Nat.le_refl _).bind fun holds => ?_
  cases holds with
  | true =>
      exact (follows_word _).bind fun _ => (follows_word _).bind fun _ =>
        (follows_word _).bind fun _ => follows_pure _
  | false => exact follows_pure _

theorem follows_gtid : Follows gtid GtidEvent.read :=
  (follows_word _).bind fun _ => (follows_word _).bind fun _ => (follows_word _).bind fun _ =>
  follows_order.bind fun _ => follows_rest.bind fun _ => follows_pure _

theorem follows_previousGtids : Follows previousGtids PreviousGtids.read := follows_rest.map _

/-- What is cut off at the first zero byte lies within the bytes kept for the version. -/
theorem version_eq (bs : Bytes) : version bs = some (bs.takeWhile (· != 0)) := by
  have negated : (fun x : UInt8 => !(x != 0)) = (· == 0) := by
    funext x
    simp [bne]
  unfold version
  cases found : bs.findIdx? (· == 0) with
  | none =>
      rw [List.findIdx?_eq_none_iff] at found
      have all : bs.takeWhile (· != 0) = bs :=
        List.takeWhile_eq_self_iff.2 fun x member => by simp [bne, found x member]
      simp only [all]
  | some i =>
      obtain ⟨inside, first⟩ := List.findIdx?_eq_some_iff_findIdx_eq.1 found
      simp only [Bytes.slice?_of_le (Nat.zero_le i) (Nat.le_of_lt inside)]
      rw [List.takeWhile_eq_take_findIdx_not, negated, first, List.drop_zero]

theorem follows_lengths : Follows lengths FormatDescription.readTable where
  same := by
    intro bs short
    unfold lengths FormatDescription.readTable
    rw [bind_of_ok (s := unread) rfl, lift_bind (sub?_of_le (by decide))]
    cases bs[EventType.formatDescription.code.toNat - 1]? with
    | none => rfl
    | some entry =>
        by_cases low : entry.toNat < FormatDescription.fixedLength
        · simp only [if_pos low]
          rfl
        · simp only [if_neg low]
          exact (follows_take _).same short
  shrinks := by
    intro bs short
    unfold FormatDescription.readTable
    cases bs[EventType.formatDescription.code.toNat - 1]? with
    | none => exact Nat.le_refl _
    | some entry =>
        by_cases low : entry.toNat < FormatDescription.fixedLength
        · simp only [if_pos low]
          exact Nat.le_refl _
        · simp only [if_neg low]
          exact (follows_take _).shrinks short

theorem follows_formatDescription : Follows formatDescription FormatDescription.read := by
  refine (follows_word _).bind fun _ => (follows_take _).bind fun serverVersion => ?_
  rw [lift_bind (version_eq serverVersion)]
  exact (follows_text _).bind fun _ => (follows_word _).bind fun _ => (follows_word _).bind fun _ =>
    follows_lengths.bind fun _ => (follows_wordOr _ _).bind fun _ => follows_pure _

/-! ## Status variables -/

/-- A string with its length byte. -/
def short : Strict ReadError Bytes := do
  let n ← word UInt8
  let content ← take n.toNat
  return n :: content

def strings (count : Nat) (terminated : Bool) : Strict ReadError Bytes := do
  let parts ← short.times count
  let last ← take (if terminated then 1 else 0)
  return parts.flatten ++ last

/-- Strings are read from a copy of the buffer to find out how long they are together. -/
def stringBytes (count : Nat) (terminated : Bool) : Strict ReadError Bytes := do
  let input ← unread
  match ← (strings count terminated).copied with
  | .error e _ => fail e
  | .ok _ rest => take (← sub? input.length rest.length)

def layout : StatusVar.Layout → Strict ReadError Bytes
  | .fixed n => take n
  | .strings count terminated => stringBytes count terminated

def statusValue (key : UInt8) : Strict ReadError StatusVar :=
  if key = 0x00 then do
    let bits ← word UInt32
    return .flags (.truncate bits)
  else if key = 0x01 then .sqlMode <$> word UInt64
  else if key = 0x04 then do
    let client ← word UInt16
    let connection ← word UInt16
    let server ← word UInt16
    return .charset client connection server
  else if key = 0x0c then do
    let count ← word UInt8
    let names ← (untilByte 0 false).times count.toNat
    return .updatedDatabases names
  else match StatusVar.layout? key with
    | some l => .other key <$> layout l
    | none => fail (.violation (.statusVarKey key))

def statusVar : Strict ReadError StatusVar := do statusValue (← word UInt8)

def statusVars : Strict ReadError (List StatusVar) := statusVar.all

theorem follows_short : Follows short StatusVar.readShort :=
  (follows_word _).bind fun _ => (follows_take _).bind fun _ => follows_pure _

/-- A row of strings, read one after the other. -/
def readStrings (count : Nat) (terminated : Bool) : Read Bytes := do
  let parts ← StatusVar.readShort.times count
  let last ← Read.take (if terminated then 1 else 0)
  return parts.flatten ++ last

theorem follows_strings (count : Nat) (terminated : Bool) :
    Follows (strings count terminated) (readStrings count terminated) :=
  (follows_short.times count).bind fun _ => (follows_take _).bind fun _ => follows_pure _

theorem append_of_short {bs rest content : Bytes}
    (reads : StatusVar.readShort bs = .ok content rest) : content ++ rest = bs := by
  obtain ⟨n, mid, first, later⟩ := exists_of_bind_apply reads
  obtain ⟨tail, mid', second, last⟩ := exists_of_bind_apply later
  cases last
  rw [← Read.append_of_word first, ← (Read.append_of_take second).1, Word.bytes_octet]
  rfl

theorem append_of_times {count : Nat} :
    ∀ {bs rest : Bytes} {parts : List Bytes},
      StatusVar.readShort.times count bs = .ok parts rest → parts.flatten ++ rest = bs := by
  induction count with
  | zero =>
      intro bs rest parts reads
      cases reads
      rfl
  | succ count ih =>
      intro bs rest parts reads
      obtain ⟨part, mid, first, later⟩ := exists_of_bind_apply reads
      obtain ⟨parts', mid', second, last⟩ := exists_of_bind_apply later
      cases last
      rw [← append_of_short first, ← ih second, List.flatten_cons, List.append_assoc]

/-- What a row of strings gives is what it takes. -/
theorem append_of_strings {count : Nat} {terminated : Bool} {bs rest content : Bytes}
    (reads : readStrings count terminated bs = .ok content rest) : content ++ rest = bs := by
  obtain ⟨parts, mid, first, later⟩ := exists_of_bind_apply reads
  obtain ⟨tail, mid', second, last⟩ := exists_of_bind_apply later
  cases last
  rw [← append_of_times first, ← (Read.append_of_take second).1, List.append_assoc]

/-- No more is left of a copy than the buffer has, and the difference is what the strings take. -/
theorem follows_stringBytes (count : Nat) (terminated : Bool) :
    Follows (stringBytes count terminated) (Read.atomically (readStrings count terminated)) where
  same := by
    intro bs short
    have copies : (strings count terminated).copied bs =
        some (.ok (readStrings count terminated bs) bs) := by
      rw [copied, (follows_strings count terminated).run_eq short, Option.map_some]
    rw [stringBytes, bind_of_ok (s := unread) rfl, bind_of_ok copies, Read.atomically]
    cases reads : readStrings count terminated bs with
    | error e rest => rfl
    | ok content rest =>
        obtain rfl := append_of_strings reads
        have length : content.length = (content ++ rest).length - rest.length := by simp
        have le : rest.length ≤ (content ++ rest).length := by
          rw [List.length_append]
          exact Nat.le_add_left _ _
        dsimp only
        rw [lift_bind (sub?_of_le le), (follows_take _).same short, Read.take_append length]
  shrinks := by
    intro bs _
    unfold Read.atomically
    cases reads : readStrings count terminated bs with
    | error e rest => exact Nat.le_refl _
    | ok content rest =>
        rw [← append_of_strings reads, List.length_append]
        exact Nat.le_add_left _ _

theorem follows_layout (l : StatusVar.Layout) : Follows (layout l) l.read := by
  cases l with
  | fixed n => exact follows_take n
  | strings count terminated => exact follows_stringBytes count terminated

theorem follows_statusValue (key : UInt8) :
    Follows (statusValue key) (StatusVar.readValue key) := by
  unfold statusValue StatusVar.readValue
  split
  · exact (follows_word _).bind fun _ => follows_pure _
  split
  · exact (follows_word _).map _
  split
  · exact (follows_word _).bind fun _ => (follows_word _).bind fun _ =>
      (follows_word _).bind fun _ => follows_pure _
  split
  · exact (follows_word _).bind fun _ => ((follows_untilByte _ _).times _).bind fun _ =>
      follows_pure _
  cases StatusVar.layout? key with
  | some l => exact (follows_layout l).map _
  | none => exact follows_fail _

theorem follows_statusVars : Follows statusVars StatusVar.readAll :=
  ((follows_word _).bind fun key => follows_statusValue key).all

/-! ## Tables, rows, user variables -/

def name : Strict ReadError Bytes := do
  let length ← word UInt8
  let name ← take length.toNat
  let _ ← take 1
  return name

/-- The parts of a table map, and the number of columns that it gives. -/
def tableParts : Strict ReadError (UInt64 × TableMap.Parts) := do
  let schemaName ← name
  let tableName ← name
  let count ← packed64
  let columnTypes ← take count.toNat
  let metaLength ← integer
  match metaLength.toUInt64? with
  | none => fail (.violation .columnMetaLength)
  | some length =>
    let columnMeta ← take length.toNat
    let rounded ← add? count.toNat 7
    let nullBitmap ← take (rounded / 8)
    return (count, { schemaName, tableName, columnTypes, columnMeta, nullBitmap })

/-- The table that a payload describes, of which the number of columns is asserted. -/
def table (e : TableMapEvent) : Option (Except Error TableMap) := do
  match ← tableParts.value e.payload with
  | .error e => return .error (.parse e)
  | .ok (count, parts) =>
    match TableMap.ofParts parts with
    | .error e => return .error e
    | .ok t =>
      guard (count.toNat = parts.columnTypes.length)
      return .ok t

def rowParts (extraLength : Nat) (change : RowChange) : Strict ReadError Rows := do
  let extraData ← take extraLength
  let columnCount ← packed32
  let rounded ← add? columnCount.toNat 7
  let before ← take (rounded / 8)
  let after ← if change = .update then take (rounded / 8) else pure before
  let images ← rest
  return { extraData, columnCount, before, after, images }

def rowsOf (e : RowsEvent) (change : RowChange) : Option (Except ReadError Rows) :=
  if e.extraDataLength.toNat < 2 then
    some (.error (.violation (.extraDataLength e.extraDataLength)))
  else do (rowParts (← sub? e.extraDataLength.toNat 2) change).value e.payload

def userVarValue : Strict ReadError UserVarValue := do
  let type ← word UInt8
  let charset ← word UInt32
  let length ← word UInt32
  let content ← take length.toNat
  let bits ← wordOr UInt8 0
  match Flags.ofBits? bits with
  | none => fail (.violation (.userVarFlags bits))
  | some flags => return { type, charset, content, flags }

def userVarOf (v : UserVar) : Option (Except ReadError (Option UserVarValue)) :=
  if v.isNull = 0 then do return some <$> (← userVarValue.value v.raw) else some (.ok none)

theorem follows_name : Follows name TableMap.readName :=
  (follows_word _).bind fun _ => (follows_take _).bind fun _ => (follows_take _).bind fun _ =>
  follows_pure _

/-- The count is that of the column types, which are all there. -/
theorem follows_tableParts :
    Follows tableParts ((fun p => (.ofNat p.columnTypes.length, p)) <$> TableMap.readParts) := by
  unfold tableParts TableMap.readParts
  simp only [map_bind]
  refine follows_name.bind fun schemaName => follows_name.bind fun tableName =>
    follows_packed64.bind fun count =>
      (follows_take _).bind_of fun {bs rest columnTypes} small takes => ?_
  -- the types of all columns were there, so that there are fewer than the buffer may have bytes
  obtain ⟨whole, length⟩ := Read.append_of_take takes
  have most : count.toNat + 7 < 2 ^ 64 := by
    have inside : columnTypes.length ≤ bs.length := by
      rw [← whole, List.length_append]
      omega
    omega
  refine follows_integer.bind fun metaLength => ?_
  cases metaLength.toUInt64? with
  | none => exact follows_fail _
  | some n =>
      simp only [map_bind]
      refine (follows_take _).bind fun columnMeta => ?_
      rw [lift_bind (add?_of_lt most)]
      refine (follows_take _).bind fun nullBitmap => ?_
      rw [map_pure, length, UInt64.ofNat_toNat]
      exact follows_pure _

/-- There are no more column types than a count can say. -/
theorem columnTypes_lt {bs rest : Bytes} {p : TableMap.Parts}
    (reads : TableMap.readParts bs = .ok p rest) : p.columnTypes.length < 2 ^ 64 := by
  obtain ⟨count, types, -⟩ := TableMap.exists_count_of_readParts reads
  rw [types]
  exact count.toNat_lt

/-- What is asserted of the number of columns holds. -/
theorem table_eq {e : TableMapEvent} (short : e.payload.length < 2 ^ 63) :
    table e = some e.table := by
  have value := follows_tableParts.value_eq short
  unfold table TableMapEvent.table
  rw [value]
  unfold Read.value
  rw [Read.map_eq_bind]
  cases reads : TableMap.readParts e.payload with
  | error fault rest =>
      rw [Read.bind_of_error reads]
      rfl
  | ok parts rest =>
      rw [Read.bind_of_ok reads]
      have counted : (UInt64.ofNat parts.columnTypes.length).toNat = parts.columnTypes.length :=
        UInt64.toNat_ofNat_of_lt' (columnTypes_lt reads)
      show (match TableMap.ofParts parts with
        | .error e => some (.error e)
        | .ok t =>
          guard ((UInt64.ofNat parts.columnTypes.length).toNat = _) >>= fun _ => some (.ok t)) =
          some (TableMap.ofParts parts)
      rw [counted]
      cases TableMap.ofParts parts with
      | error e => rfl
      | ok t =>
          have holds : guard (parts.columnTypes.length = parts.columnTypes.length) = some () :=
            if_pos rfl
          dsimp only
          rw [holds]
          rfl

theorem follows_rowParts (extraLength : Nat) (change : RowChange) :
    Follows (rowParts extraLength change) (Rows.read extraLength change) := by
  refine (follows_take _).bind fun extraData => follows_packed32.bind fun columnCount => ?_
  have small := columnCount.toNat_lt
  rw [lift_bind (add?_of_lt (by omega))]
  refine (follows_take _).bind fun before => ?_
  by_cases update : change = .update
  · simp only [if_pos update]
    exact (follows_take _).bind fun _ => follows_rest.bind fun _ => follows_pure _
  · simp only [if_neg update]
    exact (follows_pure _).bind fun _ => follows_rest.bind fun _ => follows_pure _

theorem rowsOf_eq {e : RowsEvent} (short : e.payload.length < 2 ^ 63) (change : RowChange) :
    rowsOf e change = some (e.rows change) := by
  unfold rowsOf RowsEvent.rows
  split
  · rfl
  · rename_i enough
    rw [sub?_of_le (Nat.not_lt.1 enough)]
    exact (follows_rowParts _ change).value_eq short

theorem follows_userVarValue : Follows userVarValue UserVarValue.read := by
  refine (follows_word _).bind fun _ => (follows_word _).bind fun _ =>
    (follows_word _).bind fun _ => (follows_take _).bind fun _ =>
      (follows_wordOr _ _).bind fun bits => ?_
  cases (Flags.ofBits? bits : Option (Flags (0x01 : UInt8))) with
  | none => exact follows_fail _
  | some flags => exact follows_pure _

theorem userVarOf_eq {v : UserVar} (short : v.raw.length < 2 ^ 63) :
    userVarOf v = some v.value := by
  unfold userVarOf UserVar.value
  split
  · rw [follows_userVarValue.value_eq short]
    rfl
  · rfl

/-! ## Sets of transactions -/

def intervals (last : UInt64) : Nat → Strict ReadError (List GtidInterval)
  | 0 => return []
  | n + 1 => do
    let start ← word UInt64
    let stop ← word UInt64
    if last < start ∧ start < stop then
      let inclusive ← sub? stop.toNat 1
      let more ← intervals stop n
      return { first := start, last := .ofNat inclusive } :: more
    else fail (.violation (.gtidInterval start stop last))

def range : Strict ReadError GtidRange := do
  let sid ← word Sid
  let count ← word UInt64
  let intervals ← intervals 0 count.toNat
  return { sid, intervals }

def ranges (seen : List Sid) : Nat → Strict ReadError (List GtidRange)
  | 0 => return []
  | n + 1 => do
    let range ← range
    if range.sid ∈ seen then fail (.violation (.duplicateSid range.sid))
    else
      let more ← ranges (range.sid :: seen) n
      return range :: more

def gtidSet : Strict ReadError GtidSet := do
  let count ← word UInt64
  GtidSet.mk <$> ranges [] count.toNat

/-- An interval that is not empty has an end behind zero. -/
theorem follows_intervals (n : Nat) : ∀ last : UInt64,
    Follows (intervals last n) (GtidRange.readIntervals last n) := by
  induction n with
  | zero => exact fun _ => follows_pure []
  | succ n ih =>
      intro last
      refine (follows_word _).bind fun start => (follows_word _).bind fun stop => ?_
      by_cases ordered : last < start ∧ start < stop
      · simp only [if_pos ordered]
        have pos : 1 ≤ stop.toNat :=
          Nat.lt_of_le_of_lt (Nat.zero_le _) (UInt64.lt_iff_toNat_lt.1 ordered.2)
        have before : UInt64.ofNat (stop.toNat - 1) = stop - 1 := by
          rw [UInt64.ofNat_sub pos, UInt64.ofNat_toNat]
          rfl
        rw [lift_bind (sub?_of_le pos), before]
        exact (ih stop).bind fun more => follows_pure _
      · simp only [if_neg ordered]
        exact follows_fail _

theorem follows_range : Follows range GtidRange.read :=
  (follows_word _).bind fun _ => (follows_word _).bind fun _ =>
    (follows_intervals _ _).bind fun _ => follows_pure _

theorem follows_ranges (n : Nat) : ∀ seen : List Sid,
    Follows (ranges seen n) (GtidSet.readRanges seen n) := by
  induction n with
  | zero => exact fun _ => follows_pure []
  | succ n ih =>
      intro seen
      refine follows_range.bind fun range => ?_
      by_cases again : range.sid ∈ seen
      · simp only [if_pos again]
        exact follows_fail _
      · simp only [if_neg again]
        exact (ih _).bind fun more => follows_pure _

theorem follows_gtidSet : Follows gtidSet GtidSet.read :=
  (follows_word _).bind fun _ => (follows_ranges _ _).map _

end BinaryLog.Strict
