/-
# BinaryLog.Proofs.StrictEvents -- an event decoded from its bytes, strictly

The bytes of an event are cut at the end of its header and in front of its checksum.  Both lie
within it, and in this order, because it is at least as long as the options in force demand
(`decodeOrdinary_eq`).  A format description may bring a checksum where none was in force; it has
the room for it, being longer than a header (`decodeFormatDescription_eq`).

The header of a payload and the payload itself are split off where there are enough bytes, which is
asked first (`follows_splitTo`).
-/
import BinaryLog.Proofs.StrictBodies

namespace BinaryLog.Strict

set_option autoImplicit false

open Wire

/-! ## Headers of payloads -/

def tag : Strict Error (Option UInt32) := fun bs =>
  (packed32.run bs).map fun
    | .ok n rest => .ok (some n) rest
    | .error (.incomplete _ _) rest => .ok none rest
    | .error e rest => .error (.parse e) rest

def fieldValue {α : Type} (type : UInt32) (value : Strict ReadError α) : Strict Error α :=
  value.adapt fun
    | .incomplete _ needed => .truncatedHeader (.valueIncomplete type needed)
    | e => .parse e

def unknownField (type length : UInt32) : Strict Error Bytes := do
  let bs ← unread
  if bs.length < length.toNat then
    fail (.truncatedHeader (.unknownFieldTooLong type length bs.length))
  else splitTo length.toNat

def field : Strict Error PayloadField.Next := do
  match ← tag with
  | none => return .inputEnd
  | some type =>
    if type = 0 then return .endMark
    else match ← tag with
      | none => return .inputEnd
      | some length =>
        if type = 1 then
          let n ← fieldValue type packed32
          return .field (.payloadSize n)
        else if type = 2 then
          let code ← fieldValue type packed32
          return .field (.compressionType code)
        else if type = 3 then
          let n ← fieldValue type packed64
          return .field (.uncompressedSize n)
        else
          let content ← unknownField type length
          return .field (.unknown type content)

def fieldsWithin : Nat → Strict Error (List PayloadField × Bool)
  | 0 => return ([], false)
  | fuel + 1 => do
    match ← field with
    | .inputEnd => return ([], false)
    | .endMark => return ([], true)
    | .field f =>
      let (fs, closed) ← fieldsWithin fuel
      return (f :: fs, closed)

def fields : Strict Error (List PayloadField × Bool) := fun bs => fieldsWithin (bs.length + 1) bs

def payloadHeader : Strict Error PayloadHeader := (fun (fs, _) => .ofFields fs) <$> fields

def payload (size : UInt32) : Strict Error Bytes := do
  if Transaction.maxPayload < size then fail (.payloadTooLarge size)
  else
    let bs ← unread
    if bs.length < size.toNat then fail (.truncatedPayload size bs.length)
    else splitTo size.toNat

theorem follows_tag : Follows tag PayloadField.readTag where
  same := by
    intro bs short
    rw [tag, follows_packed32.run_eq short, PayloadField.readTag]
    cases Read.packed32 bs with
    | ok n rest => rfl
    | error e rest => cases e <;> rfl
  shrinks := by
    intro bs short
    have fewer := follows_packed32.shrinks short
    unfold PayloadField.readTag
    cases reads : Read.packed32 bs with
    | ok n rest =>
        rw [reads] at fewer
        exact fewer
    | error e rest =>
        rw [reads] at fewer
        cases e <;> exact fewer

theorem follows_fieldValue {α : Type} {s : Strict ReadError α} {r : Read α} (follows : Follows s r)
    (type : UInt32) : Follows (fieldValue type s) (PayloadField.readValue type r) :=
  follows.adapt _

/-- A buffer is split where it has enough bytes, and else refused. -/
theorem follows_splitTo {n : Nat} {e : Nat → Error} {r : Decode Bytes}
    (gives : ∀ bs : Bytes, n ≤ bs.length → r bs = .ok (bs.take n) (bs.drop n))
    (refuses : ∀ bs : Bytes, bs.length < n → r bs = .error (e bs.length) bs) :
    Follows (do
      let bs ← unread
      if bs.length < n then fail (e bs.length) else splitTo n) r where
  same := by
    intro bs _
    rw [bind_of_ok (s := unread) rfl]
    rcases Nat.lt_or_ge bs.length n with few | there
    · rw [if_pos few, refuses bs few]
      rfl
    · rw [if_neg (Nat.not_lt.2 there), gives bs there, splitTo_of_le there]
  shrinks := by
    intro bs _
    rcases Nat.lt_or_ge bs.length n with few | there
    · rw [refuses bs few]
      exact Nat.le_refl _
    · rw [gives bs there]
      exact (List.drop_suffix n bs).length_le

theorem follows_unknownField (type length : UInt32) :
    Follows (unknownField type length) (PayloadField.readUnknown type length) := by
  refine follows_splitTo (e := fun n => .truncatedHeader (.unknownFieldTooLong type length n))
    (fun bs there => if_pos (List.length_take_of_le there)) fun bs few => if_neg ?_
  rw [List.length_take]
  omega

theorem follows_field : Follows field PayloadField.read := by
  refine follows_tag.bind fun type => ?_
  cases type with
  | none => exact follows_pure _
  | some type =>
      dsimp only
      split
      · exact follows_pure _
      · refine follows_tag.bind fun length => ?_
        cases length with
        | none => exact follows_pure _
        | some length =>
            dsimp only
            split
            · exact (follows_fieldValue follows_packed32 type).bind fun _ => follows_pure _
            split
            · exact (follows_fieldValue follows_packed32 type).bind fun _ => follows_pure _
            split
            · exact (follows_fieldValue follows_packed64 type).bind fun _ => follows_pure _
            · exact (follows_unknownField type length).bind fun _ => follows_pure _

theorem follows_fieldsWithin (fuel : Nat) :
    Follows (fieldsWithin fuel) (PayloadField.readWithin fuel) := by
  induction fuel with
  | zero => exact follows_pure _
  | succ fuel ih =>
      refine follows_field.bind fun next => ?_
      cases next with
      | inputEnd => exact follows_pure _
      | endMark => exact follows_pure _
      | field f => exact ih.bind fun _ => follows_pure _

theorem follows_payloadHeader : Follows payloadHeader PayloadHeader.read :=
  Follows.map
    { same := fun short => (follows_fieldsWithin _).same short
      shrinks := fun short => (follows_fieldsWithin _).shrinks short } _

theorem follows_payload (size : UInt32) :
    Follows (payload size) (Transaction.readPayload size) := by
  unfold payload
  by_cases large : Transaction.maxPayload < size
  · rw [if_pos large]
    have refused : Transaction.readPayload size = fun bs => .error (.payloadTooLarge size) bs :=
      funext (Transaction.readPayload_of_large large)
    rw [refused]
    exact follows_throw _
  · rw [if_neg large]
    have fits : size ≤ Transaction.maxPayload := UInt32.not_lt.1 large
    refine follows_splitTo (e := .truncatedPayload size) (fun bs there => ?_) fun bs few => ?_
    · exact Transaction.readPayload_of_whole fits there
    · exact Transaction.readPayload_of_short fits few

/-! ## Events -/

def ofRead {α : Type} (s : Strict ReadError α) : Strict Error α := s.adapt .parse

def bodyWith (payload : Strict Error Transaction) : EventType → Strict Error Body
  | .query => ofRead (.query <$> query)
  | .stop => return .stop
  | .rotate => ofRead (.rotate <$> rotate)
  | .intvar => ofRead (.intvar <$> intvar)
  | .rand => ofRead (.rand <$> rand)
  | .userVar => ofRead (.userVar <$> userVar)
  | .xid => ofRead (.xid <$> xid)
  | .tableMap => ofRead (.tableMap <$> tableMap)
  | .incident => ofRead (.incident <$> incident)
  | .heartbeat => ofRead (.heartbeat <$> heartbeat)
  | .rowsQuery => ofRead (.rowsQuery <$> rowsQuery)
  | .writeRows => ofRead (.writeRows <$> rows)
  | .updateRows => ofRead (.updateRows <$> rows)
  | .deleteRows => ofRead (.deleteRows <$> rows)
  | .gtid => ofRead (.gtid <$> gtid)
  | .anonymousGtid => ofRead (.anonymousGtid <$> gtid)
  | .previousGtids => ofRead (.previousGtids <$> previousGtids)
  | .transactionPayload => .transactionPayload <$> payload
  | _ => .unknown <$> ofRead rest

def verifyChecksum (o : Options) (raw : Bytes) (position : Nat) : Option (Except Error UInt32) := do
  match ← (word UInt32).run (← raw.slice? position raw.length) with
  | .error e _ => return .error (.parse e)
  | .ok expected _ =>
    if o.validate then
      let actual := Crc32.checksum (← raw.slice? 0 position)
      if expected ≠ actual then return .error (.checksumMismatch expected actual)
      else return .ok expected
    else return .ok expected

def trailer (d : FormatDescription) (rest : Bytes) (o : Options) (raw : Bytes) :
    Option (Except Error UInt32) :=
  if d.checksumEnabled then
    if rest.length < Crc32.size then some (.error (.invalidFormat .missingChecksum))
    else do verifyChecksum o raw (← sub? raw.length Crc32.size)
  else some (.ok 0)

def decodeFormatDescription (o : Options) (header : EventHeader) (raw : Bytes) :
    Option (Except Error Event × Options) := do
  match ← formatDescription.run (← raw.slice? EventHeader.size raw.length) with
  | .error e _ => return (.error (.parse e), o)
  | .ok d rest =>
    match ← trailer d rest o raw with
    | .error e => return (.error e, o)
    | .ok crc32 =>
      return (.ok { header, body := .formatDescription d, crc32 },
        { o with checksum := d.checksumEnabled })

def decodeOrdinary (payload : Strict Error Transaction) (o : Options) (header : EventHeader)
    (raw : Bytes) : Option (Except Error Event) :=
  if o.checksum then do
    let position ← sub? raw.length Crc32.size
    match ← verifyChecksum o raw position with
    | .error e => return .error e
    | .ok crc32 =>
      let read ← (bodyWith payload header.type).value (← raw.slice? EventHeader.size position)
      return (fun body => { header, body, crc32 }) <$> read
  else do
    let read ← (bodyWith payload header.type).value (← raw.slice? EventHeader.size raw.length)
    return (fun body => { header, body, crc32 := 0 }) <$> read

def decodeWith (payload : Strict Error Transaction) (o : Options) (header : EventHeader)
    (raw : Bytes) : Option (Except Error Event × Options) :=
  if header.type = .formatDescription then decodeFormatDescription o header raw
  else do return (← decodeOrdinary payload o header raw, o)

theorem follows_ofRead {α : Type} {s : Strict ReadError α} {r : Read α} (follows : Follows s r) :
    Follows (ofRead s) (Decode.ofRead r) := follows.adapt Error.parse

section Decoding

variable {inner : Strict Error Transaction} {inner' : Decode Transaction}
  (follows : Follows inner inner')

include follows

theorem follows_bodyWith (t : EventType) :
    Follows (bodyWith inner t) (Body.readWith inner' t) := by
  cases t
  case query => exact follows_ofRead (follows_query.map _)
  case stop => exact follows_pure _
  case rotate => exact follows_ofRead (follows_rotate.map _)
  case intvar => exact follows_ofRead (follows_intvar.map _)
  case rand => exact follows_ofRead (follows_rand.map _)
  case userVar => exact follows_ofRead (follows_userVar.map _)
  case xid => exact follows_ofRead (follows_xid.map _)
  case tableMap => exact follows_ofRead (follows_tableMap.map _)
  case incident => exact follows_ofRead (follows_incident.map _)
  case heartbeat => exact follows_ofRead (follows_heartbeat.map _)
  case rowsQuery => exact follows_ofRead (follows_rowsQuery.map _)
  case writeRows => exact follows_ofRead (follows_rows.map _)
  case updateRows => exact follows_ofRead (follows_rows.map _)
  case deleteRows => exact follows_ofRead (follows_rows.map _)
  case gtid => exact follows_ofRead (follows_gtid.map _)
  case anonymousGtid => exact follows_ofRead (follows_gtid.map _)
  case previousGtids => exact follows_ofRead (follows_previousGtids.map _)
  case transactionPayload => exact follows.map _
  all_goals exact (follows_ofRead follows_rest).map _

theorem bodyWith_value (t : EventType) {bs : Bytes} (short : bs.length < 2 ^ 63) :
    (bodyWith inner t).value bs = some ((Body.readWith inner' t).value bs) := by
  rw [value, (follows_bodyWith follows t).run_eq short, Option.map_some, Decode.value]
  cases Body.readWith inner' t bs <;> rfl

omit follows in
/-- Four bytes are behind the position, and it lies within the event. -/
theorem verifyChecksum_eq (o : Options) {raw : Bytes} (there : Crc32.size ≤ raw.length) :
    verifyChecksum o raw (raw.length - Crc32.size) = some (BinaryLog.verifyChecksum o raw) := by
  have position : raw.length - Crc32.size ≤ raw.length := Nat.sub_le _ _
  have four : (raw.drop (raw.length - Crc32.size)).length = Word.width UInt32 := by
    rw [List.length_drop, Nat.sub_sub_self there]
    rfl
  have trailer : (word UInt32).run (raw.drop (raw.length - Crc32.size)) =
      some (.ok (Word.ofBytes (raw.drop (raw.length - Crc32.size))) []) := by
    rw [run, word_of_le (Nat.le_of_eq four.symm), ← four, List.take_length, List.drop_length]
  unfold verifyChecksum BinaryLog.verifyChecksum
  rw [Bytes.slice?_from position]
  simp only [Option.bind_eq_bind, Option.bind_some, trailer]
  cases o.validate with
  | false => rfl
  | true =>
      rw [Bytes.slice?_of_le (Nat.zero_le _) position]
      simp only [if_true, Option.bind_some, List.drop_zero, true_and]
      split <;> rfl

omit follows in
theorem trailer_eq (d : FormatDescription) (rest : Bytes) (o : Options) {raw : Bytes}
    (there : Crc32.size ≤ raw.length) : trailer d rest o raw = some (d.trailer rest o raw) := by
  unfold trailer FormatDescription.trailer
  split
  · split
    · rfl
    · rw [sub?_of_le there]
      exact verifyChecksum_eq o there
  · rfl

omit follows in
theorem decodeFormatDescription_eq (o : Options) (header : EventHeader) {raw : Bytes}
    (there : EventHeader.size ≤ raw.length) (short : raw.length < 2 ^ 63) :
    decodeFormatDescription o header raw =
      some (BinaryLog.decodeFormatDescription o header raw) := by
  have behind : (raw.drop EventHeader.size).length < 2 ^ 63 :=
    Nat.lt_of_le_of_lt (List.drop_suffix _ raw).length_le short
  unfold decodeFormatDescription BinaryLog.decodeFormatDescription
  rw [Bytes.slice?_from there]
  simp only [Option.bind_eq_bind, Option.bind_some, follows_formatDescription.run_eq behind]
  cases FormatDescription.read (raw.drop EventHeader.size) with
  | error e rest => rfl
  | ok d rest =>
      have room : Crc32.size ≤ raw.length := Nat.le_trans (by decide) there
      simp only [trailer_eq d rest o room, Option.bind_some]
      cases d.trailer rest o raw <;> rfl

/-- Where a checksum is in force, the event is as long as a header and a checksum. -/
theorem decodeOrdinary_eq {o : Options} (header : EventHeader) {raw : Bytes}
    (least : o.leastLength ≤ raw.length) (short : raw.length < 2 ^ 63) :
    decodeOrdinary inner o header raw = some (BinaryLog.decodeOrdinary inner' o header raw) := by
  unfold decodeOrdinary BinaryLog.decodeOrdinary
  by_cases checked : o.checksum = true
  · have both : EventHeader.size + Crc32.size ≤ raw.length := by
      rwa [Options.leastLength, if_pos checked] at least
    have ordered : EventHeader.size ≤ raw.length - Crc32.size := Nat.le_sub_of_add_le both
    have position : raw.length - Crc32.size ≤ raw.length := Nat.sub_le _ _
    have trailer : Crc32.size ≤ raw.length := Nat.le_trans (Nat.le_add_left _ _) both
    rw [if_pos checked, if_pos checked, sub?_of_le trailer]
    simp only [Option.bind_eq_bind, Option.bind_some, verifyChecksum_eq o trailer]
    cases BinaryLog.verifyChecksum o raw with
    | error e => rfl
    | ok crc32 =>
        have part :
            ((raw.take (raw.length - Crc32.size)).drop EventHeader.size).length < 2 ^ 63 := by
          rw [List.length_drop, List.length_take]
          omega
        simp only [Bytes.slice?_of_le ordered position, Option.bind_some,
          bodyWith_value follows header.type part]
        rfl
  · have there : EventHeader.size ≤ raw.length := Nat.le_trans o.size_le_leastLength least
    have part : (raw.drop EventHeader.size).length < 2 ^ 63 :=
      Nat.lt_of_le_of_lt (List.drop_suffix _ raw).length_le short
    rw [if_neg checked, if_neg checked, Bytes.slice?_from there]
    simp only [Option.bind_eq_bind, Option.bind_some, bodyWith_value follows header.type part]
    rfl

omit follows in
/-- Of too few bytes no checksum could be cut off. -/
example (header : EventHeader) :
    decodeOrdinary inner { checksum := true } header [1, 2, 3] = none := rfl

theorem decodeWith_eq {o : Options} (header : EventHeader) {raw : Bytes}
    (least : o.leastLength ≤ raw.length) (short : raw.length < 2 ^ 63) :
    decodeWith inner o header raw = some (Event.decodeWith inner' o header raw) := by
  unfold decodeWith Event.decodeWith
  split
  · exact decodeFormatDescription_eq o header (Nat.le_trans o.size_le_leastLength least) short
  · rw [decodeOrdinary_eq follows header least short]
    rfl

end Decoding

end BinaryLog.Strict
