/-
# BinaryLog.Proofs.Bounds -- decoding within bounds

Decoding an event, alone, from a stream or from a payload, written once more with operations that
have bounds.  An event that is cut off has a length of 32 bits, so that whatever a source brings,
no buffer is too long, and a payload that is taken is short enough for its events to be counted
(`Strict.bound_lt`).  Payloads within payloads go through level by level (`Strict.follows_tower`).

What an event keeps as bytes was read from the event, so it is no longer than that, and what is
decoded of it on demand is within bounds too (`Strict.onDemand_of_value`).  That is all a caller can
ask for (`Strict.within_bounds`).
-/
import BinaryLog.Proofs.Embedded
import BinaryLog.Proofs.Given
import BinaryLog.Proofs.Rereading
import BinaryLog.Proofs.StrictCutting
import BinaryLog.Proofs.StrictEvents

namespace BinaryLog

set_option autoImplicit false

open Wire

namespace Strict

/-! ## Single events and streams -/

def parseWith (payload : Strict Error Transaction) (o : Options) (raw : Bytes) :
    Option (Except Error Event × Options) := do
  match ← header.run raw with
  | .error e _ => return (.error (.parse e), o)
  | .ok header _ =>
    match header.checkLength o.leastLength with
    | .error e => return (.error e, o)
    | .ok () =>
      let length := raw.length
      if length ≠ header.eventLength.toNat then
        return (.error (.invalidFormat (.lengthMismatch header.eventLength length)), o)
      else decodeWith payload o header raw

def nextWith (payload : Strict Error Transaction) (s : EventStream) :
    Option (Except Error (Option Event) × EventStream) := do
  match ← cut s.options.leastLength s.source with
  | (.finished, source) => return (.ok none, { s with source })
  | (.refused e, source) => return (.error e, { s with source })
  | (.fault text, source) => return (.error (.io text), { s with source })
  | (.event header raw, source) =>
    let (result, options) ← decodeWith payload s.options header raw
    return (some <$> result, { options, source })

/-! ## Runs through a payload -/

/-- The next embedded event; the number of events is a word. -/
def embeddedWith (inner : Strict Error Transaction) (e : EmbeddedEvents) :
    Option (Option (Except Error Event) × EmbeddedEvents) :=
  match e.stream with
  | none => some (none, e)
  | some s => do
    match ← nextWith inner s with
    | (.ok (some event), s) =>
      let index ← add? e.index 1
      return (some (.ok event), { stream := some s, index })
    | (.ok none, _) => return (none, { e with stream := none })
    | (.error error, s) =>
      let error := match s.source.takeRaised with
        | (some text, _) => .corruptCompressedData text
        | (none, _) => .subEvent e.index error
      return (some (.error error), { e with stream := none })

def collectWithin (inner : Strict Error Transaction) :
    Nat → EmbeddedEvents → Option (Except Error (List Event))
  | 0, _ => some (.ok [])
  | fuel + 1, e => do
    match ← embeddedWith inner e with
    | (none, _) => return .ok []
    | (some (.error error), _) => return .error error
    | (some (.ok event), e) =>
      let events ← collectWithin inner fuel e
      return (event :: ·) <$> events

def collect (inner : Strict Error Transaction) (e : EmbeddedEvents) :
    Option (Except Error (List Event)) :=
  match e.stream with
  | none => some (.ok [])
  | some s => collectWithin inner (s.source.bound + 1) e

def eventsWith (inner : Strict Error Transaction) (compression : Compression) (payload : Bytes) :
    Option (Except Error (List Event)) :=
  match EmbeddedEvents.new compression payload with
  | .error e => some (.error e)
  | .ok events => collect inner events

/-! ## Transactions -/

def transactionWith (inner : Strict Error Transaction) : Strict Error Transaction := do
  let header ← payloadHeader
  let payload ← payload header.payloadSize
  match ← eventsWith inner header.compression payload with
  | .ok events => return { header, payload, events }
  | .error e => fail e

def tower : Nat → (Strict Error Transaction → Strict Error Transaction) → Strict Error Transaction
  | 0, _ => fail .nestedTooDeep
  | bits + 1, levels => levels (tower bits (levels ∘ levels))

def embeddedTransaction : Strict Error Transaction := tower nestingBits transactionWith

def transaction : Strict Error Transaction := transactionWith embeddedTransaction

def parse (o : Options) (raw : Bytes) : Option (Except Error Event × Options) :=
  parseWith transaction o raw

def next (s : EventStream) : Option (Except Error (Option Event) × EventStream) :=
  nextWith transaction s

def embedded (e : EmbeddedEvents) : Option (Option (Except Error Event) × EmbeddedEvents) :=
  embeddedWith embeddedTransaction e

/-! ## Agreement -/

section Levels

variable {inner : Strict Error Transaction} {inner' : Decode Transaction}
  (follows : Follows inner inner')

include follows

theorem parseWith_eq (o : Options) {raw : Bytes} (short : raw.length < 2 ^ 63) :
    parseWith inner o raw = some (Event.parseWith inner' o raw) := by
  unfold parseWith Event.parseWith
  rw [follows_header.run_eq short]
  simp only [Option.bind_eq_bind, Option.bind_some]
  cases reads : EventHeader.read raw with
  | error e rest => rfl
  | ok header rest =>
      dsimp only
      rcases Nat.lt_or_ge header.eventLength.toNat o.leastLength with low | long
      · rw [EventHeader.checkLength_of_lt low]
        rfl
      · rw [EventHeader.checkLength_of_le long]
        by_cases same : raw.length = header.eventLength.toNat
        · have least : o.leastLength ≤ raw.length := same ▸ long
          simp only [same, ne_eq, not_true_eq_false, if_false]
          exact decodeWith_eq follows header least short
        · simp only [ne_eq, same, not_false_eq_true, if_true]
          rfl

/-- What is cut off a source is at least as long as is demanded, and its length is a word of 32
bits. -/
theorem decodeWith_of_cut {o : Options} {s s' : Source} {header : EventHeader} {raw : Bytes}
    (cuts : BinaryLog.cut o.leastLength s = (.event header raw, s')) :
    decodeWith inner o header raw = some (Event.decodeWith inner' o header raw) := by
  obtain ⟨-, least, exact⟩ := Source.framed_of_cut o.size_le_leastLength cuts
  have small : declaredLength raw < 2 ^ 32 := UInt32.toNat_lt _
  exact decodeWith_eq follows header least (by omega)

theorem nextWith_eq (s : EventStream) : nextWith inner s = some (s.nextWith inner') := by
  unfold nextWith EventStream.nextWith
  rw [cut_eq s.options.size_le_leastLength]
  simp only [Option.bind_eq_bind, Option.bind_some]
  cases cuts : BinaryLog.cut s.options.leastLength s.source with
  | mk found source =>
      cases found with
      | finished => rfl
      | refused e => rfl
      | fault text => rfl
      | event header raw =>
          simp only [decodeWith_of_cut follows cuts]
          rfl

theorem embeddedWith_eq {e : EmbeddedEvents} (few : e.index + 1 < 2 ^ 64) :
    embeddedWith inner e = some (e.nextWith inner') := by
  unfold embeddedWith EmbeddedEvents.nextWith
  cases e.stream with
  | none => rfl
  | some s =>
      simp only [nextWith_eq follows s, Option.bind_eq_bind, Option.bind_some]
      generalize s.nextWith inner' = call
      obtain ⟨result, s'⟩ := call
      rcases result with error | none | event
      · rfl
      · rfl
      · simp only [add?_of_lt few]
        rfl

omit follows in
theorem index_nextWith (inner' : Decode Transaction) (e : EmbeddedEvents) :
    (e.nextWith inner').2.index ≤ e.index + 1 := by
  unfold EmbeddedEvents.nextWith
  split
  · exact Nat.le_succ _
  · split
    · exact Nat.le_refl _
    · exact Nat.le_succ _
    · exact Nat.le_succ _

theorem collectWithin_eq {fuel : Nat} :
    ∀ {e : EmbeddedEvents}, e.index + fuel < 2 ^ 64 →
      collectWithin inner fuel e = some (EmbeddedEvents.collectWithin inner' fuel e) := by
  induction fuel with
  | zero => intro e _; rfl
  | succ fuel ih =>
      intro e few
      have later := index_nextWith inner' e
      unfold collectWithin EmbeddedEvents.collectWithin
      rw [embeddedWith_eq follows (by omega)]
      simp only [Option.bind_eq_bind, Option.bind_some]
      generalize e.nextWith inner' = call at later ⊢
      obtain ⟨result, e'⟩ := call
      cases result with
      | none => rfl
      | some result =>
          cases result with
          | error error => rfl
          | ok event =>
              dsimp only at later ⊢
              rw [ih (by omega)]
              rfl

omit follows in
/-- A payload that is taken holds few enough events to be counted. -/
theorem bound_lt {compression : Compression} {payload : Bytes} {source : Source}
    (fits : payload.length ≤ Transaction.maxPayload.toNat)
    (opens : compression.source payload = .ok source) : source.bound + 1 < 2 ^ 64 := by
  have most : Transaction.maxPayload.toNat < 2 ^ 31 := by decide
  cases compression with
  | stored =>
      cases opens
      have size : (Source.ofBytes payload).bound = payload.length + 0 + 1 := by
        rw [Source.bound, Source.size_ofBytes]
        rfl
      omega
  | zstd =>
      cases opens
      have size : (Source.ofCompressed payload).bound =
          0 + 2 ^ 21 * (payload.toArray.size + 1) + 1 := rfl
      rw [List.size_toArray] at size
      omega
  | unknown code => cases opens

theorem eventsWith_eq (compression : Compression) {payload : Bytes}
    (fits : payload.length ≤ Transaction.maxPayload.toNat) :
    eventsWith inner compression payload =
      some (Transaction.eventsWith inner' compression payload) := by
  unfold eventsWith Transaction.eventsWith
  cases opens : EmbeddedEvents.new compression payload with
  | error e => rfl
  | ok events =>
      show collect inner events = some (events.collect inner')
      obtain ⟨source, opened, same⟩ := exists_of_bind_eq_ok opens
      cases same
      have few := bound_lt fits opened
      unfold collect EmbeddedEvents.collect
      by_cases empty : payload.isEmpty = true
      · simp only [empty, if_true]
      · simp only [empty, Bool.false_eq_true, if_false]
        exact collectWithin_eq follows ((Nat.zero_add _).symm ▸ few)

theorem follows_transactionWith :
    Follows (transactionWith inner) (Transaction.decodeWith inner') := by
  refine follows_payloadHeader.bind fun header =>
    (follows_payload _).bind_of fun {bs rest payload} _ reads => ?_
  obtain ⟨length, most⟩ := Transaction.size_of_readPayload reads
  have fits : payload.length ≤ Transaction.maxPayload.toNat :=
    length ▸ UInt32.le_iff_toNat_le.1 most
  rw [lift_bind (eventsWith_eq follows header.compression fits)]
  cases Transaction.eventsWith inner' header.compression payload with
  | ok events => exact follows_pure _
  | error e => exact follows_throw e

end Levels

/-- Levels that follow each other one by one follow each other as a tower. -/
theorem follows_tower (bits : Nat) :
    ∀ {levels : Strict Error Transaction → Strict Error Transaction}
      {levels' : Decode Transaction → Decode Transaction},
      (∀ {s r}, Follows s r → Follows (levels s) (levels' r)) →
      Follows (tower bits levels) (Transaction.decodeTower bits levels') := by
  induction bits with
  | zero => exact fun _ => follows_throw _
  | succ bits ih =>
      intro levels levels' each
      exact each (ih fun follows => each (each follows))

theorem follows_embeddedTransaction :
    Follows embeddedTransaction Transaction.decodeEmbedded :=
  follows_tower nestingBits fun follows => follows_transactionWith follows

theorem follows_transaction : Follows transaction Transaction.decode :=
  follows_transactionWith follows_embeddedTransaction

/-! ## What is decoded on demand -/

/-- The results of the next `n` calls. -/
def embeddedCalls : Nat → EmbeddedEvents → Option (List (Option (Except Error Event)))
  | 0, _ => some []
  | n + 1, e => do
    let (result, e) ← embedded e
    return result :: (← embeddedCalls n e)

/-- What is decoded of a body on demand is decoded within bounds: the parts that it keeps as bytes,
and the events of a transaction, one at a time. -/
def OnDemand : Body → Prop
  | .query q => statusVars.value q.statusVars = some q.vars
  | .tableMap e => table e = some e.table
  | .writeRows e | .updateRows e | .deleteRows e => ∀ change, rowsOf e change = some (e.rows change)
  | .previousGtids e => gtidSet.value e.payload = some e.set
  | .userVar v => userVarOf v = some v.value
  | .transactionPayload t =>
    ∀ events, EmbeddedEvents.new t.header.compression t.payload = .ok events →
      ∀ n < 2 ^ 64, embeddedCalls n events =
        some (EmbeddedEvents.callsWith Transaction.decodeEmbedded n events)
  | _ => True

theorem embeddedCalls_eq {n : Nat} :
    ∀ {e : EmbeddedEvents}, e.index + n < 2 ^ 64 →
      embeddedCalls n e = some (EmbeddedEvents.callsWith Transaction.decodeEmbedded n e) := by
  induction n with
  | zero => intro e _; rfl
  | succ n ih =>
      intro e few
      have later := index_nextWith Transaction.decodeEmbedded e
      unfold embeddedCalls EmbeddedEvents.callsWith embedded
      rw [embeddedWith_eq follows_embeddedTransaction (by omega)]
      simp only [Option.bind_eq_bind, Option.bind_some]
      rw [ih (by omega)]
      rfl

theorem eq_of_rest {bs rest all : Bytes} (reads : Read.rest bs = .ok all rest) : all = bs := by
  cases reads
  rfl

theorem length_of_word {α : Type} [Word α] {bs rest : Bytes} {x : α}
    (reads : Read.word α bs = .ok x rest) : rest.length ≤ bs.length :=
  ((Read.exact_word α).suffix reads).length_le

theorem length_of_tableMap {bs rest : Bytes} {e : TableMapEvent}
    (reads : TableMapEvent.read bs = .ok e rest) : e.payload.length ≤ bs.length := by
  obtain ⟨tableId, bs₁, first, later⟩ := exists_of_bind_apply reads
  obtain ⟨flags, bs₂, second, later⟩ := exists_of_bind_apply later
  obtain ⟨payload, bs₃, third, later⟩ := exists_of_bind_apply later
  cases later
  rw [eq_of_rest third]
  exact Nat.le_trans (length_of_word second) (length_of_word first)

theorem length_of_rows {bs rest : Bytes} {e : RowsEvent}
    (reads : RowsEvent.read bs = .ok e rest) : e.payload.length ≤ bs.length := by
  obtain ⟨tableId, bs₁, first, later⟩ := exists_of_bind_apply reads
  obtain ⟨flags, bs₂, second, later⟩ := exists_of_bind_apply later
  obtain ⟨extraDataLength, bs₃, third, later⟩ := exists_of_bind_apply later
  obtain ⟨payload, bs₄, fourth, later⟩ := exists_of_bind_apply later
  cases later
  rw [eq_of_rest fourth]
  exact Nat.le_trans (length_of_word third)
    (Nat.le_trans (length_of_word second) (length_of_word first))

theorem length_of_userVar {bs rest : Bytes} {v : UserVar} (reads : UserVar.read bs = .ok v rest) :
    v.raw.length ≤ bs.length := by
  obtain ⟨length, bs₁, first, later⟩ := exists_of_bind_apply reads
  obtain ⟨name, bs₂, second, later⟩ := exists_of_bind_apply later
  obtain ⟨isNull, bs₃, third, later⟩ := exists_of_bind_apply later
  obtain ⟨raw, bs₄, fourth, later⟩ := exists_of_bind_apply later
  cases later
  rw [eq_of_rest fourth]
  exact Nat.le_trans (length_of_word third)
    (Nat.le_trans ((Read.exact_take _).suffix second).length_le (length_of_word first))

/-- The parts that a body keeps as bytes are parts of the bytes that it was read from. -/
theorem onDemand_of_value {t : EventType} {bs : Bytes} {b : Body} (short : bs.length < 2 ^ 63)
    (value : (Body.readAs Transaction.decode t).value bs = .ok b) : OnDemand b := by
  have rows {e : RowsEvent} {rest : Bytes} (reads : RowsEvent.read bs = .ok e rest) :
      ∀ change, rowsOf e change = some (e.rows change) :=
    rowsOf_eq (Nat.lt_of_le_of_lt (length_of_rows reads) short)
  unfold Body.readAs at value
  split at value
  · obtain ⟨d, rfl⟩ := Decode.of_value_ofRead value
    trivial
  unfold Body.readWith at value
  split at value
  case h_1 =>
    obtain ⟨q, rest, reads, rfl⟩ := Decode.exists_of_value_ofRead value
    have length := (Query.lengths_of_read reads).2
    have small := q.statusVarsLength.toNat_lt
    exact follows_statusVars.value_eq (by omega)
  case h_6 =>
    obtain ⟨v, rest, reads, rfl⟩ := Decode.exists_of_value_ofRead value
    exact userVarOf_eq (Nat.lt_of_le_of_lt (length_of_userVar reads) short)
  case h_8 =>
    obtain ⟨e, rest, reads, rfl⟩ := Decode.exists_of_value_ofRead value
    exact table_eq (Nat.lt_of_le_of_lt (length_of_tableMap reads) short)
  case h_12 | h_13 | h_14 =>
    obtain ⟨e, rest, reads, rfl⟩ := Decode.exists_of_value_ofRead value
    exact rows reads
  case h_17 =>
    obtain ⟨e, rest, reads, rfl⟩ := Decode.exists_of_value_ofRead value
    cases reads
    exact follows_gtidSet.value_eq short
  case h_18 =>
    obtain ⟨t, rest, -, rfl⟩ := Decode.of_value_map value
    intro events opens n few
    refine embeddedCalls_eq ?_
    obtain ⟨source, opened, same⟩ := exists_of_bind_eq_ok opens
    cases same
    exact (Nat.zero_add n).symm ▸ few
  case h_2 =>
    cases value
    trivial
  case h_19 =>
    obtain ⟨content, rest, -, rfl⟩ := Decode.of_value_map value
    trivial
  all_goals
    obtain ⟨data, rfl⟩ := Decode.of_value_ofRead value
    trivial

end Strict

/-- **Nothing is out of bounds.**  Whatever a source brings, whatever a byte string is, and whatever
options are in force, each operation on the way to the next event, and on the way to the event that
the byte string is, is within its bounds, and so is each on the way to what is decoded on demand of
an event that is given. -/
theorem Strict.within_bounds :
    (∀ s : EventStream, next s = some s.next) ∧
      (∀ (o : Options) (raw : Bytes), raw.length < 2 ^ 63 →
        parse o raw = some (Event.parse o raw)) ∧
      ∀ e : Event, e.Given → OnDemand e.body := by
  refine ⟨nextWith_eq follows_transaction, fun o raw => parseWith_eq follows_transaction o, ?_⟩
  intro e given
  obtain ⟨o, raw, origin⟩ := given.exists_origin
  obtain ⟨-, length, -, passed⟩ := origin.passed
  have small := e.header.eventLength.toNat_lt
  refine onDemand_of_value ?_ passed.value
  have part := Event.length_bodyBytes_le o.checksum e.header.type raw
  omega

namespace Example

/-- An event for table `t` of schema `s` with two columns. -/
def twoColumns : Bytes :=
  [0, 0, 0, 0, 19, 1, 0, 0, 0, 38, 0, 0, 0, 0, 0, 0, 0, 0, 0, 7, 0, 0, 0, 0, 0, 1, 0,
   1, 115, 0, 1, 116, 0, 2, 3, 15, 0, 2]

def twoColumnsEvent : Event where
  header := { EventHeader.new .tableMap 0 1 with eventLength := 38 }
  body := .tableMap { tableId := 7, flags := 1, payload := twoColumns.drop 27 }
  crc32 := 0

theorem twoColumns_parsed : Event.parse {} twoColumns = (.ok twoColumnsEvent, {}) := by rfl

end Example

theorem within_bounds_twoColumns :
    Example.twoColumns.length < 2 ^ 63 ∧
      Strict.parse {} Example.twoColumns = some (.ok Example.twoColumnsEvent, {}) ∧
      Example.twoColumnsEvent.Given ∧ Strict.OnDemand Example.twoColumnsEvent.body := by
  obtain ⟨-, parses, onDemand⟩ := Strict.within_bounds
  have short : Example.twoColumns.length < 2 ^ 63 := by decide
  have given : Example.twoColumnsEvent.Given :=
    .parsed (congrArg Prod.fst Example.twoColumns_parsed)
  exact ⟨short, by rw [parses {} _ short, Example.twoColumns_parsed], given, onDemand _ given⟩

example : Strict.table { tableId := 7, flags := 1, payload := Example.twoColumns.drop 27 } =
    some (.ok { schemaName := "s", tableName := "t", columnTypes := [3, 15], columnMeta := [],
                nullBitmap := [2] }) := by rfl

end BinaryLog
