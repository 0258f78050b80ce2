/-
# BinaryLog.Proofs.Written -- a written stream is read back

`Event.writeAll` writes events one behind the other.  A format description says itself whether a
checksum follows it and the events behind it (`Body.checksumIn`), so that the checksum may come
and go within one stream.  A reader that starts with the same options finds what was written and
then the end (`EventStream.calls_of_written`): the same data under the same headers, which tell
the number of bytes that were written, and with the checksums that were written (`Event.stored`).

One event is enough for this: a frame is as long as its header says, and its checksum is right
(`EventHeader.frame_cases`), so that it is decoded whatever the options want to be validated
(`Event.decodeWith_of_frame`, `Event.decodeWith_of_description`).
-/
import BinaryLog.Proofs.Bodies
import BinaryLog.Proofs.Reads
import BinaryLog.Proofs.Run

namespace BinaryLog

set_option autoImplicit false

open Wire

/-! ## Frames -/

namespace EventHeader

/-- The header of an event of the given length. -/
def withLength (h : EventHeader) (n : Nat) : EventHeader := { h with eventLength := .ofNat n }

@[simp] theorem type_withLength (h : EventHeader) (n : Nat) : (h.withLength n).type = h.type := rfl

/-- A frame is a header that tells its length, the body, and the checksum of both if it has one. -/
theorem frame_cases {h : EventHeader} {body raw : Bytes} {checksum : Bool}
    (framed : h.frame body checksum = .ok raw) :
    raw.length < 2 ^ 32 ∧ ∃ trailer : Bytes,
      raw = (h.withLength raw.length).encode ++ (body ++ trailer) ∧
      trailer = if checksum then
        Word.bytes (Crc32.checksum ((h.withLength raw.length).encode ++ body)) else [] := by
  by_cases small : size + body.length + (if checksum then Crc32.size else 0) < 2 ^ 32
  · simp only [frame, if_pos small, Except.ok.injEq] at framed
    have length : raw.length = size + body.length + (if checksum then Crc32.size else 0) := by
      rw [← framed]
      cases checksum <;> simp [length_encode, Word.width, Crc32.size, Nat.add_assoc]
    refine ⟨length ▸ small, _, ?_, rfl⟩
    rw [length, ← framed]
    cases checksum <;> simp [withLength]
  · simp only [frame, if_neg small, reduceCtorEq] at framed

end EventHeader

section Frame

variable {h : EventHeader} {body raw : Bytes} {checksum : Bool}

theorem EventHeader.ofBytes_frame (framed : h.frame body checksum = .ok raw) :
    ofBytes raw = h.withLength raw.length := by
  obtain ⟨-, trailer, shape, -⟩ := frame_cases framed
  rw [shape, ofBytes_encode, ← shape]

theorem declaredLength_frame (framed : h.frame body checksum = .ok raw) :
    declaredLength raw = raw.length := by
  rw [declaredLength, EventHeader.ofBytes_frame framed]
  exact UInt32.toNat_ofNat_of_lt' (EventHeader.frame_cases framed).1

theorem EventHeader.length_frame (framed : h.frame body checksum = .ok raw) :
    raw.length = size + body.length + (if checksum then Crc32.size else 0) := by
  obtain ⟨-, trailer, shape, rfl⟩ := frame_cases framed
  rw [shape]
  cases checksum <;> simp [length_encode, Word.width, Crc32.size, Nat.add_assoc]

theorem EventHeader.drop_frame (framed : h.frame body false = .ok raw) :
    raw.drop size = body := by
  obtain ⟨-, trailer, shape, rfl⟩ := frame_cases framed
  rw [shape, List.drop_left' (length_encode _)]
  exact List.append_nil body

/-- In front of its checksum a frame holds header and body. -/
theorem EventHeader.take_frame (framed : h.frame body true = .ok raw) :
    raw.take (raw.length - Crc32.size) = (h.withLength raw.length).encode ++ body := by
  obtain ⟨-, trailer, shape, trailed⟩ := frame_cases framed
  have front : raw.length - Crc32.size = ((h.withLength raw.length).encode ++ body).length := by
    rw [length_frame framed, List.length_append, length_encode]
    exact Nat.add_sub_cancel ..
  rw [front]
  conv => lhs; arg 2; rw [shape, ← List.append_assoc]
  exact List.take_left

/-- The checksum at the end of a frame is that of what stands in front of it. -/
theorem EventHeader.drop_trailer (framed : h.frame body true = .ok raw) :
    raw.drop (raw.length - Crc32.size) =
      Word.bytes (Crc32.checksum (raw.take (raw.length - Crc32.size))) := by
  have front := take_frame framed
  obtain ⟨-, trailer, shape, trailed⟩ := frame_cases framed
  have parts := List.take_append_drop (raw.length - Crc32.size) raw
  rw [front] at parts ⊢
  have same := parts.trans (shape.trans (List.append_assoc ..).symm)
  exact (List.append_cancel_left same).trans trailed

theorem verifyChecksum_frame (o : Options) (framed : h.frame body true = .ok raw) :
    verifyChecksum o raw = .ok (Word.ofBytes (raw.drop (raw.length - Crc32.size))) := by
  have right : (Word.ofBytes (raw.drop (raw.length - Crc32.size)) : UInt32) =
      Crc32.checksum (raw.take (raw.length - Crc32.size)) := by
    rw [EventHeader.drop_trailer framed, Word.ofBytes_bytes]
  simp only [verifyChecksum, right, ne_eq, not_true_eq_false, and_false, if_false]

end Frame

/-! ## One event -/

namespace Event

/-- The checksum at the end of what was written, if one was. -/
def trailer (raw : Bytes) (checksum : Bool) : UInt32 :=
  if checksum then Word.ofBytes (raw.drop (raw.length - Crc32.size)) else 0

section

variable (payload : Decode Transaction) {o : Options} {h : EventHeader} {body raw : Bytes}

/-- A frame with the checksum in force is decoded if its body is, and leaves that in force. -/
theorem decodeWith_of_frame {b : Body} (framed : h.frame body o.checksum = .ok raw)
    (plain : h.type ≠ .formatDescription)
    (decodes : (Body.readWith payload h.type).value body = .ok b) :
    decodeWith payload o (.ofBytes raw) raw =
      (.ok { header := h.withLength raw.length, body := b, crc32 := trailer raw o.checksum },
        o) := by
  have other : (h.withLength raw.length).type ≠ .formatDescription := plain
  rw [EventHeader.ofBytes_frame framed, decodeWith, if_neg other]
  simp only [decodeOrdinary, EventHeader.type_withLength]
  cases enabled : o.checksum with
  | true =>
      rw [enabled] at framed
      have data : (raw.take (raw.length - Crc32.size)).drop EventHeader.size = body := by
        rw [EventHeader.take_frame framed, List.drop_left' (EventHeader.length_encode _)]
      simp only [if_true, verifyChecksum_frame o framed, data, decodes, trailer]
      rfl
  | false =>
      rw [enabled] at framed
      simp only [Bool.false_eq_true, if_false, EventHeader.drop_frame framed, decodes, trailer]
      rfl

/-- A format description goes by its own flag, whatever checksum is in force, and so do the events
behind it. -/
theorem decodeWith_of_description {d : FormatDescription} (typed : h.type = .formatDescription)
    (framed : h.frame body d.checksumEnabled = .ok raw)
    (reads : ∀ r, FormatDescription.read (body ++ r) = .ok d r) :
    decodeWith payload o (.ofBytes raw) raw =
      (.ok { header := h.withLength raw.length, body := .formatDescription d,
             crc32 := trailer raw d.checksumEnabled },
        { o with checksum := d.checksumEnabled }) := by
  have same : (h.withLength raw.length).type = .formatDescription := typed
  rw [EventHeader.ofBytes_frame framed, decodeWith, if_pos same, decodeFormatDescription]
  obtain ⟨-, behind, shape, trailed⟩ := EventHeader.frame_cases framed
  have data : raw.drop EventHeader.size = body ++ behind := by
    rw [shape, List.drop_left' (EventHeader.length_encode _)]
  simp only [data, reads]
  cases enabled : d.checksumEnabled with
  | true =>
      rw [enabled] at framed trailed
      have long : ¬ behind.length < Crc32.size := by
        rw [trailed]
        simp [Word.width, Crc32.size]
      have checked : d.trailer behind o raw = verifyChecksum o raw := by
        simp only [FormatDescription.trailer, enabled, if_true, if_neg long]
      simp only [checked, verifyChecksum_frame o framed, trailer, if_true]
  | false =>
      have unchecked : d.trailer behind o raw = .ok 0 := by
        simp only [FormatDescription.trailer, enabled, Bool.false_eq_true, if_false]
      simp only [unchecked, trailer, Bool.false_eq_true, if_false]

end

end Event

/-! ## Events that come back -/

namespace Body

/-- Whether a checksum follows an event with this body, and those behind it, when `mode` is in
force. -/
def checksumIn (mode : Bool) : Body → Bool
  | formatDescription d => d.checksumEnabled
  | _ => mode

/-- What data have to meet to come back: a format description gives its own length and its version
holds no zero byte; a transaction holds the events that its payload is decoded to.  Other data
always come back. -/
def Writable : Body → Prop
  | formatDescription d =>
    0 ∉ Text.Utf8.encode d.serverVersion ∧
      (d.postHeaderLength .formatDescription).map UInt8.toNat =
        some (FormatDescription.fixedLength + d.postHeaderLengths.length)
  | transactionPayload p => p.Sized ∧ p.decodeEvents = .ok p.events
  | _ => True

theorem eq_of_type?_formatDescription {b : Body} (typed : b.type? = some .formatDescription) :
    ∃ d, b = formatDescription d := by
  cases b with
  | formatDescription d => exact ⟨d, rfl⟩
  | _ => cases typed

theorem eq_of_type?_transactionPayload {b : Body} (typed : b.type? = some .transactionPayload) :
    ∃ p, b = transactionPayload p := by
  cases b with
  | transactionPayload p => exact ⟨p, rfl⟩
  | _ => cases typed

theorem checksumIn_of_plain {b : Body} {t : EventType} (typed : b.type? = some t)
    (plain : t ≠ .formatDescription) (mode : Bool) : b.checksumIn mode = mode := by
  cases b with
  | formatDescription d =>
      cases typed
      exact absurd rfl plain
  | _ => rfl

theorem value_of_writable {b : Body} {t : EventType} {bs : Bytes} (typed : b.type? = some t)
    (writable : b.Writable) (written : b.encode = .ok bs) (plain : t ≠ .formatDescription) :
    (readWith Transaction.decode t).value bs = .ok b := by
  by_cases leaf : t = .transactionPayload
  · subst leaf
    obtain ⟨⟨header, payload, events⟩, rfl⟩ := eq_of_type?_transactionPayload typed
    obtain ⟨sized, held⟩ := writable
    cases written
    have decodes :
        Transaction.decode (header.encode ++ payload) = .ok ⟨header, payload, events⟩ [] :=
      Transaction.decodeWith_encode sized held
    simp only [Decode.value, readWith, Functor.map, EStateM.map, TransactionPayload.encode, decodes]
  · exact value_encode Transaction.decode typed written plain leaf

end Body

theorem FormatDescription.read_of_writable {d : FormatDescription} {bs : Bytes}
    (writable : (Body.formatDescription d).Writable) (written : d.encode = .ok bs) (r : Bytes) :
    read (bs ++ r) = .ok d r := by
  obtain ⟨noNul, own⟩ := writable
  obtain ⟨entry, there, tells⟩ := Option.map_eq_some_iff.1 own
  have inside : d.postHeaderLengths[14]? = some entry := there
  have before : (d.postHeaderLengths ++ d.checksumFlag :: r)[14]? = d.postHeaderLengths[14]? :=
    List.getElem?_append_left (List.getElem?_eq_some_iff.1 inside).1
  exact read_encode written noNul (before.trans inside) tells

namespace Event

/-- The header names the type of the body, and the data come back. -/
structure Writable (e : Event) : Prop where
  typed : e.body.type? = some e.type
  data : e.body.Writable

/-- The event as a reader finds it when it was written as `raw`. -/
def stored (e : Event) (raw : Bytes) (checksum : Bool) : Event where
  header := e.header.withLength raw.length
  body := e.body
  crc32 := trailer raw checksum

theorem encode_cases {e : Event} {checksum : Bool} {raw : Bytes}
    (written : e.encode checksum = .ok raw) :
    ∃ body, e.body.encode = .ok body ∧ e.header.frame body checksum = .ok raw := by
  simp only [encode, bind, Except.bind] at written
  split at written
  · cases written
  · rename_i body encoded
    exact ⟨body, encoded, written⟩

/-- A written event is decoded with the options in front of it, and the checksum in force follows
it. -/
theorem decodeWith_encode {e : Event} {o : Options} {raw : Bytes} (writable : e.Writable)
    (written : e.encode (e.body.checksumIn o.checksum) = .ok raw) :
    let checksum := e.body.checksumIn o.checksum
    decodeWith Transaction.decode o (.ofBytes raw) raw =
      (.ok (e.stored raw checksum), { o with checksum }) := by
  intro checksum
  obtain ⟨body, encoded, framed⟩ := encode_cases written
  obtain ⟨typed, data⟩ := writable
  by_cases plain : e.type = .formatDescription
  · rw [plain] at typed
    obtain ⟨d, description⟩ := Body.eq_of_type?_formatDescription typed
    rw [description] at data encoded
    have decoded := decodeWith_of_description Transaction.decode (o := o) plain
      (by rwa [description] at framed) (FormatDescription.read_of_writable data encoded)
    simp only [checksum]
    rw [decoded, stored, description]
    rfl
  · have same : checksum = o.checksum := Body.checksumIn_of_plain typed plain o.checksum
    rw [Body.checksumIn_of_plain typed plain] at framed
    rw [same]
    exact decodeWith_of_frame Transaction.decode framed plain
      (Body.value_of_writable typed data encoded plain)

/-- The events as a reader finds them, and the buffer, when all of them were written behind
`out`. -/
def writeAll : Bool → Bytes → List Event → Except Violation (List Event × Bytes)
  | _, out, [] => .ok ([], out)
  | mode, out, e :: events =>
    let checksum := e.body.checksumIn mode
    match e.appendTo out checksum with
    | (.error v, _) => .error v
    | (.ok n, behind) => do
      let (found, all) ← writeAll checksum behind events
      return (e.stored (behind.drop (behind.length - n)) checksum :: found, all)

theorem writeAll_cons {mode : Bool} {out all : Bytes} {e : Event} {events found : List Event}
    (written : writeAll mode out (e :: events) = .ok (found, all)) :
    let checksum := e.body.checksumIn mode
    ∃ raw later, e.encode checksum = .ok raw ∧
      writeAll checksum (out ++ raw) events = .ok (later, all) ∧
      found = e.stored raw checksum :: later := by
  intro checksum
  simp only [writeAll, appendTo] at written
  cases encoded : e.encode (e.body.checksumIn mode) with
  | error v => simp only [encoded, reduceCtorEq] at written
  | ok raw =>
      have last : (out ++ raw).drop ((out ++ raw).length - raw.length) = raw := by
        rw [List.length_append, Nat.add_sub_cancel, List.drop_left]
      simp only [encoded, last, bind, Except.bind] at written
      split at written
      · cases written
      · rename_i result tail
        obtain ⟨later, all'⟩ := result
        cases written
        exact ⟨raw, later, rfl, tail, rfl⟩

/-- What is in the buffer stays there. -/
theorem writeAll_append {events : List Event} :
    ∀ {mode : Bool} {out all : Bytes} {found : List Event},
      writeAll mode out events = .ok (found, all) → ∃ bs, all = out ++ bs := by
  induction events with
  | nil =>
      intro mode out all found written
      cases written
      exact ⟨[], (List.append_nil out).symm⟩
  | cons e events ih =>
      intro mode out all found written
      obtain ⟨raw, later, -, tail, -⟩ := writeAll_cons written
      obtain ⟨bs, rfl⟩ := ih tail
      exact ⟨raw ++ bs, List.append_assoc out raw bs⟩

/-- Nothing is written for no events. -/
theorem writeAll_nil {mode : Bool} {out bs : Bytes} {found : List Event}
    (written : writeAll mode out [] = .ok (found, out ++ bs)) : found = [] ∧ bs = [] := by
  simp only [writeAll, Except.ok.injEq, Prod.mk.injEq, List.self_eq_append_right] at written
  exact ⟨written.1.symm, written.2⟩

/-- The first event is written in front of all others. -/
theorem writeAll_first {mode : Bool} {out bs : Bytes} {e : Event} {events found : List Event}
    (written : writeAll mode out (e :: events) = .ok (found, out ++ bs)) :
    let checksum := e.body.checksumIn mode
    ∃ raw rest later, bs = raw ++ rest ∧ e.encode checksum = .ok raw ∧
      writeAll checksum (out ++ raw) events = .ok (later, (out ++ raw) ++ rest) ∧
      found = e.stored raw checksum :: later := by
  intro checksum
  obtain ⟨raw, later, first, tail, found⟩ := writeAll_cons written
  obtain ⟨rest, shape⟩ := writeAll_append tail
  refine ⟨raw, rest, later, ?_, first, shape ▸ tail, found⟩
  rw [List.append_assoc] at shape
  exact List.append_cancel_left shape

/-- The lengths that the headers give, all together. -/
def totalLength : List Event → Nat
  | [] => 0
  | e :: events => e.header.eventLength.toNat + totalLength events

/-- The lengths in the headers are those of what was written: none is too large for its field. -/
theorem totalLength_writeAll {events : List Event} :
    ∀ {mode : Bool} {out bs : Bytes} {found : List Event},
      writeAll mode out events = .ok (found, out ++ bs) → totalLength found = bs.length := by
  induction events with
  | nil =>
      intro mode out bs found written
      obtain ⟨rfl, rfl⟩ := writeAll_nil written
      rfl
  | cons e events ih =>
      intro mode out bs found written
      obtain ⟨raw, rest, later, rfl, first, tail, rfl⟩ := writeAll_first written
      obtain ⟨body, -, framed⟩ := encode_cases first
      have length : (e.stored raw (e.body.checksumIn mode)).header.eventLength.toNat = raw.length :=
        UInt32.toNat_ofNat_of_lt' (EventHeader.frame_cases framed).1
      rw [totalLength, ih tail, length, List.length_append]

/-- A format description without a checksum is long enough for an event with one. -/
theorem leastLength_le_encode {e : Event} {o : Options} {raw : Bytes} (typed : e.Writable)
    (written : e.encode (e.body.checksumIn o.checksum) = .ok raw) : o.leastLength ≤ raw.length := by
  obtain ⟨body, encoded, framed⟩ := encode_cases written
  rw [EventHeader.length_frame framed, Options.leastLength]
  by_cases plain : e.type = .formatDescription
  · have description := typed.typed
    rw [plain] at description
    obtain ⟨d, description⟩ := Body.eq_of_type?_formatDescription description
    rw [description] at encoded
    have long := FormatDescription.length_encode encoded
    split <;> split <;> simp only [FormatDescription.fixedLength, Crc32.size] at * <;> omega
  · rw [Body.checksumIn_of_plain typed.typed plain]
    split <;> omega

end Event

namespace EventStream

/-- One written event is read, and the checksum in force follows it. -/
theorem nextWith_of_written {e : Event} {o : Options} {raw bs : Bytes} {source : Source}
    (writable : e.Writable) (written : e.encode (e.body.checksumIn o.checksum) = .ok raw)
    (delivers : source.Delivers .clean (raw ++ bs)) :
    let checksum := e.body.checksumIn o.checksum
    ∃ source', nextWith Transaction.decode { options := o, source } =
        (.ok (some (e.stored raw checksum)),
          { options := { o with checksum }, source := source' }) ∧
      source'.Delivers .clean bs := by
  intro checksum
  obtain ⟨body, encoded, framed⟩ := Event.encode_cases written
  obtain ⟨source', next, left⟩ := nextWith_of_frame Transaction.decode
    (s := { options := o, source }) delivers (Event.leastLength_le_encode writable written)
    (declaredLength_frame framed)
  refine ⟨source', ?_, left⟩
  simp only [next, Event.decodeWith_encode writable written]
  rfl

theorem calls_of_writeAll {events : List Event} :
    ∀ {o : Options} {out bs : Bytes} {found : List Event} {source : Source},
      (∀ e ∈ events, e.Writable) → Event.writeAll o.checksum out events = .ok (found, out ++ bs) →
      source.Delivers .clean bs →
      (callsWith Transaction.decode (events.length + 1) { options := o, source }).map (·.1) =
        found.map (fun e => .ok (some e)) ++ [.ok none] := by
  -- for all options and buffers: a description changes the ones, every event the others
  induction events with
  | nil =>
      intro o out bs found source _ written delivers
      obtain ⟨rfl, rfl⟩ := Event.writeAll_nil written
      obtain ⟨source', next⟩ := nextWith_at_end Transaction.decode
        (s := { options := o, source }) delivers
      simp [callsWith, next]
  | cons e events ih =>
      intro o out bs found source writable written delivers
      obtain ⟨raw, rest, later, rfl, first, tail, rfl⟩ := Event.writeAll_first written
      obtain ⟨source', next, left⟩ :=
        nextWith_of_written (writable e List.mem_cons_self) first delivers
      have later := ih (o := { o with checksum := e.body.checksumIn o.checksum })
        (fun e' member => writable e' (List.mem_cons_of_mem e member)) tail left
      simp only [List.length_cons, callsWith, next, List.map_cons, List.cons_append] at later ⊢
      rw [later]

/-- **What was written is read back.**  Every event that was written comes back, in order and as it
was stored, and behind the last one is the end. -/
theorem calls_of_written {o : Options} {events found : List Event} {bs : Bytes}
    (writable : ∀ e ∈ events, e.Writable)
    (written : Event.writeAll o.checksum [] events = .ok (found, bs)) {source : Source}
    (delivers : source.Delivers .clean bs) :
    (callsWith Transaction.decode (events.length + 1) { options := o, source }).map (·.1) =
        found.map (fun e => .ok (some e)) ++ [.ok none] ∧
      Event.totalLength found = bs.length :=
  ⟨calls_of_writeAll writable written delivers, Event.totalLength_writeAll written⟩

end EventStream

/-! ## A session with two format descriptions -/

namespace Example

def description (checksumFlag : UInt8) : Event where
  header := .new .formatDescription 0 1
  body := .formatDescription (.new "8.0.18" checksumFlag)
  crc32 := 0

def commit : Event where
  header := { EventHeader.new .xid 0 1 with eventLength := 27 }
  body := .xid { xid := 7 }
  crc32 := 0

/-- A transaction that holds one commit, stored as it is. -/
def transaction : Event where
  header := .new .transactionPayload 0 1
  body := .transactionPayload
    { header := { payloadSize := 27, compressionType := 255, uncompressedSize := 27 }
      payload := commit.header.encode ++ [7, 0, 0, 0, 0, 0, 0, 0]
      events := [commit] }
  crc32 := 0

/-- The first description brings checksums, the second one drops them. -/
def session : List Event := [description 1, transaction, commit, description 0, commit]

def log : List Event × Bytes := (Event.writeAll false [] session).toOption.getD ([], [])

theorem log_written : Event.writeAll false [] session = .ok log :=
  eq_ok_getD (by decide +kernel) ([], [])

theorem session_writable : ∀ e ∈ session, e.Writable := by
  simp only [session, List.mem_cons, List.not_mem_nil, or_false]
  rintro e (rfl | rfl | rfl | rfl | rfl)
  · exact ⟨by decide, by decide, by decide⟩
  · exact ⟨by decide, ⟨by decide, by decide⟩, by cbv⟩
  · exact ⟨by decide, trivial⟩
  · exact ⟨by decide, by decide, by decide⟩
  · exact ⟨by decide, trivial⟩

end Example

theorem calls_of_session :
    (∀ e ∈ Example.session, e.Writable) ∧
      Event.writeAll false [] Example.session = .ok Example.log ∧
      Example.log.1.map (fun e => e.header.eventLength) = [122, 62, 31, 118, 27] ∧
      (EventStream.callsWith Transaction.decode 6
          { options := {}, source := .ofBytes Example.log.2 }).map (·.1) =
        Example.log.1.map (fun e => .ok (some e)) ++ [.ok none] :=
  ⟨Example.session_writable, Example.log_written, by decide +kernel,
    (EventStream.calls_of_written (o := {}) Example.session_writable Example.log_written
      (Source.delivers_ofBytes _)).1⟩

end BinaryLog
