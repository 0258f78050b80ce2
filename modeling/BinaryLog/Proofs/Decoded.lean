/-
# BinaryLog.Proofs.Decoded -- what an event that was decoded has passed

A decoded event has the header that was read of it (`Event.header_of_decodeWith`).  Its body was
read by the reader of its type, from all bytes behind the header or from those in front of the
checksum (`Event.bodyBytes`); and a checksum was verified if one is in force, and else is zero
(`Event.Passed`).  A format description is always given all bytes, since only its body tells whether
a checksum follows it.

Decoding has many ways out, and every one that is a failure leaves the options as they were, those
behind a format description that was read among them (`Event.decodeFormatDescription_cases`).  An
event leaves the mode that its body puts in force, which is the old one unless it is a format
description (`Event.decodeWith_cases`).
-/
import BinaryLog.Proofs.Reads
import BinaryLog.Proofs.Written

namespace BinaryLog

set_option autoImplicit false

/-! ## Bodies -/

theorem Decode.of_value_map {α : Type} {f : α → Body} {r : Decode α} {bs : Bytes} {b : Body}
    (value : (f <$> r).value bs = .ok b) : ∃ a rest, r bs = .ok a rest ∧ b = f a := by
  simp only [Decode.value, Functor.map, EStateM.map] at value
  split at value
  · rename_i a rest mapped
    split at mapped
    · rename_i read
      cases mapped
      cases value
      exact ⟨_, _, read, rfl⟩
    · cases mapped
  · cases value

theorem Decode.exists_of_value_ofRead {α : Type} {f : α → Body} {r : Wire.Read α} {bs : Bytes}
    {b : Body} (value : (Decode.ofRead (f <$> r)).value bs = .ok b) :
    ∃ a rest, r bs = .ok a rest ∧ b = f a := by
  simp only [Decode.value, Decode.ofRead, EStateM.adaptExcept, Functor.map, EStateM.map] at value
  split at value
  · rename_i read
    split at read <;> cases read
    rename_i mapped
    split at mapped <;> cases mapped
    rename_i read
    cases value
    exact ⟨_, _, read, rfl⟩
  · cases value

theorem Decode.of_value_ofRead {α : Type} {f : α → Body} {r : Wire.Read α} {bs : Bytes} {b : Body}
    (value : (Decode.ofRead (f <$> r)).value bs = .ok b) : ∃ a, b = f a := by
  obtain ⟨a, rest, -, same⟩ := Decode.exists_of_value_ofRead value
  exact ⟨a, same⟩

namespace Body

/-- The body of an event of the given type, format descriptions among them. -/
def readAs (payload : Decode Transaction) (t : EventType) : Decode Body :=
  if t = .formatDescription then .ofRead (.formatDescription <$> FormatDescription.read)
  else readWith payload t

/-- No other reader brings a format description. -/
theorem checksumIn_of_readWith {payload : Decode Transaction} {t : EventType} {bs : Bytes}
    {b : Body} (value : (readWith payload t).value bs = .ok b) (mode : Bool) :
    b.checksumIn mode = mode := by
  unfold readWith at value
  split at value
  case h_2 =>
    cases value
    rfl
  case h_18 =>
    obtain ⟨p, rest, -, rfl⟩ := Decode.of_value_map value
    rfl
  case h_19 =>
    obtain ⟨content, rest, -, rfl⟩ := Decode.of_value_map value
    rfl
  all_goals
    obtain ⟨data, rfl⟩ := Decode.of_value_ofRead value
    rfl

/-- A transaction is decoded by what decodes payloads. -/
theorem exists_of_transaction {payload : Decode Transaction} {t : EventType} {bs : Bytes}
    {p : Transaction} (value : (readAs payload t).value bs = .ok (.transactionPayload p)) :
    ∃ rest, payload bs = .ok p rest := by
  rw [readAs] at value
  split at value
  · obtain ⟨d, other⟩ := Decode.of_value_ofRead value
    cases other
  · unfold readWith at value
    split at value
    case h_2 => cases value
    case h_18 =>
      obtain ⟨p', rest, decodes, same⟩ := Decode.of_value_map value
      cases same
      exact ⟨rest, decodes⟩
    case h_19 =>
      obtain ⟨content, rest, -, other⟩ := Decode.of_value_map value
      cases other
    all_goals
      obtain ⟨data, other⟩ := Decode.of_value_ofRead value
      cases other

end Body

/-! ## Events -/

namespace Event

/-- The bytes of an event that its body is read from when `mode` is in force: those in front of the
checksum, but all of them for a format description. -/
def bodyBytes (mode : Bool) (t : EventType) (raw : Bytes) : Bytes :=
  if mode = true ∧ t ≠ .formatDescription then
    (raw.take (raw.length - Crc32.size)).drop EventHeader.size
  else raw.drop EventHeader.size

theorem length_bodyBytes_le (mode : Bool) (t : EventType) (raw : Bytes) :
    (bodyBytes mode t raw).length ≤ raw.length - EventHeader.size := by
  unfold bodyBytes
  split <;> simp only [List.length_drop, List.length_take] <;> omega

/-- What an event was checked for when it was decoded. -/
structure Passed (payload : Decode Transaction) (o : Options) (header : EventHeader) (raw : Bytes)
    (e : Event) : Prop where
  same : e.header = header
  value : (Body.readAs payload header.type).value (bodyBytes o.checksum header.type raw) =
    .ok e.body
  checked : if e.body.checksumIn o.checksum then verifyChecksum o raw = .ok e.crc32 else e.crc32 = 0

variable {payload : Decode Transaction} {o : Options} {header : EventHeader} {raw : Bytes}
  {event : Event}

/-- The ways out of a format description.  Whatever is wrong with it, its data, or a checksum that
is missing or another one, it leaves the options as they were; only when it is accepted they follow
its flag. -/
theorem decodeFormatDescription_cases (o : Options) (header : EventHeader) (raw : Bytes) :
    (∃ error, decodeFormatDescription o header raw = (.error error, o)) ∨
      ∃ d rest crc32, FormatDescription.read (raw.drop EventHeader.size) = .ok d rest ∧
        d.trailer rest o raw = .ok crc32 ∧
        decodeFormatDescription o header raw =
          (.ok { header, body := .formatDescription d, crc32 },
            { o with checksum := d.checksumEnabled }) := by
  unfold decodeFormatDescription
  cases reads : FormatDescription.read (raw.drop EventHeader.size) with
  | error e rest => exact .inl ⟨_, rfl⟩
  | ok d rest =>
      cases checks : d.trailer rest o raw with
      | error e => exact .inl ⟨e, by simp only [checks]⟩
      | ok crc32 => exact .inr ⟨d, rest, crc32, rfl, checks, by simp only [checks]⟩

/-- Behind a description that says so is a checksum, which was verified. -/
theorem verified_of_trailer {d : FormatDescription} {rest : Bytes} {crc32 : UInt32}
    (checks : d.trailer rest o raw = .ok crc32) :
    if d.checksumEnabled then verifyChecksum o raw = .ok crc32 else crc32 = 0 := by
  rw [FormatDescription.trailer] at checks
  by_cases enabled : d.checksumEnabled = true
  · rw [if_pos enabled] at checks ⊢
    split at checks
    · cases checks
    · exact checks
  · rw [if_neg enabled] at checks ⊢
    cases checks
    rfl

theorem passed_of_description {d : FormatDescription} {rest : Bytes} {crc32 : UInt32}
    (typed : header.type = .formatDescription)
    (reads : FormatDescription.read (raw.drop EventHeader.size) = .ok d rest)
    (checks : d.trailer rest o raw = .ok crc32) :
    Event.Passed payload o header raw { header, body := .formatDescription d, crc32 } := by
  have all : bodyBytes o.checksum header.type raw = raw.drop EventHeader.size :=
    if_neg fun other => other.2 typed
  have body : (Body.readAs payload header.type).value (raw.drop EventHeader.size) =
      .ok (.formatDescription d) := by
    rw [Body.readAs, if_pos typed]
    exact Decode.value_ofRead .formatDescription reads
  exact ⟨rfl, all ▸ body, verified_of_trailer checks⟩

theorem passed_of_decodeOrdinary (plain : header.type ≠ .formatDescription)
    (decodes : decodeOrdinary payload o header raw = .ok event) :
    event.Passed payload o header raw := by
  have reader : Body.readAs payload header.type = Body.readWith payload header.type := if_neg plain
  simp only [decodeOrdinary] at decodes
  split at decodes
  · rename_i enabled
    obtain ⟨crc32, verified, later⟩ := exists_of_bind_eq_ok decodes
    obtain ⟨body, value, same⟩ := exists_of_bind_eq_ok later
    cases same
    refine ⟨rfl, ?_, ?_⟩
    · rwa [reader, bodyBytes, if_pos ⟨enabled, plain⟩]
    · rwa [Body.checksumIn_of_readWith value, if_pos enabled]
  · rename_i enabled
    obtain ⟨body, value, same⟩ := exists_of_bind_eq_ok decodes
    cases same
    refine ⟨rfl, ?_, ?_⟩
    · rwa [reader, bodyBytes, if_neg fun both => enabled both.1]
    · rw [Body.checksumIn_of_readWith value, if_neg enabled]

/-- Only a format description has a mode of its own. -/
theorem Passed.checksumIn_of_plain (passed : event.Passed payload o header raw)
    (plain : header.type ≠ .formatDescription) (mode : Bool) :
    event.body.checksumIn mode = mode := by
  have value := passed.value
  rw [Body.readAs, if_neg plain] at value
  exact Body.checksumIn_of_readWith value mode

variable (payload o header raw) in
/-- The ways out of decoding.  A failure leaves the options, and an event has passed what it is
checked for and leaves the mode that its body puts in force. -/
theorem decodeWith_cases :
    (∃ error, decodeWith payload o header raw = (.error error, o)) ∨
      ∃ event : Event, event.Passed payload o header raw ∧
        decodeWith payload o header raw =
          (.ok event, { o with checksum := event.body.checksumIn o.checksum }) := by
  unfold decodeWith
  by_cases typed : header.type = .formatDescription
  · rw [if_pos typed]
    obtain failed | ⟨d, rest, crc32, reads, checks, decodes⟩ :=
      decodeFormatDescription_cases o header raw
    · exact .inl failed
    · exact .inr ⟨_, passed_of_description typed reads checks, decodes⟩
  · rw [if_neg typed]
    cases decodes : decodeOrdinary payload o header raw with
    | error e => exact .inl ⟨e, rfl⟩
    | ok event =>
        have passed := passed_of_decodeOrdinary typed decodes
        refine .inr ⟨event, passed, ?_⟩
        rw [passed.checksumIn_of_plain typed]

theorem passed_of_decodeWith (decodes : (decodeWith payload o header raw).1 = .ok event) :
    event.Passed payload o header raw := by
  obtain ⟨error, failed⟩ | ⟨event', passed, given⟩ := decodeWith_cases payload o header raw
  · rw [failed] at decodes
    cases decodes
  · rw [given] at decodes
    cases decodes
    exact passed

/-- Where no checksum follows, the body was read from all bytes behind the header. -/
theorem Passed.value_of_unchecked (passed : event.Passed payload o header raw)
    (unchecked : event.body.checksumIn o.checksum = false) :
    (Body.readAs payload header.type).value (raw.drop EventHeader.size) = .ok event.body := by
  have value := passed.value
  rw [bodyBytes, if_neg] at value
  · exact value
  · rintro ⟨enabled, plain⟩
    rw [passed.checksumIn_of_plain plain, enabled] at unchecked
    cases unchecked

/-- An event has the header that was read of it. -/
theorem header_of_decodeWith (decodes : (decodeWith payload o header raw).1 = .ok event) :
    event.header = header :=
  (passed_of_decodeWith decodes).same

end Event

end BinaryLog
