/-
# BinaryLog.Proofs.Kinds -- which events are told apart, and how

`Event.kinds` lists the events that have a body of their own: their code, the type of their data,
and the body that carries it.  What turns codes into types, types into readers, and bodies into data
was written for each type apart; all of it agrees with this list.  So every event that is given has
the body that is listed for its code and is data of the type that is listed, and of no other; and if
its code is not listed it has kept its bytes (`Event.kinds_agree`).

An event of a code that is not listed cannot fail but for its checksum.
-/
import BinaryLog.Proofs.Given

namespace BinaryLog

set_option autoImplicit false

/-! ## The list -/

/-- Events with a body of their own. -/
structure Event.Kind where
  code : UInt8
  data : DataType
  body : data.Data → Body

/-- The kinds of events that are told apart. -/
def Event.kinds : List Event.Kind :=
  [⟨2, .query, .query⟩, ⟨3, .stop, fun _ => .stop⟩, ⟨4, .rotate, .rotate⟩, ⟨5, .intvar, .intvar⟩,
    ⟨13, .rand, .rand⟩, ⟨14, .userVar, .userVar⟩, ⟨15, .formatDescription, .formatDescription⟩,
    ⟨16, .xid, .xid⟩, ⟨19, .tableMap, .tableMap⟩, ⟨26, .incident, .incident⟩,
    ⟨27, .heartbeat, .heartbeat⟩, ⟨29, .rowsQuery, .rowsQuery⟩, ⟨30, .rows, .writeRows⟩,
    ⟨31, .rows, .updateRows⟩, ⟨32, .rows, .deleteRows⟩, ⟨33, .gtid, .gtid⟩,
    ⟨34, .gtid, .anonymousGtid⟩, ⟨35, .previousGtids, .previousGtids⟩,
    ⟨40, .transactionPayload, .transactionPayload⟩]

namespace EventType

/-- Only an invalid code is not that of its type. -/
theorem code_ofCode {c : UInt8} (valid : ofCode c ≠ .invalid) : (ofCode c).code = c := by
  revert valid
  unfold ofCode
  split
  case h_43 => exact fun valid => absurd rfl valid
  all_goals exact fun _ => rfl

end EventType

namespace Event

theorem type_valid {k : Kind} (listed : k ∈ kinds) : EventType.ofCode k.code ≠ .invalid := by
  revert k
  decide

/-- A listed code is the only one of its type. -/
theorem code_eq {k : Kind} (listed : k ∈ kinds) {c : UInt8}
    (same : EventType.ofCode k.code = EventType.ofCode c) : k.code = c := by
  have valid := type_valid listed
  rw [← EventType.code_ofCode valid, same, EventType.code_ofCode (same ▸ valid)]

/-! ## Readers -/

/-- The reader of a kind brings its body, if anything, and the body is data of its type. -/
structure Kind.Sound (k : Kind) : Prop where
  reads : ∀ {payload : Decode Transaction} {bs : Bytes} {b : Body},
    (Body.readAs payload (EventType.ofCode k.code)).value bs = .ok b → ∃ d, b = k.body d
  carries : ∀ d, (k.body d).data = ⟨k.data, d⟩

theorem Kind.Sound.of_read {k : Kind} (r : Wire.Read k.data.Data)
    (reader : ∀ payload,
      Body.readAs payload (EventType.ofCode k.code) = .ofRead (k.body <$> r) := by intro; rfl)
    (carries : ∀ d, (k.body d).data = ⟨k.data, d⟩ := by intro; rfl) : k.Sound where
  reads value := Decode.of_value_ofRead (reader _ ▸ value)
  carries := carries

theorem sound_stop : Kind.Sound ⟨3, .stop, fun _ => .stop⟩ where
  reads value := ⟨(), (Except.ok.inj value).symm⟩
  carries _ := rfl

theorem sound_transactionPayload :
    Kind.Sound ⟨40, .transactionPayload, .transactionPayload⟩ where
  reads value := by
    obtain ⟨t, rest, -, same⟩ := Decode.of_value_map value
    exact ⟨t, same⟩
  carries _ := rfl

theorem sound_of_listed : ∀ k ∈ kinds, k.Sound := by
  simp only [kinds, List.forall_mem_cons]
  exact ⟨.of_read Query.read, sound_stop, .of_read Rotate.read, .of_read Intvar.read,
    .of_read Rand.read, .of_read UserVar.read, .of_read FormatDescription.read,
    .of_read Xid.read, .of_read TableMapEvent.read, .of_read Incident.read,
    .of_read Heartbeat.read, .of_read RowsQuery.read, .of_read RowsEvent.read,
    .of_read RowsEvent.read, .of_read RowsEvent.read, .of_read GtidEvent.read,
    .of_read GtidEvent.read, .of_read PreviousGtids.read, sound_transactionPayload, nofun⟩

/-- An event of any other code is of no type that is listed. -/
theorem types_of_other {h : EventHeader} (other : ∀ k ∈ kinds, k.code ≠ h.typeCode) :
    (∀ k ∈ kinds, EventType.ofCode k.code ≠ h.type) ∧
      h.type ≠ .formatDescription ∧ h.type ≠ .transactionPayload := by
  have unlisted : ∀ k ∈ kinds, EventType.ofCode k.code ≠ h.type :=
    fun k listed same => other k listed (code_eq listed same)
  refine ⟨unlisted, fun same => ?_, fun same => ?_⟩
  · rw [same] at unlisted
    exact absurd unlisted (by decide)
  · rw [same] at unlisted
    exact absurd unlisted (by decide)

/-- The bytes of other events are kept. -/
theorem unknown_of_readWith {payload : Decode Transaction} {t : EventType} {bs : Bytes}
    (other : ∀ k ∈ kinds, EventType.ofCode k.code ≠ t) :
    (Body.readWith payload t).value bs = .ok (.unknown bs) := by
  unfold Body.readWith
  split
  case h_19 => rfl
  all_goals exact absurd other (by decide)

/-! ## Conversions -/

/-- An event is data of one type, its header and checksum unchanged, and of no other. -/
def Converts (e : Event) (t : DataType) (d : t.Data) : Prop :=
  e.as t = .ok { header := e.header, body := d, crc32 := e.crc32 } ∧
    ∀ t', t' ≠ t → e.as t' = .error (.wrongType e.type)

theorem converts_of_data {e : Event} {t : DataType} {d : t.Data} (data : e.body.data = ⟨t, d⟩) :
    e.Converts t d := by
  unfold Converts as
  rw [data]
  exact ⟨dif_pos rfl, fun t' other => dif_neg other.symm⟩

/-! ## Bytes -/

/-- `content` is all that stands between header and checksum, if there is one. -/
def Between (mode : Bool) (raw content : Bytes) : Prop :=
  ∃ front trailer, raw = front ++ (content ++ trailer) ∧ front.length = EventHeader.size ∧
    trailer.length = if mode then Crc32.size else 0

theorem between_bodyBytes {o : Options} {t : EventType} {raw : Bytes}
    (plain : t ≠ .formatDescription) (long : o.leastLength ≤ raw.length) :
    Between o.checksum raw (bodyBytes o.checksum t raw) := by
  have front := List.take_append_drop EventHeader.size raw
  unfold Options.leastLength at long
  cases enabled : o.checksum with
  | false =>
      simp only [enabled, Bool.false_eq_true, if_false] at long
      refine ⟨raw.take EventHeader.size, [], ?_, List.length_take_of_le long, rfl⟩
      simp only [bodyBytes, Bool.false_eq_true, false_and, if_false, List.append_nil, front]
  | true =>
      simp only [enabled, if_true] at long
      have there : EventHeader.size ≤ raw.length - Crc32.size := by omega
      refine ⟨raw.take EventHeader.size, raw.drop (raw.length - Crc32.size), ?_,
        List.length_take_of_le (by omega), ?_⟩
      · have same : (raw.take (raw.length - Crc32.size)).take EventHeader.size =
            raw.take EventHeader.size := by
          rw [List.take_take, Nat.min_eq_left there]
        rw [bodyBytes, if_pos ⟨rfl, plain⟩, ← List.append_assoc, ← same, List.take_append_drop,
          List.take_append_drop]
      · rw [List.length_drop, if_pos rfl]
        omega

/-! ## Events that are given -/

/-- An event has the body that is listed for its code, or it has kept its bytes. -/
inductive Agrees (e : Event) (o : Options) (raw : Bytes) : Prop
  | listed {k : Kind} {d : k.data.Data} (listed : k ∈ kinds) (coded : k.code = e.header.typeCode)
      (holds : e.body = k.body d) (converts : e.Converts k.data d) : Agrees e o raw
  | other {content : Bytes} (other : ∀ k ∈ kinds, k.code ≠ e.header.typeCode)
      (holds : e.body = .unknown content) (between : Between o.checksum raw content)
      (converts : e.Converts .unknown content) : Agrees e o raw

theorem agrees_of_origin {e : Event} {o : Options} {raw : Bytes} (origin : e.Origin o raw) :
    e.Agrees o raw := by
  obtain ⟨long, -, -, passed⟩ := origin.passed
  by_cases named : ∃ k ∈ kinds, k.code = e.header.typeCode
  · obtain ⟨k, listed, coded⟩ := named
    have sound := sound_of_listed k listed
    have type : e.header.type = EventType.ofCode k.code := by rw [coded]; rfl
    obtain ⟨d, holds⟩ := sound.reads (type ▸ passed.value)
    exact .listed listed coded holds (converts_of_data (holds ▸ sound.carries d))
  · have other : ∀ k ∈ kinds, k.code ≠ e.header.typeCode :=
      fun k listed coded => named ⟨k, listed, coded⟩
    obtain ⟨unlisted, plain, -⟩ := types_of_other other
    have value := passed.value
    rw [Body.readAs, if_neg plain, unknown_of_readWith unlisted] at value
    have holds := (Except.ok.inj value).symm
    exact .other other holds (between_bodyBytes plain long)
      (converts_of_data (congrArg Body.data holds))

theorem typeCode_of_ofBytes {raw : Bytes} (there : EventHeader.size ≤ raw.length) :
    raw[4]? = some (EventHeader.ofBytes raw).typeCode := by
  have inside : 4 < raw.length := Nat.lt_of_lt_of_le (by decide) there
  have code : (EventHeader.ofBytes raw).typeCode = Word.ofBytes ((raw.drop 4).take 1) := rfl
  have single : (Word.ofBytes [raw[4]] : UInt8) = raw[4] := UInt8.ofNat_toNat
  rw [code, List.drop_eq_getElem_cons inside, List.take_succ_cons, List.take_zero, single,
    List.getElem?_eq_getElem inside]

/-! ## Events of other codes -/

/-- The checksum at the end. -/
def expectedChecksum (raw : Bytes) : UInt32 := Word.ofBytes (raw.drop (raw.length - Crc32.size))

/-- The checksum of the bytes in front of it. -/
def actualChecksum (raw : Bytes) : UInt32 := Crc32.checksum (raw.take (raw.length - Crc32.size))

/-- A checksum is in force and validated, and it is wrong. -/
def Mismatched (o : Options) (raw : Bytes) : Prop :=
  o.checksum = true ∧ o.validate = true ∧ expectedChecksum raw ≠ actualChecksum raw

/-- An event that keeps its bytes, and its code with them. -/
def kept (o : Options) (raw : Bytes) : Event where
  header := .ofBytes raw
  body := .unknown (bodyBytes o.checksum (EventHeader.ofBytes raw).type raw)
  crc32 := if o.checksum then expectedChecksum raw else 0

/-- What a whole event of another code comes to. -/
inductive Kept (o : Options) (raw : Bytes) : Except Error Event → Prop
  | kept (right : ¬ Mismatched o raw) : Kept o raw (.ok (kept o raw))
  | mismatched (wrong : Mismatched o raw) :
      Kept o raw (.error (.checksumMismatch (expectedChecksum raw) (actualChecksum raw)))

variable {o : Options} {raw : Bytes}

theorem kept_decodeWith (inner : Decode Transaction) (o : Options)
    (other : ∀ k ∈ kinds, k.code ≠ (EventHeader.ofBytes raw).typeCode) :
    ∃ result, Kept o raw result ∧ decodeWith inner o (.ofBytes raw) raw = (result, o) := by
  obtain ⟨unlisted, plain, -⟩ := types_of_other other
  have value (bs : Bytes) : (Body.readWith inner (EventHeader.ofBytes raw).type).value bs =
      .ok (.unknown bs) := unknown_of_readWith unlisted
  rw [decodeWith, if_neg plain]
  by_cases wrong : Mismatched o raw
  · obtain ⟨enabled, validated, differs⟩ := wrong
    have refused : verifyChecksum o raw =
        .error (.checksumMismatch (expectedChecksum raw) (actualChecksum raw)) :=
      if_pos ⟨validated, differs⟩
    refine ⟨_, .mismatched ⟨enabled, validated, differs⟩, ?_⟩
    rw [decodeOrdinary_of_mismatch enabled refused]
  · have same : decodeOrdinary inner o (.ofBytes raw) raw = .ok (kept o raw) := by
      unfold decodeOrdinary kept bodyBytes
      cases enabled : o.checksum with
      | false =>
          simp only [Bool.false_eq_true, if_false, value, false_and]
          rfl
      | true =>
          have verified : verifyChecksum o raw = .ok (expectedChecksum raw) :=
            if_neg fun both => wrong ⟨enabled, both⟩
          simp only [if_true, verified, value, true_and, if_pos plain]
          rfl
    exact ⟨_, .kept wrong, by rw [same]⟩

/-- What a whole event comes to on its own, as the next one of a stream, and as the next one in a
payload of which no read has failed, nor does one fail then.  A stream goes on behind it with the
same options, and so does a payload unless the event fails. -/
structure ComesTo (o : Options) (raw : Bytes) (result : Except Error Event) : Prop where
  given : ∀ {ending : Ending} {bs : Bytes} {source : Source}, source.Delivers ending (raw ++ bs) →
    ∃ source', source'.Delivers ending bs ∧ source'.raised = source.raised ∧
      EventStream.next { options := o, source } =
        (some <$> result, { options := o, source := source' }) ∧
      (source.raised = none → ∀ i,
        EmbeddedEvents.next { stream := some { options := o, source }, index := i } =
        match result with
        | .ok event =>
          (some (.ok event),
            { stream := some { options := o, source := source' }, index := i + 1 })
        | .error e => (some (.error (.subEvent i e)), { stream := none, index := i }))
  parsed : parse o raw = (result, o)

theorem exists_kept (long : o.leastLength ≤ raw.length) (exact : declaredLength raw = raw.length)
    (other : ∀ k ∈ kinds, k.code ≠ (EventHeader.ofBytes raw).typeCode) :
    ∃ result, Kept o raw result ∧ ComesTo o raw result := by
  obtain ⟨result, kept, decodes⟩ := kept_decodeWith Transaction.decode o other
  obtain ⟨-, -, leaf⟩ := types_of_other other
  have parsed : parse o raw = (result, o) := (parseWith_of_frame long exact).trans decodes
  refine ⟨result, kept, fun {ending bs source} delivers => ?_, parsed⟩
  obtain ⟨source', cuts, left⟩ :=
    Source.cut_of_frame delivers o.size_le_leastLength long exact
  have keeps := Source.cut_raised o.leastLength source
  rw [cuts] at keeps
  refine ⟨source', left, keeps, ?_, fun quiet i => ?_⟩
  · simp only [EventStream.next, EventStream.nextWith, cuts, decodes]
  · let s : EventStream := { options := o, source }
    have next : s.nextWith Transaction.decodeEmbedded =
        (some <$> result, { options := o, source := source' }) := by
      simp only [EventStream.nextWith, s, cuts,
        decodeWith_congr Transaction.decodeEmbedded Transaction.decode leaf, decodes]
    cases result with
    | ok event => exact EmbeddedEvents.nextWith_of_event Transaction.decodeEmbedded next
    | error e =>
        have last : ∀ event, (s.nextWith Transaction.decodeEmbedded).1 ≠ .ok (some event) := by
          intro event gives
          rw [next] at gives
          cases gives
        have quiet' : (s.nextWith Transaction.decodeEmbedded).2.source.raised = none := by
          rw [next]
          exact keeps.trans quiet
        refine (EmbeddedEvents.nextWith_of_quiet _ last quiet').trans ?_
        rw [next]
        rfl

/-- **Kinds agree.**  No code is listed twice.  Every event that is given, at whatever depth, has
the code that stands in its bytes; it has the body that is listed for that, and is data of the type
that is listed, and of no other; if none is listed, it has kept all bytes between header and
checksum.

A whole event of a code that is not listed is given with its bytes kept, unless its checksum is
validated and wrong. -/
theorem kinds_agree :
    (kinds.map Kind.code).Nodup ∧
      (∀ e : Event, e.Given →
        (∃ o raw, e.Origin o raw) ∧
        ∀ o raw, e.Origin o raw → raw[4]? = some e.header.typeCode ∧ e.Agrees o raw) ∧
      ∀ (o : Options) (raw : Bytes), o.leastLength ≤ raw.length → declaredLength raw = raw.length →
        (∀ k ∈ kinds, k.code ≠ (EventHeader.ofBytes raw).typeCode) →
        ∃ result, Kept o raw result ∧ ComesTo o raw result := by
  refine ⟨by decide, fun e given => ⟨given.exists_origin, fun o raw origin => ⟨?_, ?_⟩⟩, ?_⟩
  · obtain ⟨long, -, same, -⟩ := origin.passed
    rw [same]
    exact typeCode_of_ofBytes (Nat.le_trans o.size_le_leastLength long)
  · exact agrees_of_origin origin
  · exact fun o raw long exact other => exists_kept long exact other

end Event

namespace Example

/-- An event of a code that no type has. -/
def unassigned : Bytes := [0, 0, 0, 0, 200, 1, 0, 0, 0, 21, 0, 0, 0, 0, 0, 0, 0, 0, 0, 7, 8]

end Example

theorem unassigned_kept :
    (∀ k ∈ Event.kinds, k.code ≠ (EventHeader.ofBytes Example.unassigned).typeCode) ∧
      Event.parse {} Example.unassigned = (.ok (.kept {} Example.unassigned), {}) ∧
      (Event.kept {} Example.unassigned).Given ∧
      (Event.kept {} Example.unassigned).Agrees {} Example.unassigned := by
  obtain ⟨-, agree, others⟩ := Event.kinds_agree
  have other : ∀ k ∈ Event.kinds, k.code ≠ (EventHeader.ofBytes Example.unassigned).typeCode := by
    decide
  obtain ⟨result, kept, -, parsed⟩ := others {} Example.unassigned (by decide) rfl other
  have gives : Event.parse {} Example.unassigned = (.ok (.kept {} Example.unassigned), {}) := by
    cases kept with
    | kept => exact parsed
    | mismatched wrong => exact absurd wrong.1 (by decide)
  have given := congrArg Prod.fst gives
  exact ⟨other, gives, .parsed given, ((agree _ (.parsed given)).2 _ _ (.parsed given)).2⟩

example : Event.as .query (Event.kept {} Example.unassigned) = .error (.wrongType .invalid) := by
  rfl

end BinaryLog
