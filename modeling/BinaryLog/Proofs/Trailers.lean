/-
# BinaryLog.Proofs.Trailers -- which embedded events end with a checksum

The events of a payload are read one after the other by a stream of their own, which starts without
checksums (`EmbeddedEvents.behind_of_collectWithin`).  It is a stream like any other: a format
description among them says whether a checksum follows it and the events behind it.  So an event
that stands behind no such description was read without a checksum, its body from all bytes behind
the header; and one that stands behind it was read with one, which was validated.  The same holds in
every transaction within a transaction, where the mode starts anew
(`Transaction.embedded_of_decode`).
-/
import BinaryLog.Proofs.Levels
import BinaryLog.Proofs.Validation

namespace BinaryLog

set_option autoImplicit false

/-- The format description that an event is. -/
def Event.description? (e : Event) : Option FormatDescription :=
  BinaryLog.description? (.ok (some e))

/-! ## One payload -/

namespace EmbeddedEvents

variable {inner : Decode Transaction}

/-- Each of the events that are collected is given behind those in front of it, with the checksum
that these leave in force. -/
theorem behind_of_collectWithin {fuel : Nat} :
    ∀ {s : EventStream} {i : Nat} {before behind : List Event} {e : Event},
      collectWithin inner fuel { stream := some s, index := i } = .ok (before ++ e :: behind) →
      let here := EventStream.behind inner before.length s
      (here.nextWith inner).1 = .ok (some e) ∧
        here.options =
          { s.options with
            checksum := Options.modeBehind s.options.checksum
              (before.filterMap Event.description?) } := by
  induction fuel with
  | zero =>
      intro s i before behind e collects
      cases before <;> cases collects
  | succ fuel ih =>
      intro s i before behind e collects
      simp only [collectWithin] at collects
      split at collects
      · cases before <;> cases collects
      · cases collects
      · rename_i event e' next
        obtain ⟨later, rest, same⟩ := exists_of_bind_eq_ok collects
        obtain ⟨given, rfl⟩ := stream_of_nextWith next
        cases before with
        | nil =>
            cases same
            exact ⟨congrArg Prod.fst given, rfl⟩
        | cons first before =>
            cases same
            obtain ⟨gives, options⟩ := ih rest
            have step := EventStream.options_nextWith inner s
            rw [given, Options.afterCall] at step
            refine ⟨gives, ?_⟩
            rw [List.length_cons, EventStream.behind, options, List.filterMap_cons,
              Event.description?]
            -- the first event sets the mode in which the others start, or leaves it
            cases described : BinaryLog.description? (.ok (some event)) with
            | none => simp only [described] at step; simp only [step]
            | some d =>
                simp only [described] at step
                simp only [step, Options.modeBehind_cons]

end EmbeddedEvents

/-! ## Payloads that hold descriptions -/

namespace EmbeddedEvents

variable (inner : Decode Transaction)

/-- One written event is read like one of a plain stream. -/
theorem nextWith_of_written {e : Event} {o : Options} {raw bs : Bytes} {source : Source} {i : Nat}
    (writable : e.Writable) (leaf : e.type ≠ .transactionPayload)
    (written : e.encode (e.body.checksumIn o.checksum) = .ok raw)
    (delivers : source.Delivers .clean (raw ++ bs)) :
    let checksum := e.body.checksumIn o.checksum
    ∃ source', source'.Delivers .clean bs ∧
      nextWith inner { stream := some { options := o, source }, index := i } =
        (some (.ok (e.stored raw checksum)),
          { stream := some { options := { o with checksum }, source := source' }
            index := i + 1 }) := by
  intro checksum
  obtain ⟨body, encoded, framed⟩ := Event.encode_cases written
  obtain ⟨source', next, left⟩ := EventStream.nextWith_of_frame inner
    (s := { options := o, source }) delivers (Event.leastLength_le_encode writable written)
    (declaredLength_frame framed)
  refine ⟨source', left, ?_⟩
  have other : (EventHeader.ofBytes raw).type ≠ .transactionPayload := by
    rw [EventHeader.ofBytes_frame framed]
    exact leaf
  have decodes := Event.decodeWith_encode writable written
  rw [Event.decodeWith_congr Transaction.decode inner other] at decodes
  rw [decodes] at next
  exact nextWith_of_event inner next

theorem collectWithin_of_written {events : List Event} :
    ∀ {fuel i : Nat} {o : Options} {out bs : Bytes} {found : List Event} {source : Source},
      (∀ e ∈ events, e.Writable ∧ e.type ≠ .transactionPayload) →
      Event.writeAll o.checksum out events = .ok (found, out ++ bs) →
      source.Delivers .clean bs → events.length < fuel →
      collectWithin inner fuel { stream := some { options := o, source }, index := i } =
        .ok found := by
  induction events with
  | nil =>
      intro fuel i o out bs found source _ written delivers enough
      obtain ⟨fuel, rfl⟩ := Nat.exists_eq_succ_of_ne_zero (Nat.ne_of_gt enough)
      obtain ⟨rfl, rfl⟩ := Event.writeAll_nil written
      exact collectWithin_at_end delivers
  | cons e events ih =>
      intro fuel i o out bs found source writable written delivers enough
      rw [List.length_cons] at enough
      obtain ⟨fuel, rfl⟩ := Nat.exists_eq_succ_of_ne_zero (Nat.ne_of_gt (Nat.zero_lt_of_lt enough))
      obtain ⟨raw, later, behind, rfl, first, tail, rfl⟩ := Event.writeAll_first written
      obtain ⟨here, others⟩ := List.forall_mem_cons.1 writable
      obtain ⟨source', left, next⟩ :=
        nextWith_of_written inner (i := i) here.1 here.2 first delivers
      exact collectWithin_cons next (ih others tail left (by omega))

end EmbeddedEvents

theorem Event.length_le_writeAll {events : List Event} :
    ∀ {mode : Bool} {out bs : Bytes} {found : List Event},
      writeAll mode out events = .ok (found, out ++ bs) → events.length ≤ bs.length := by
  induction events with
  | nil => intro mode out bs found _; exact Nat.zero_le _
  | cons e events ih =>
      intro mode out bs found written
      obtain ⟨raw, later, behind, rfl, first, tail, -⟩ := writeAll_first written
      have pos : 0 < EventHeader.size := by decide
      have long := length_pos_of_encode first
      have rest := ih tail
      rw [List.length_cons, List.length_append]
      omega

/-- A payload that is stored as it is gives the events that were written into it, with the checksums
that the descriptions among them announce. -/
theorem Transaction.decode_of_written {p : Transaction} {events : List Event} (sized : p.Sized)
    (stored : p.header.compression = .stored) (some : p.payload ≠ [])
    (writable : ∀ e ∈ events, e.Writable ∧ e.type ≠ .transactionPayload)
    (written : Event.writeAll false [] events = .ok (p.events, p.payload)) :
    decode p.encode = .ok p [] := by
  obtain ⟨header, payload, found⟩ := p
  have opens : header.compression.source payload = .ok (.ofBytes payload) := by
    rw [show header.compression = .stored from stored]
    rfl
  have whole : Event.writeAll false [] events = .ok (found, [] ++ payload) := written
  have few : events.length < (Source.ofBytes payload).bound + 1 := by
    have most := Event.length_le_writeAll whole
    rw [Source.bound, Source.size_ofBytes]
    omega
  have collects := EmbeddedEvents.collectWithin_of_written decodeEmbedded (i := 0) (o := {})
    writable whole (Source.delivers_ofBytes payload) few
  have held : eventsWith decodeEmbedded header.compression payload = .ok found := by
    simp only [eventsWith, EmbeddedEvents.new_eq some opens, bind, Except.bind,
      EmbeddedEvents.collect, EmbeddedEvents.ofSource, collects]
  exact decodeWith_encode sized held

/-! ## Payloads within payloads -/

/-- A transaction is within itself, and within those that it is embedded in. -/
inductive TransactionPayload.Within : Transaction → Transaction → Prop
  | self {t : Transaction} : TransactionPayload.Within t t
  | embedded {t t' outer : Transaction} {e : Event} (member : e ∈ outer.events)
      (holds : e.body = .transactionPayload t') (within : TransactionPayload.Within t t') :
      TransactionPayload.Within t outer

namespace Transaction

theorem exists_source_of_eventsWith {inner : Decode Transaction} {compression : Compression}
    {payload : Bytes} {before behind : List Event} {e : Event}
    (held : eventsWith inner compression payload = .ok (before ++ e :: behind)) :
    ∃ source fuel, compression.source payload = .ok source ∧
      EmbeddedEvents.collectWithin inner fuel
        { stream := some { options := {}, source }, index := 0 } = .ok (before ++ e :: behind) := by
  obtain ⟨events, opens, collects⟩ := exists_of_bind_eq_ok held
  obtain ⟨source, opened, same⟩ := exists_of_bind_eq_ok opens
  cases same
  simp only [EmbeddedEvents.collect] at collects
  split at collects
  · cases before <;> cases collects
  · rename_i s stream
    split at stream
    · cases stream
    · cases stream
      rename_i full
      rw [if_neg full] at collects
      exact ⟨source, _, opened, collects⟩

variable {bs rest : Bytes} {t : Transaction}

/-- What an event of a transaction that is decoded has passed. -/
theorem exists_of_decode (decodes : decode bs = .ok t rest) {before behind : List Event} {e : Event}
    (split : t.events = before ++ e :: behind) :
    ∃ source, t.header.compression.source t.payload = .ok source ∧
      let here := EventStream.behind decode before.length { options := {}, source }
      (here.nextWith decode).1 = .ok (some e) ∧
        here.options = { checksum := Options.modeBehind false (before.filterMap Event.description?),
                         validate := true } := by
  have held :=
    eventsWith_of_extends decode_extends_decodeEmbedded (eventsWith_of_decodeWith decodes)
  rw [split] at held
  obtain ⟨source, fuel, opens, collects⟩ := exists_source_of_eventsWith held
  exact ⟨source, opens, EmbeddedEvents.behind_of_collectWithin collects⟩

/-- A transaction within one that is decoded is decoded itself. -/
theorem decodes_of_within {inner : Transaction} (within : inner.Within t) :
    ∀ {bs rest : Bytes}, decode bs = .ok t rest → ∃ bs' rest', decode bs' = .ok inner rest' := by
  induction within with
  | self => intro bs rest decodes; exact ⟨bs, rest, decodes⟩
  | embedded member holds within ih =>
      intro bs rest decodes
      obtain ⟨before, behind, split⟩ := List.append_of_mem member
      obtain ⟨source, -, given, -⟩ := exists_of_decode decodes split
      obtain ⟨raw, -, -, passed⟩ := EventStream.passed_of_given (Prod.ext given rfl)
      have value := passed.value
      rw [holds] at value
      obtain ⟨rest', decodes'⟩ := Body.exists_of_transaction value
      exact ih decodes'

/-- **An embedded event has a checksum just if a description in its payload says so.**  In every
transaction within one that is decoded, each event was cut from the payload behind those in front of
it.  A description goes by its own flag, any other event by that of the last description in front of
it.  Where there is none, or where it does not announce checksums, the event has no trailer: its
checksum is zero, and its body was read from all bytes behind the header.  Else its last four bytes
are its checksum, which is that of header and body. -/
theorem embedded_of_decode (decodes : decode bs = .ok t rest) {inner : Transaction}
    (within : inner.Within t) {before behind : List Event} {e : Event}
    (split : inner.events = before ++ e :: behind) :
    let mode := Options.modeBehind false (before.filterMap Event.description?)
    ∃ source raw, inner.header.compression.source inner.payload = .ok source ∧
      (let here := EventStream.behind decode before.length { options := {}, source }
        ∃ source', cut (Options.leastLength { checksum := mode }) here.source =
          (.event e.header raw, source')) ∧
      raw.length = e.header.eventLength.toNat ∧
      (e.body.checksumIn mode = false →
        e.crc32 = 0 ∧
          (Body.readAs decode e.type).value (raw.drop EventHeader.size) = .ok e.body) ∧
      (e.body.checksumIn mode = true →
        Word.bytes e.crc32 = raw.drop (raw.length - Crc32.size) ∧
          e.crc32 = Crc32.checksum (raw.take (raw.length - Crc32.size)) ∧
          (Body.readAs decode e.type).value (Event.bodyBytes mode e.type raw) = .ok e.body) := by
  intro mode
  obtain ⟨bs', rest', decodes'⟩ := decodes_of_within within decodes
  obtain ⟨source, opens, given, options⟩ := exists_of_decode decodes' split
  obtain ⟨raw, cuts, length, passed⟩ := EventStream.passed_of_given (Prod.ext given rfl)
  have there : Crc32.size ≤ raw.length := by
    obtain ⟨-, least, -⟩ := Source.framed_of_cut (Options.size_le_leastLength _) cuts
    exact Nat.le_trans (by decide) (Nat.le_trans (Options.size_le_leastLength _) least)
  rw [options] at cuts passed
  have checked := passed.checked
  refine ⟨source, raw, opens, ⟨_, cuts⟩, length, ?_, ?_⟩
  · intro unchecked
    rw [if_neg (Bool.eq_false_iff.1 unchecked)] at checked
    exact ⟨checked, passed.value_of_unchecked unchecked⟩
  · intro enabled
    rw [if_pos enabled] at checked
    refine ⟨?_, checksum_of_verified rfl checked, passed.value⟩
    rw [verifyChecksum_eq checked, Word.bytes_ofBytes]
    rw [List.length_drop]
    exact Nat.sub_sub_self there

end Transaction

namespace Example

/-- A description and a commit, both with checksums, as they are read back, and their bytes. -/
def announced : List Event × Bytes :=
  (Event.writeAll false [] [description 1, commit]).toOption.getD ([], [])

theorem announced_written : Event.writeAll false [] [description 1, commit] = .ok announced :=
  eq_ok_getD (by decide +kernel) ([], [])

/-- The two of them as the payload of a transaction. -/
def announcing : Transaction where
  header := { payloadSize := 153, compressionType := 255, uncompressedSize := 153 }
  payload := announced.2
  events := announced.1

theorem announcing_decoded : Transaction.decode announcing.encode = .ok announcing [] := by
  refine Transaction.decode_of_written ⟨by decide +kernel, by decide⟩ rfl (by decide +kernel) ?_
    announced_written
  intro e member
  refine ⟨session_writable e ?_, ?_⟩
  · simp only [session, List.mem_cons, List.not_mem_nil, or_false] at member ⊢
    rcases member with rfl | rfl
    · exact .inl rfl
    · exact .inr (.inr (.inl rfl))
  · rcases List.mem_pair.1 member with rfl | rfl <;> decide

/-- The transaction in a compressed payload, as it is read back. -/
theorem tree_decoded :
    Transaction.decode tree.encode = .ok (TransactionPayload.readBack tree) [] := by
  rw [Transaction.decode_eq_decodeAt]
  refine Transaction.decodeAt_encode tree_wellNested
    (Nat.le_trans (TransactionPayload.height_le tree_wellNested) ?_)
  exact Transaction.payloads_le (by decide)

end Example

/-- The commit behind the description is read with its checksum, and the one in the compressed
payload within a payload without any. -/
theorem embedded_of_announcing :
    (Transaction.decode Example.announcing.encode = .ok Example.announcing [] ∧
      ∃ (first second : Event) (raw : Bytes), Example.announcing.events = [first, second] ∧
        raw.length = 31 ∧ second.crc32 = 0xde394156 ∧
        second.crc32 = Crc32.checksum (raw.take (raw.length - Crc32.size))) ∧
      Transaction.decode Example.tree.encode = .ok (TransactionPayload.readBack Example.tree) [] ∧
      ∃ (inner : Transaction) (e : Event) (raw : Bytes),
        inner.Within (TransactionPayload.readBack Example.tree) ∧ inner.events = [e] ∧
        raw.length = 27 ∧ e.crc32 = 0 ∧
        (Body.readAs Transaction.decode e.type).value (raw.drop EventHeader.size) = .ok e.body := by
  refine ⟨⟨Example.announcing_decoded, ?_⟩, Example.tree_decoded, ?_⟩
  · obtain ⟨first, second, events⟩ : ∃ first second, Example.announcing.events = [first, second] :=
      List.length_eq_two.1 (by decide +kernel)
    have mode : Options.modeBehind false
        ((Example.announcing.events.take 1).filterMap Event.description?) = true := by
      decide +kernel
    have found : (Example.announcing.events.drop 1).map
        (fun e => (e.header.eventLength, e.crc32, e.body.checksumIn true)) =
          [(31, 0xde394156, true)] := by decide +kernel
    rw [events] at mode found
    simp only [List.drop_succ_cons, List.drop_zero, List.map_cons, List.map_nil, List.cons.injEq,
      Prod.mk.injEq, and_true] at found
    obtain ⟨length, crc32, checked⟩ := found
    have split : Example.announcing.events = [first] ++ second :: [] := events
    obtain ⟨source, raw, -, -, same, -, enabled⟩ :=
      Transaction.embedded_of_decode Example.announcing_decoded .self split
    change Options.modeBehind false ([first].filterMap Event.description?) = true at mode
    rw [length] at same
    rw [mode] at enabled
    obtain ⟨-, right, -⟩ := enabled checked
    exact ⟨first, second, raw, events, same, crc32, right⟩
  · obtain ⟨outer, member, inner, holds, events, length⟩ :
        ∃ outer ∈ (TransactionPayload.readBack Example.tree).events, ∃ inner,
          outer.body = .transactionPayload inner ∧ inner.events = [Example.commit.found] ∧
            Example.commit.found.header.eventLength = 27 :=
      ⟨_, List.mem_cons_of_mem _ List.mem_cons_self, _, rfl, rfl, by decide +kernel⟩
    have within := TransactionPayload.Within.embedded member holds .self
    have split : inner.events = [] ++ Example.commit.found :: [] := events
    obtain ⟨source, raw, -, -, same, plain, -⟩ :=
      Transaction.embedded_of_decode Example.tree_decoded within split
    rw [length] at same
    obtain ⟨crc32, value⟩ := plain rfl
    exact ⟨inner, _, raw, within, events, same, crc32, value⟩

/-- An embedded event with a checksum that is not zero. -/
theorem announcing_has_checksum :
    Transaction.decode Example.announcing.encode = .ok Example.announcing [] ∧
      ∃ e ∈ Example.announcing.events, e.header.eventLength = 31 ∧ e.crc32 = 0xde394156 := by
  refine ⟨Example.announcing_decoded, ?_⟩
  have found : (Example.announcing.events.map fun e => (e.header.eventLength, e.crc32))[1]? =
      some (31, 0xde394156) := by decide +kernel
  rw [List.getElem?_map] at found
  obtain ⟨e, there, same⟩ := Option.map_eq_some_iff.1 found
  obtain ⟨length, crc32⟩ := Prod.mk.inj same
  exact ⟨e, List.mem_of_getElem? there, length, crc32⟩

end BinaryLog
