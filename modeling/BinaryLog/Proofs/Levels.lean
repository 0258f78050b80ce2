/-
# BinaryLog.Proofs.Levels -- more levels decode the same

How a payload is decoded is a parameter of every decoder that may meet one.  Where that is made to
decode more (`Decode.Extends`), everything that was decoded still is, and to the same.  So it does
not matter how many levels of nesting are left to follow: what `Transaction.decodeEmbedded` decodes,
`Transaction.decode` does too (`Transaction.decode_extends_decodeEmbedded`), and every transaction
within another one is decoded like one that stands alone.
-/
import BinaryLog.Proofs.Decoded
import BinaryLog.Proofs.Depth

namespace BinaryLog

set_option autoImplicit false

/-- Whatever the second decodes, the first one decodes to the same. -/
def Decode.Extends (outer inner : Decode Transaction) : Prop :=
  ∀ ⦃bs rest : Bytes⦄ ⦃t : Transaction⦄, inner bs = .ok t rest → outer bs = .ok t rest

variable {inner outer : Decode Transaction}

/-! ## Events -/

namespace Body

variable (inner outer) in
/-- Only the bodies of transactions ask how a payload is decoded. -/
theorem readWith_congr {t : EventType} (leaf : t ≠ .transactionPayload) :
    readWith inner t = readWith outer t := by
  cases t with
  | transactionPayload => exact absurd rfl leaf
  | _ => rfl

theorem value_of_extends (extended : outer.Extends inner) {t : EventType} {bs : Bytes} {b : Body}
    (value : (readWith inner t).value bs = .ok b) : (readWith outer t).value bs = .ok b := by
  by_cases leaf : t = .transactionPayload
  · subst leaf
    obtain ⟨p, rest, decodes, rfl⟩ := Decode.of_value_map value
    simp only [readWith, Decode.value, Functor.map, EStateM.map, extended decodes]
  · rwa [readWith_congr inner outer leaf] at value

end Body

namespace Event

variable {o : Options} {header : EventHeader} {raw : Bytes} {event : Event}

variable (inner outer) in
theorem decodeWith_congr (leaf : header.type ≠ .transactionPayload) :
    decodeWith inner o header raw = decodeWith outer o header raw := by
  simp only [decodeWith, decodeOrdinary, Body.readWith_congr inner outer leaf]

theorem decodeOrdinary_of_extends (extended : outer.Extends inner)
    (decodes : decodeOrdinary inner o header raw = .ok event) :
    decodeOrdinary outer o header raw = .ok event := by
  simp only [decodeOrdinary] at decodes ⊢
  split at decodes
  · rename_i enabled
    obtain ⟨crc32, verified, later⟩ := exists_of_bind_eq_ok decodes
    obtain ⟨body, value, same⟩ := exists_of_bind_eq_ok later
    rw [if_pos enabled, verified, ← same]
    simp only [bind, Except.bind, Body.value_of_extends extended value]
  · rename_i disabled
    obtain ⟨body, value, same⟩ := exists_of_bind_eq_ok decodes
    rw [if_neg disabled, Body.value_of_extends extended value, ← same]
    rfl

theorem decodeWith_of_extends (extended : outer.Extends inner)
    (decodes : (decodeWith inner o header raw).1 = .ok event) :
    decodeWith outer o header raw = decodeWith inner o header raw := by
  simp only [decodeWith] at decodes ⊢
  split
  · rfl
  · rename_i plain
    rw [if_neg plain] at decodes
    have decodes : decodeOrdinary inner o header raw = .ok event := decodes
    rw [decodes, decodeOrdinary_of_extends extended decodes]

end Event

/-- A call that does not fail comes to the same. -/
theorem EventStream.nextWith_of_extends (extended : outer.Extends inner) {s : EventStream}
    (fine : ∀ error, (s.nextWith inner).1 ≠ .error error) :
    s.nextWith outer = s.nextWith inner := by
  simp only [nextWith] at fine ⊢
  generalize cut s.options.leastLength s.source = found at fine ⊢
  obtain ⟨found, source⟩ := found
  cases found with
  | finished => rfl
  | refused error => rfl
  | fault text => rfl
  | event header raw =>
      cases decodes : (Event.decodeWith inner s.options header raw).1 with
      | error error =>
          simp only [decodes] at fine
          exact absurd rfl (fine error)
      | ok event => simp only [Event.decodeWith_of_extends extended decodes]

/-! ## Payloads -/

namespace EmbeddedEvents

theorem nextWith_of_extends (extended : outer.Extends inner) {e : EmbeddedEvents}
    (fine : ∀ error, (e.nextWith inner).1 ≠ some (.error error)) :
    e.nextWith outer = e.nextWith inner := by
  obtain ⟨stream, index⟩ := e
  cases stream with
  | none => rfl
  | some s =>
      have same : s.nextWith outer = s.nextWith inner := by
        refine EventStream.nextWith_of_extends extended fun error fails => ?_
        generalize next : s.nextWith inner = call at fails
        obtain ⟨result, s'⟩ := call
        obtain rfl : result = .error error := fails
        simp only [nextWith, next] at fine
        exact absurd rfl (fine _)
      simp only [nextWith, same]

theorem collectWithin_of_extends (extended : outer.Extends inner) {fuel : Nat} :
    ∀ {e : EmbeddedEvents} {events : List Event}, collectWithin inner fuel e = .ok events →
      collectWithin outer fuel e = .ok events := by
  induction fuel with
  | zero => intro e events collects; exact collects
  | succ fuel ih =>
      intro e events collects
      have same : e.nextWith outer = e.nextWith inner := by
        refine nextWith_of_extends extended fun error fails => ?_
        generalize call : e.nextWith inner = next at fails
        obtain ⟨result, e'⟩ := next
        obtain rfl : result = some (.error error) := fails
        simp only [collectWithin, call] at collects
        cases collects
      simp only [collectWithin, same] at collects ⊢
      split at collects
      · exact collects
      · cases collects
      · obtain ⟨later, rest, whole⟩ := exists_of_bind_eq_ok collects
        rw [ih rest]
        exact whole

end EmbeddedEvents

namespace Transaction

theorem eventsWith_of_extends (extended : outer.Extends inner) {compression : Compression}
    {payload : Bytes} {events : List Event}
    (held : eventsWith inner compression payload = .ok events) :
    eventsWith outer compression payload = .ok events := by
  obtain ⟨e, opens, collects⟩ := exists_of_bind_eq_ok held
  simp only [eventsWith, opens, bind, Except.bind]
  simp only [EmbeddedEvents.collect] at collects ⊢
  split at collects
  · exact collects
  · exact EmbeddedEvents.collectWithin_of_extends extended collects

/-- The parts of a transaction that is decoded. -/
theorem exists_of_decodeWith {bs rest : Bytes} {t : Transaction}
    (decodes : decodeWith inner bs = .ok t rest) :
    ∃ mid, PayloadHeader.read bs = .ok t.header mid ∧
      readPayload t.header.payloadSize mid = .ok t.payload rest ∧
      eventsWith inner t.header.compression t.payload = .ok t.events := by
  obtain ⟨header, bs₁, first, later⟩ := exists_of_bind_apply decodes
  obtain ⟨payload, bs₂, second, later⟩ := exists_of_bind_apply later
  cases held : eventsWith inner header.compression payload with
  | error e =>
      rw [held] at later
      cases later
  | ok events =>
      rw [held] at later
      cases later
      exact ⟨bs₁, first, second, held⟩

/-- A transaction that is decoded holds the events of its payload. -/
theorem eventsWith_of_decodeWith {bs rest : Bytes} {t : Transaction}
    (decodes : decodeWith inner bs = .ok t rest) :
    eventsWith inner t.header.compression t.payload = .ok t.events := by
  obtain ⟨mid, -, -, held⟩ := exists_of_decodeWith decodes
  exact held

theorem decodeWith_extends (extended : outer.Extends inner) :
    (decodeWith outer).Extends (decodeWith inner) := by
  intro bs rest t decodes
  obtain ⟨mid, first, second, held⟩ := exists_of_decodeWith decodes
  simp only [decodeWith, bind, EStateM.bind, first, second, eventsWith_of_extends extended held]
  rfl

/-- One level more. -/
theorem decodeAt_extends (depth : Nat) : (decodeAt (depth + 1)).Extends (decodeAt depth) := by
  induction depth with
  | zero => intro bs rest t decodes; cases decodes
  | succ depth ih => exact decodeWith_extends ih

/-- What is decoded within a transaction is decoded on its own as well. -/
theorem decode_extends_decodeEmbedded : decode.Extends decodeEmbedded := by
  obtain ⟨depth, levels⟩ : ∃ depth, decodeEmbedded = decodeAt depth :=
    ⟨_, decodeTower_eq (k := 1) fun _ => rfl⟩
  rw [decode, levels]
  exact decodeAt_extends depth

end Transaction

end BinaryLog
