/-
# BinaryLog.Proofs.Extraction -- what becomes of the bytes behind the header of a payload

Behind a header that was read, a payload can be refused for three reasons, and the first of them
that holds is told, whatever else is wrong: it is too large, it is not there as a whole, or it is
compressed in a way that is not supported.  Else its bytes are taken, and what its events come to is
what decoding it comes to (`Transaction.decode_outcome`).

Events fail in ways of their own (`EmbeddedEvents.Concludes.error_cases`), so that each of these
reasons is told for itself only.  And nothing depends on what is behind the payload: a header that
its end mark closes is the same with other bytes there, and so is the payload.
-/
import BinaryLog.Proofs.Bodies
import BinaryLog.Proofs.Collecting
import BinaryLog.Proofs.Headers

namespace BinaryLog

set_option autoImplicit false

open Wire PackedInt PayloadField

/-! ## Ways of compression -/

theorem Compression.ofCode_of_unsupported {code : UInt32} (unsupported : code ∉ [0, 1, 255]) :
    ofCode code = .unknown code := by
  simp only [List.mem_cons, List.not_mem_nil, or_false, not_or] at unsupported
  obtain ⟨ne₀, ne₁, ne₂⟩ := unsupported
  simp only [ofCode, ne₀, ne₁, ne₂, or_self, if_false]

/-- A payload that is compressed in a supported way can be opened, whatever it holds. -/
theorem EmbeddedEvents.exists_new {code : UInt32} (supported : code ∈ [0, 1, 255])
    (payload : Bytes) : ∃ e, new (.ofCode code) payload = .ok e := by
  simp only [List.mem_cons, List.not_mem_nil, or_false] at supported
  rcases supported with rfl | rfl | rfl <;> exact ⟨_, rfl⟩

namespace Transaction

variable {inner : Decode Transaction} {bs mid rest payload : Bytes} {h : PayloadHeader}
  {size : UInt32} {error : Error}

theorem maxPayload_lt_iff : maxPayload < size ↔ 2 ^ 31 - 1 < size.toNat := UInt32.lt_iff_toNat_lt

theorem le_maxPayload_iff : size ≤ maxPayload ↔ size.toNat ≤ 2 ^ 31 - 1 := UInt32.le_iff_toNat_le

/-! ## Decoding what was taken -/

/-- What a payload comes to whose events come to `outcome`. -/
def conclude (h : PayloadHeader) (payload rest : Bytes) :
    Except Error (List Event) → EStateM.Result Error Bytes Transaction
  | .ok events => .ok { header := h, payload, events } rest
  | .error e => .error e rest

section

variable (reads : PayloadHeader.read bs = .ok h mid)

include reads

theorem decodeWith_of_refused (refused : readPayload h.payloadSize mid = .error error rest) :
    decodeWith inner bs = .error error rest := by
  simp only [decodeWith, bind, EStateM.bind, reads, refused]

theorem decodeWith_of_large (large : 2 ^ 31 - 1 < h.payloadSize.toNat) :
    decodeWith inner bs = .error (.payloadTooLarge h.payloadSize) mid :=
  decodeWith_of_refused reads (readPayload_of_large (maxPayload_lt_iff.2 large) mid)

theorem decodeWith_of_short (fits : h.payloadSize.toNat ≤ 2 ^ 31 - 1)
    (short : mid.length < h.payloadSize.toNat) :
    decodeWith inner bs = .error (.truncatedPayload h.payloadSize mid.length) mid :=
  decodeWith_of_refused reads (readPayload_of_short (le_maxPayload_iff.2 fits) short)

section

variable (fits : h.payloadSize.toNat ≤ 2 ^ 31 - 1) (whole : h.payloadSize.toNat ≤ mid.length)

include fits whole

/-- A payload that is there as a whole is taken. -/
theorem decodeWith_of_whole :
    decodeWith inner bs =
      conclude h (mid.take h.payloadSize.toNat) (mid.drop h.payloadSize.toNat)
        (eventsWith inner h.compression (mid.take h.payloadSize.toNat)) := by
  have taken := readPayload_of_whole (le_maxPayload_iff.2 fits) whole
  simp only [decodeWith, bind, EStateM.bind, reads, taken]
  cases eventsWith inner h.compression (mid.take h.payloadSize.toNat) <;> rfl

theorem decodeWith_of_unsupported (unsupported : h.compressionType ∉ [0, 1, 255]) :
    decodeWith inner bs =
      .error (.unsupportedCompression h.compressionType) (mid.drop h.payloadSize.toNat) := by
  rw [decodeWith_of_whole reads fits whole, PayloadHeader.compression,
    Compression.ofCode_of_unsupported unsupported]
  rfl

/-- The events of a payload that is compressed in a supported way decide. -/
theorem exists_decodeWith_eq (inner : Decode Transaction)
    (supported : h.compressionType ∈ [0, 1, 255]) :
    ∃ e, EmbeddedEvents.new h.compression (mid.take h.payloadSize.toNat) = .ok e ∧
      decodeWith inner bs = conclude h (mid.take h.payloadSize.toNat)
        (mid.drop h.payloadSize.toNat) (e.collect inner) := by
  obtain ⟨e, opens⟩ := EmbeddedEvents.exists_new supported (mid.take h.payloadSize.toNat)
  refine ⟨e, opens, ?_⟩
  rw [decodeWith_of_whole reads fits whole, eventsWith, PayloadHeader.compression, opens]
  rfl

end

/-- The failures of a payload have their order, and its events come last. -/
theorem decodeWith_cases (inner : Decode Transaction) :
    let size := h.payloadSize.toNat
    (2 ^ 31 - 1 < size ∧ decodeWith inner bs = .error (.payloadTooLarge h.payloadSize) mid) ∨
    size ≤ 2 ^ 31 - 1 ∧
      (mid.length < size ∧
          decodeWith inner bs = .error (.truncatedPayload h.payloadSize mid.length) mid ∨
        size ≤ mid.length ∧
          (h.compressionType ∉ [0, 1, 255] ∧
              decodeWith inner bs =
                .error (.unsupportedCompression h.compressionType) (mid.drop size) ∨
            h.compressionType ∈ [0, 1, 255] ∧
              ∃ e, EmbeddedEvents.new h.compression (mid.take size) = .ok e ∧
                decodeWith inner bs =
                  conclude h (mid.take size) (mid.drop size) (e.collect inner))) := by
  intro size
  rcases Nat.lt_or_ge (2 ^ 31 - 1) size with large | fits
  · exact .inl ⟨large, decodeWith_of_large reads large⟩
  refine .inr ⟨fits, ?_⟩
  rcases Nat.lt_or_ge mid.length size with short | whole
  · exact .inl ⟨short, decodeWith_of_short reads fits short⟩
  refine .inr ⟨whole, ?_⟩
  by_cases supported : h.compressionType ∈ [0, 1, 255]
  · exact .inr ⟨supported, exists_decodeWith_eq reads fits whole inner supported⟩
  · exact .inl ⟨supported, decodeWith_of_unsupported reads fits whole supported⟩

end

theorem collect_of_empty {compression : Compression} {e : EmbeddedEvents}
    (opens : EmbeddedEvents.new compression [] = .ok e) : e.collect inner = .ok [] := by
  obtain ⟨source, -, same⟩ := exists_of_bind_eq_ok opens
  cases same
  rfl

theorem decodeWith_of_empty (reads : PayloadHeader.read bs = .ok h mid)
    (empty : h.payloadSize.toNat = 0) (supported : h.compressionType ∈ [0, 1, 255]) :
    decodeWith inner bs = .ok { header := h, payload := [], events := [] } mid := by
  obtain ⟨e, opens, concluded⟩ := exists_decodeWith_eq reads (by omega) (by omega) inner supported
  rw [empty, List.take_zero] at opens concluded
  rw [concluded, collect_of_empty opens, List.drop_zero, conclude]

/-- The events of a payload fail in their own ways. -/
theorem error_of_conclude {compression : Compression} {e : EmbeddedEvents}
    (opens : EmbeddedEvents.new compression payload = .ok e) {left : Bytes}
    (fails : conclude h payload left (e.collect inner) = .error error rest) :
    (∃ text, error = .corruptCompressedData text) ∨ ∃ i cause, error = .subEvent i cause := by
  have concluded := EmbeddedEvents.concludes_collect inner opens
  cases outcome : e.collect inner with
  | ok events =>
      rw [outcome] at fails
      cases fails
  | error e =>
      rw [outcome] at fails concluded
      cases fails
      exact concluded.error_cases

/-- All that can go wrong behind a header. -/
theorem error_cases (reads : PayloadHeader.read bs = .ok h mid)
    (fails : decodeWith inner bs = .error error rest) :
    let size := h.payloadSize.toNat
    (2 ^ 31 - 1 < size ∧ error = .payloadTooLarge h.payloadSize ∧ rest = mid) ∨
    (size ≤ 2 ^ 31 - 1 ∧ mid.length < size ∧
      error = .truncatedPayload h.payloadSize mid.length ∧ rest = mid) ∨
    (size ≤ 2 ^ 31 - 1 ∧ size ≤ mid.length ∧ h.compressionType ∉ [0, 1, 255] ∧
      error = .unsupportedCompression h.compressionType ∧ rest = mid.drop size) ∨
    (∃ text, error = .corruptCompressedData text) ∨ ∃ i cause, error = .subEvent i cause := by
  intro size
  rcases decodeWith_cases reads inner with ⟨large, refused⟩ | ⟨fits, ⟨short, refused⟩ |
    ⟨whole, ⟨unsupported, refused⟩ | ⟨-, e, opens, concluded⟩⟩⟩
  · cases fails.symm.trans refused
    exact .inl ⟨large, rfl, rfl⟩
  · cases fails.symm.trans refused
    exact .inr (.inl ⟨fits, short, rfl, rfl⟩)
  · cases fails.symm.trans refused
    exact .inr (.inr (.inl ⟨fits, whole, unsupported, rfl, rfl⟩))
  · exact .inr (.inr (.inr (error_of_conclude opens (concluded.symm.trans fails))))

section

variable (reads : PayloadHeader.read bs = .ok h mid)

include reads

theorem decodeWith_eq_tooLarge_iff {n : UInt32} :
    decodeWith inner bs = .error (.payloadTooLarge n) rest ↔
      2 ^ 31 - 1 < h.payloadSize.toNat ∧ n = h.payloadSize ∧ rest = mid := by
  constructor
  · intro fails
    rcases error_cases reads fails with ⟨large, ⟨⟩, rfl⟩ | ⟨_, _, ⟨⟩, _⟩ | ⟨_, _, _, ⟨⟩, _⟩ |
      ⟨_, ⟨⟩⟩ | ⟨_, _, ⟨⟩⟩
    exact ⟨large, rfl, rfl⟩
  · rintro ⟨large, rfl, rfl⟩
    exact decodeWith_of_large reads large

theorem decodeWith_eq_truncated_iff {expected : UInt32} {actual : Nat} :
    decodeWith inner bs = .error (.truncatedPayload expected actual) rest ↔
      h.payloadSize.toNat ≤ 2 ^ 31 - 1 ∧ mid.length < h.payloadSize.toNat ∧
        expected = h.payloadSize ∧ actual = mid.length ∧ rest = mid := by
  constructor
  · intro fails
    rcases error_cases reads fails with ⟨_, ⟨⟩, _⟩ | ⟨fits, short, ⟨⟩, rfl⟩ | ⟨_, _, _, ⟨⟩, _⟩ |
      ⟨_, ⟨⟩⟩ | ⟨_, _, ⟨⟩⟩
    exact ⟨fits, short, rfl, rfl, rfl⟩
  · rintro ⟨fits, short, rfl, rfl, rfl⟩
    exact decodeWith_of_short reads fits short

theorem decodeWith_eq_unsupported_iff {code : UInt32} :
    decodeWith inner bs = .error (.unsupportedCompression code) rest ↔
      h.payloadSize.toNat ≤ 2 ^ 31 - 1 ∧ h.payloadSize.toNat ≤ mid.length ∧
        h.compressionType ∉ [0, 1, 255] ∧ code = h.compressionType ∧
        rest = mid.drop h.payloadSize.toNat := by
  constructor
  · intro fails
    rcases error_cases reads fails with ⟨_, ⟨⟩, _⟩ | ⟨_, _, ⟨⟩, _⟩ |
      ⟨fits, whole, unsupported, ⟨⟩, rfl⟩ | ⟨_, ⟨⟩⟩ | ⟨_, _, ⟨⟩⟩
    exact ⟨fits, whole, unsupported, rfl, rfl⟩
  · rintro ⟨fits, whole, unsupported, rfl, rfl⟩
    exact decodeWith_of_unsupported reads fits whole unsupported

end

/-- Only what the events leave is a transaction, and it holds the bytes that were taken. -/
theorem parts_of_decodeWith {t : Transaction} (reads : PayloadHeader.read bs = .ok h mid)
    (decodes : decodeWith inner bs = .ok t rest) :
    t.header = h ∧ t.payload.length = h.payloadSize.toNat ∧ mid = t.payload ++ rest := by
  rcases decodeWith_cases reads inner with ⟨_, refused⟩ | ⟨_, ⟨_, refused⟩ |
    ⟨whole, ⟨_, refused⟩ | ⟨_, e, _, concluded⟩⟩⟩
  · cases decodes.symm.trans refused
  · cases decodes.symm.trans refused
  · cases decodes.symm.trans refused
  · cases outcome : e.collect inner with
    | error e =>
        rw [outcome] at concluded
        cases decodes.symm.trans concluded
    | ok events =>
        rw [outcome] at concluded
        cases decodes.symm.trans concluded
        exact ⟨rfl, List.length_take_of_le whole, (List.take_append_drop _ mid).symm⟩

/-- **A payload is taken, or the first reason against it is told.** -/
theorem decode_outcome (reads : PayloadHeader.read bs = .ok h mid) :
    let size := h.payloadSize.toNat
    (∀ n rest, decode bs = .error (.payloadTooLarge n) rest ↔
      2 ^ 31 - 1 < size ∧ n = h.payloadSize ∧ rest = mid) ∧
    (∀ expected actual rest, decode bs = .error (.truncatedPayload expected actual) rest ↔
      size ≤ 2 ^ 31 - 1 ∧ mid.length < size ∧
        expected = h.payloadSize ∧ actual = mid.length ∧ rest = mid) ∧
    (∀ code rest, decode bs = .error (.unsupportedCompression code) rest ↔
      size ≤ 2 ^ 31 - 1 ∧ size ≤ mid.length ∧ h.compressionType ∉ [0, 1, 255] ∧
        code = h.compressionType ∧ rest = mid.drop size) ∧
    (size ≤ 2 ^ 31 - 1 → size ≤ mid.length → h.compressionType ∈ [0, 1, 255] →
      ∃ e, EmbeddedEvents.new h.compression (mid.take size) = .ok e ∧
        (∃ outcome, e.Concludes decodeEmbedded outcome) ∧
        ∀ outcome, e.Concludes decodeEmbedded outcome →
          (size = 0 → outcome = .ok []) ∧
          decode bs = conclude h (mid.take size) (mid.drop size) outcome ∧
          ∀ {fs : List PayloadField} {lead mark : Bytes}, Row fs lead → Packs 0 mark →
            bs = lead ++ (mark ++ mid) → ∀ behind,
              decode (lead ++ (mark ++ (mid.take size ++ behind))) =
                conclude h (mid.take size) behind outcome) ∧
    (∀ t rest, decode bs = .ok t rest →
      t.header = h ∧ t.payload.length = size ∧ mid = t.payload ++ rest) := by
  intro size
  refine ⟨fun _ _ => decodeWith_eq_tooLarge_iff reads,
    fun _ _ _ => decodeWith_eq_truncated_iff reads, fun _ _ => decodeWith_eq_unsupported_iff reads,
    ?_, fun _ _ => parts_of_decodeWith reads⟩
  intro fits whole supported
  obtain ⟨e, opens, concluded⟩ := exists_decodeWith_eq reads fits whole decodeEmbedded supported
  have collects := EmbeddedEvents.concludes_collect decodeEmbedded opens
  refine ⟨e, opens, ⟨_, collects⟩, fun outcome comes => ?_⟩
  obtain rfl := collects.unique comes
  refine ⟨?_, concluded, ?_⟩
  · intro none
    rw [show h.payloadSize.toNat = 0 from none, List.take_zero] at opens
    exact collect_of_empty opens
  · rintro fs lead mark row ends rfl behind
    have length : (mid.take size).length = size := List.length_take_of_le whole
    have enough : size ≤ (mid.take size ++ behind).length := by
      rw [List.length_append]
      omega
    obtain ⟨e', opens', concluded'⟩ := exists_decodeWith_eq
      (PayloadHeader.read_append_of_marked row ends reads (mid.take size ++ behind)) fits enough
      decodeEmbedded supported
    rw [List.take_left' length] at opens' concluded'
    rw [List.drop_left' length] at concluded'
    cases opens.symm.trans opens'
    exact concluded'

namespace Example

/-- The size of a stop event, stored as it is. -/
def sized : Bytes := [1, 1, 19, 2, 3, 0xfc, 255, 0]

theorem sized_row : Row [.payloadSize 19, .compressionType 255] sized :=
  .cons (PayloadHeader.Example.size_stands (by decide))
    (.cons PayloadHeader.Example.stored_stands .nil)

def stopEvent : Bytes := [0, 0, 0, 0, 3, 1, 0, 0, 0, 19, 0, 0, 0, 0, 0, 0, 0, 0, 0]

/-- The largest size, a compression type that is not supported, and no payload. -/
def wrong : Bytes := [1, 5, 0xfe, 255, 255, 255, 255, 0, 0, 0, 0, 2, 1, 7, 0]

end Example

theorem decode_outcome_of_stop_event :
    PayloadHeader.read (Example.sized ++ ([0] ++ (Example.stopEvent ++ [7]))) =
        .ok ⟨19, 255, 19⟩ (Example.stopEvent ++ [7]) ∧
      Row [.payloadSize 19, .compressionType 255] Example.sized ∧ Packs 0 [0] ∧
      (∃ event, ∀ behind,
        decode (Example.sized ++ ([0] ++ (Example.stopEvent ++ behind))) =
          .ok ⟨⟨19, 255, 19⟩, Example.stopEvent, [event]⟩ behind) ∧
      PayloadHeader.read Example.wrong = .ok ⟨0xffffffff, 7, 0xffffffff⟩ [] ∧
      decode Example.wrong = .error (.payloadTooLarge 0xffffffff) [] := by
  have reads : PayloadHeader.read (Example.sized ++ ([0] ++ (Example.stopEvent ++ [7]))) =
      .ok ⟨19, 255, 19⟩ (Example.stopEvent ++ [7]) := rfl
  have wrong : PayloadHeader.read Example.wrong = .ok ⟨0xffffffff, 7, 0xffffffff⟩ [] := rfl
  have mark : Packs 0 [0] := .one (by decide)
  obtain ⟨-, -, -, given, -⟩ := decode_outcome reads
  obtain ⟨e, -, ⟨outcome, comes⟩, decides⟩ := given (by decide) (by decide) (by decide)
  obtain ⟨-, concluded, others⟩ := decides outcome comes
  have events : ∃ event, outcome = .ok [event] := by
    cases outcome with
    | error error => cases concluded
    | ok events =>
        cases concluded
        exact ⟨_, rfl⟩
  obtain ⟨event, rfl⟩ := events
  refine ⟨reads, Example.sized_row, mark, ⟨event, others Example.sized_row mark rfl⟩, wrong, ?_⟩
  exact ((decode_outcome wrong).1 _ _).2 ⟨by decide, rfl, rfl⟩

end Transaction

end BinaryLog
