/-
# BinaryLog.Proofs.Unmarked -- headers without an end mark

Where the input ends within a type or a length of a header, the header counts, and the bytes of the
unfinished integer are left to be taken as the payload.  There are eight of them at most, and the
first one is a marker.  So a payload made of them has no room for the header of an event if it is
stored, and is no frame if it is compressed: no event ever comes of it, and a header without an end
mark is good for an empty payload only (`Transaction.decode_of_exhausted`).
-/
import BinaryLog.Proofs.Extraction
import BinaryLog.Proofs.Fields
import BinaryLog.Proofs.StoredFrame

namespace BinaryLog

set_option autoImplicit false

open Wire PackedInt PayloadField

/-! ## What is left of a type or a length -/

namespace Wire.PackedInt

variable {lead : UInt8} {bs : Bytes}

/-- What ends too early starts with a marker. -/
theorem CutOff.marker_le (cut : CutOff (lead :: bs)) : 0xfc ≤ lead.toNat := by
  simp only [CutOff, wanted, List.length_cons] at cut
  split at cut
  · rename_i two
    rw [two]
    decide
  split at cut
  · rename_i three
    rw [three]
    decide
  split at cut
  · rename_i eight
    rw [eight]
    decide
  · omega

end Wire.PackedInt

/-! ## Payloads that start no event -/

namespace Transaction

variable {inner : Decode Transaction} {fs : List PayloadField} {h : PayloadHeader}
  {bs tail rest payload : Bytes}

/-- Content that has not even a first event comes to what its ending tells. -/
theorem eventsWith_of_undecided {compression : Compression} {ending : Ending} {content : Bytes}
    {error : Error} (nonempty : payload ≠ []) (yields : compression.Yields payload ending content)
    (short : content.length < EventHeader.size)
    (stop : ending.stop 0 false (Ending.clean.outcome content) = some (.error error)) :
    eventsWith inner compression payload = .error error := by
  obtain ⟨source, opens, quiet, delivers⟩ := Compression.source_of_yields yields
  have undecided : ¬ Decided ({} : Options).leastLength content := fun decided =>
    Nat.not_le.2 short decided.1
  have next := EmbeddedEvents.nextWith_of_undecided inner (s := { options := {}, source }) (i := 0)
    quiet delivers undecided
  rw [stop] at next
  simp only [eventsWith, EmbeddedEvents.new_eq nonempty opens, bind, Except.bind,
    EmbeddedEvents.collect, EmbeddedEvents.ofSource, EmbeddedEvents.collectWithin, next]

theorem eventsWith_of_fragment (nonempty : payload ≠ [])
    (short : payload.length < EventHeader.size) :
    eventsWith inner .stored payload =
      .error (.subEvent 0 (.parse (.incomplete payload
        (some (EventHeader.size - payload.length))))) := by
  have yields : Compression.stored.Yields payload .clean payload := ⟨rfl, rfl⟩
  refine eventsWith_of_undecided nonempty yields short ?_
  rw [Ending.stop, Ending.outcome, if_neg nonempty, EmbeddedEvents.tell, missing, if_pos short]

theorem eventsWith_of_foreign {b : UInt8} (foreign : Zstd.Foreign b) (bs : Bytes) :
    eventsWith inner .zstd (b :: bs) =
      .error (.corruptCompressedData Zstd.Fault.unknownFrame.message) := by
  have yields : Compression.zstd.Yields (b :: bs) (.fault Zstd.Fault.unknownFrame.message) [] := by
    apply Zstd.Decoder.delivers_of_foreign
    · rfl
    · show 0 < (ByteArray.mk (b :: bs).toArray).size
      rw [Zstd.size_mk]
      exact Nat.succ_pos bs.length
    · show Zstd.Foreign (Zstd.octetAt ⟨(b :: bs).toArray⟩ 0)
      rwa [Zstd.octetAt_eq]
  exact eventsWith_of_undecided (List.cons_ne_nil b bs) yields (by decide) rfl

section

variable (reads : PayloadHeader.read bs = .ok h rest) (cut : CutOff rest)
  (nonempty : 0 < h.payloadSize.toNat) (whole : h.payloadSize.toNat ≤ rest.length)

include reads cut nonempty whole

/-- What is left of an integer is no event. -/
theorem decodeWith_of_stored_fragment (stored : h.compressionType = 255) :
    decodeWith inner bs =
      .error (.subEvent 0 (.parse (.incomplete (rest.take h.payloadSize.toNat)
        (some (EventHeader.size - h.payloadSize.toNat))))) (rest.drop h.payloadSize.toNat) := by
  have few := cut.length_le
  have length : (rest.take h.payloadSize.toNat).length = h.payloadSize.toNat :=
    List.length_take_of_le whole
  have there : rest.take h.payloadSize.toNat ≠ [] := List.length_pos_iff.1 (length.symm ▸ nonempty)
  have short : (rest.take h.payloadSize.toNat).length < EventHeader.size := by
    rw [length, EventHeader.size]
    omega
  rw [decodeWith_of_whole reads (by omega) whole, PayloadHeader.compression, stored]
  show conclude _ _ _ (eventsWith inner .stored _) = _
  rw [eventsWith_of_fragment there short, length]
  rfl

/-- What is left of an integer is no frame. -/
theorem decodeWith_of_compressed_fragment (compressed : h.compressionType ∈ [0, 1]) :
    decodeWith inner bs = .error (.corruptCompressedData "Unknown frame descriptor")
      (rest.drop h.payloadSize.toNat) := by
  have few := cut.length_le
  have zstd : h.compression = .zstd := by
    simp only [List.mem_cons, List.not_mem_nil, or_false] at compressed
    rw [PayloadHeader.compression, Compression.ofCode, if_pos compressed]
  rw [decodeWith_of_whole reads (by omega) whole, zstd]
  cases rest with
  | nil => exact absurd whole (Nat.not_le.2 nonempty)
  | cons lead more =>
      obtain ⟨n, size⟩ := Nat.exists_eq_add_of_lt nonempty
      have foreign : Zstd.Foreign lead := by
        have marker := cut.marker_le
        constructor <;> omega
      rw [size, Nat.zero_add, List.take_succ_cons, eventsWith_of_foreign foreign]
      rfl

/-- So nothing comes of it. -/
theorem exists_error_of_fragment : ∃ error rest', decodeWith inner bs = .error error rest' := by
  by_cases supported : h.compressionType ∈ [0, 1, 255]
  · have either : h.compressionType ∈ [0, 1] ∨ h.compressionType ∈ [255] :=
      List.mem_append.1 supported
    rcases either with compressed | stored
    · exact ⟨_, _, decodeWith_of_compressed_fragment reads cut nonempty whole compressed⟩
    · exact ⟨_, _, decodeWith_of_stored_fragment reads cut nonempty whole
        (List.mem_singleton.1 stored)⟩
  · have few := cut.length_le
    exact ⟨_, _, decodeWith_of_unsupported reads (by omega) whole supported⟩

end

/-- A payload that there should be fails, whether its bytes are there or not. -/
theorem exists_error_of_cutOff (inner : Decode Transaction)
    (reads : PayloadHeader.read bs = .ok h rest) (cut : CutOff rest)
    (nonempty : h.payloadSize.toNat ≠ 0) :
    ∃ error rest', decodeWith inner bs = .error error rest' := by
  rcases decodeWith_cases reads inner with ⟨-, refused⟩ | ⟨-, ⟨-, refused⟩ | ⟨whole, -⟩⟩
  · exact ⟨_, _, refused⟩
  · exact ⟨_, _, refused⟩
  · exact exists_error_of_fragment reads cut (Nat.pos_of_ne_zero nonempty) whole

/-- **A header without an end mark is good for an empty payload only.** -/
theorem decode_of_exhausted (before : Before fs tail bs) (exhausted : Exhausted tail rest)
    (tells : h.Tells fs) :
    let size := h.payloadSize.toNat
    (∀ t rest', decode bs = .ok t rest' ↔
      size = 0 ∧ h.compressionType ∈ [0, 1, 255] ∧ t = ⟨h, [], []⟩ ∧ rest' = rest) ∧
    (size ≠ 0 → ∃ error rest', decode bs = .error error rest') ∧
    rest.length ≤ 8 ∧
    (0 < size → size ≤ rest.length →
      (h.compressionType = 255 →
        decode bs = .error (.subEvent 0 (.parse (.incomplete (rest.take size) (some (19 - size)))))
          (rest.drop size)) ∧
      (h.compressionType ∈ [0, 1] →
        decode bs = .error (.corruptCompressedData "Unknown frame descriptor")
          (rest.drop size))) := by
  intro size
  have reads : PayloadHeader.read bs = .ok h rest :=
    PayloadHeader.tells_iff.1 tells ▸ PayloadHeader.read_of_exhausted before exhausted
  have cut := exhausted.cutOff
  have fails := exists_error_of_cutOff decodeEmbedded reads cut
  refine ⟨fun t rest' => ⟨fun decodes => ?_, ?_⟩, fails, cut.length_le, fun nonempty whole => ?_⟩
  · have empty : size = 0 := by
      by_contra nonempty
      obtain ⟨error, _, failed⟩ := fails nonempty
      cases decodes.symm.trans failed
    by_cases supported : h.compressionType ∈ [0, 1, 255]
    · cases decodes.symm.trans (decodeWith_of_empty reads empty supported)
      exact ⟨empty, supported, rfl, rfl⟩
    · cases decodes.symm.trans
        (decodeWith_of_unsupported reads (by omega) (by omega) supported)
  · rintro ⟨empty, supported, rfl, rfl⟩
    exact decodeWith_of_empty reads empty supported
  · constructor
    · exact decodeWith_of_stored_fragment reads cut nonempty whole
    · exact decodeWith_of_compressed_fragment reads cut nonempty whole

namespace Example

/-- The size of what is there of the integer behind the fields. -/
def halfFields : List PayloadField := [.payloadSize 2, .compressionType 255]

def half : Bytes := [1, 1, 2, 2, 3, 0xfc, 255, 0, 0xfe, 7]

theorem half_before : Before halfFields [0xfe, 7] half :=
  ⟨[1, 1, 2, 2, 3, 0xfc, 255, 0], .cons (PayloadHeader.Example.size_stands (by decide))
    (.cons PayloadHeader.Example.stored_stands .nil), rfl⟩

end Example

theorem decode_of_half_integer :
    Before Example.halfFields [0xfe, 7] Example.half ∧ Exhausted [0xfe, 7] [0xfe, 7] ∧
      (⟨2, 255, 2⟩ : PayloadHeader).Tells Example.halfFields ∧
      decode Example.half = .error (.subEvent 0 (.parse (.incomplete [0xfe, 7] (some 17)))) [] := by
  have cut : Exhausted [0xfe, 7] [0xfe, 7] := .type (by decide)
  have tells : (⟨2, 255, 2⟩ : PayloadHeader).Tells Example.halfFields :=
    PayloadHeader.tells_iff.2 rfl
  obtain ⟨-, -, -, fragment⟩ := decode_of_exhausted Example.half_before cut tells
  exact ⟨Example.half_before, cut, tells, (fragment (by decide) (by decide)).1 rfl⟩

end Transaction

end BinaryLog
