/-
# BinaryLog.Proofs.Collecting -- all events of a payload, or the first failure

`EmbeddedEvents.collect` calls for events as often as its bound on the bytes to come allows.  What
the calls come to without a bound (`EmbeddedEvents.Concludes`) is all the events up to the end, or
the failure that stops them, and `collect` gives just that (`EmbeddedEvents.concludes_collect`).

That the bound does not cut them short is seen by what is left of a source (`Source.left`), of which
every event takes something: its header has bytes, and no read brings more than it takes off what
is left, or off the next block of compressed data (`Source.left_of_take`).
-/
import BinaryLog.Proofs.Embedded
import BinaryLog.Proofs.Expansion
import BinaryLog.Proofs.Reads

namespace BinaryLog

set_option autoImplicit false

open Zstd (maxBlock)

/-! ## What is left of a source -/

def Rest.Sound : Rest → Prop
  | compressed d => d.Sound
  | _ => True

/-- How many bytes may come from here, as far as the rest of a source tells. -/
def Rest.left : Rest → Nat
  | compressed d => d.left
  | _ => 0

theorem Rest.left_of_decompress {fuel : Nat} :
    ∀ {want : Nat} {d : Zstd.Decoder} {intake : Intake} {got bs : Bytes} {rest : Rest}, d.Sound →
      decompress fuel intake want got d = (.ok bs, rest) →
      rest.Sound ∧ min (bs.length - got.length) maxBlock + rest.left ≤ d.left := by
  induction fuel with
  | zero =>
      intro want d intake got bs rest sound reads
      cases reads
      exact ⟨sound, by simp [left]⟩
  | succ fuel ih =>
      intro want d intake got bs rest sound reads
      simp only [decompress] at reads
      split at reads
      · cases reads
        exact ⟨sound, by simp [left]⟩
      · split at reads
        · cases reads
        · rename_i piece d' gives
          obtain ⟨sound', spent⟩ := Zstd.Decoder.left_of_read sound gives
          split at reads
          · cases reads
            refine ⟨sound', ?_⟩
            simp only [left, List.length_reverse]
            omega
          · obtain ⟨sound'', later⟩ := ih sound' reads
            rw [List.reverseAux_eq, List.length_append, List.length_reverse] at later
            exact ⟨sound'', by omega⟩

theorem Rest.left_of_take {rest rest' : Rest} {intake : Intake} {want : Nat} {got bs : Bytes}
    (sound : rest.Sound) (reads : rest.take intake want got = (.ok bs, rest')) :
    rest'.Sound ∧ min (bs.length - got.length) maxBlock + rest'.left ≤ rest.left := by
  cases rest with
  | ended =>
      cases reads
      exact ⟨trivial, by simp [left]⟩
  | failing text =>
      simp only [take] at reads
      split at reads
      · cases reads
        exact ⟨trivial, by simp [left]⟩
      · cases reads
  | compressed d => exact left_of_decompress sound reads

namespace Source

variable {s s' : Source} {rest : Rest} {raised : Option String} {replies : List Reply}

/-- How many bytes may come. -/
def left (s : Source) : Nat := s.size + s.rest.left

theorem foldl_from {f : Nat → Reply → Nat} (adds : ∀ n r, f n r = n + f 0 r) (n : Nat)
    (replies : List Reply) : replies.foldl f n = n + replies.foldl f 0 := by
  induction replies generalizing n with
  | nil => rfl
  | cons r replies ih =>
      rw [List.foldl_cons, List.foldl_cons, ih (f n r), ih (f 0 r), adds n r, Nat.add_assoc]

theorem left_cons (r : Reply) :
    left { replies := r :: replies, rest, raised } =
      (match r with | .bytes first more => (first :: more).length | _ => 0) +
        left { replies, rest, raised } := by
  simp only [left, size, List.foldl_cons]
  rw [foldl_from]
  · cases r <;> simp only [Nat.zero_add, Nat.add_assoc]
  · intro n r
    cases r <;> simp only [Nat.zero_add, Nat.add_zero]

theorem left_of_gather : ∀ {intake : Intake} {want : Nat} {got bs : Bytes}, rest.Sound →
    gather rest raised intake want got replies = (.ok bs, s') →
    s'.rest.Sound ∧
      min (bs.length - got.length) maxBlock + s'.left ≤ left { replies, rest, raised } := by
  induction replies with
  | nil =>
      intro intake want got bs sound reads
      generalize taken : rest.take intake want got = reply at reads
      obtain ⟨result, rest'⟩ := reply
      simp only [gather_nil, taken, Prod.mk.injEq] at reads
      obtain ⟨rfl, rfl⟩ := reads
      have spent := Rest.left_of_take sound taken
      simpa only [left, size, List.foldl_nil, Nat.zero_add] using spent
  | cons r replies ih =>
      intro intake want got bs sound reads
      simp only [gather] at reads
      split at reads
      · cases reads
        exact ⟨sound, by simp⟩
      · cases r with
        | interrupted =>
            rw [left_cons, Nat.zero_add]
            exact ih sound reads
        | fault text => cases reads
        | bytes first more =>
            simp only [List.reverseAux_eq] at reads
            simp only [left_cons]
            split at reads
            · obtain ⟨sound', later⟩ := ih sound reads
              refine ⟨sound', ?_⟩
              simp only [List.length_append, List.length_reverse, List.length_take] at later
              omega
            · rename_i first' more' behind
              have count := congrArg List.length behind
              rw [List.length_drop] at count
              cases reads
              refine ⟨sound, ?_⟩
              simp only [left_cons, List.length_append, List.length_reverse, List.length_take]
              omega

/-- No read brings more than it takes off what is left, or off the next block. -/
theorem left_of_take {intake : Intake} {want : Nat} {bs : Bytes} (sound : s.rest.Sound)
    (reads : s.take intake want = (.ok bs, s')) :
    s'.rest.Sound ∧ min bs.length maxBlock + s'.left ≤ s.left := by
  have spent : s'.rest.Sound ∧ min (bs.length - ([] : Bytes).length) maxBlock + s'.left ≤ s.left :=
    left_of_gather sound reads
  exact spent

theorem left_of_cutBody {least : Nat} {head raw : Bytes} {header : EventHeader}
    (sound : s.rest.Sound) (cuts : cutBody least head s = (.event header raw, s')) :
    s'.rest.Sound ∧ s'.left ≤ s.left := by
  simp only [cutBody] at cuts
  split at cuts
  · cases cuts
  · split at cuts
    · cases cuts
    · split at cuts
      · cases cuts
      · rename_i body s₁ reads
        obtain ⟨sound', spent⟩ := left_of_take sound reads
        split at cuts
        · cases cuts
        · cases cuts
          exact ⟨sound', by omega⟩

/-- An event takes something. -/
theorem left_of_cut {least : Nat} {raw : Bytes} {header : EventHeader} (sound : s.rest.Sound)
    (cuts : cut least s = (.event header raw, s')) : s'.rest.Sound ∧ s'.left < s.left := by
  simp only [cut, fill] at cuts
  split at cuts
  · cases cuts
  · rename_i head s₁ first
    obtain ⟨sound₁, spent⟩ := left_of_take sound first
    split at cuts
    · cases cuts
    · rename_i some
      have pos : 0 < min head.length maxBlock := Nat.lt_min.2 ⟨Nat.pos_of_ne_zero some, by decide⟩
      split at cuts
      · cases cuts
      · obtain ⟨sound₂, behind⟩ := left_of_cutBody sound₁ cuts
        exact ⟨sound₂, by omega⟩

/-- The bound on the bytes that a payload brings holds for what is left of its source. -/
theorem left_lt_bound {compression : Compression} {payload : Bytes} {source : Source}
    (opens : compression.source payload = .ok source) :
    source.rest.Sound ∧ source.left < source.bound := by
  cases compression with
  | stored =>
      cases opens
      exact ⟨trivial, Nat.lt_succ_self _⟩
  | zstd =>
      cases opens
      have most := Zstd.Decoder.left_ofBytes_le payload
      refine ⟨Zstd.Decoder.sound_ofBytes payload, ?_⟩
      simp only [left, bound, ofCompressed, Rest.left, Rest.bound]
      omega
  | unknown code => cases opens

end Source

/-! ## What the calls come to -/

theorem EventStream.left_of_event {inner : Decode Transaction} {event : Event}
    (s : EventStream) {s' : EventStream} (sound : s.source.rest.Sound)
    (next : s.nextWith inner = (.ok (some event), s')) :
    s'.source.rest.Sound ∧ s'.source.left < s.source.left := by
  unfold nextWith at next
  split at next
  · cases next
  · cases next
  · cases next
  · rename_i header raw source cuts
    have less := Source.left_of_cut sound cuts
    obtain ⟨-, rfl⟩ := Prod.mk.inj next
    exact less

namespace EmbeddedEvents

variable {inner : Decode Transaction} {e e' : EmbeddedEvents} {error : Error}

/-- What calling for events comes to: all of them, if they go on up to the end, or else the failure
that stops them. -/
inductive Concludes (inner : Decode Transaction) :
    EmbeddedEvents → Except Error (List Event) → Prop
  | finished {e e' : EmbeddedEvents} (next : e.nextWith inner = (none, e')) :
      Concludes inner e (.ok [])
  | failed {e e' : EmbeddedEvents} {error : Error}
      (next : e.nextWith inner = (some (.error error), e')) : Concludes inner e (.error error)
  | event {e e' : EmbeddedEvents} {event : Event} {outcome : Except Error (List Event)}
      (next : e.nextWith inner = (some (.ok event), e')) (later : Concludes inner e' outcome) :
      Concludes inner e ((event :: ·) <$> outcome)

/-- There is only one thing that they come to. -/
theorem Concludes.unique {a b : Except Error (List Event)} (first : Concludes inner e a)
    (second : Concludes inner e b) : a = b := by
  induction first generalizing b with
  | finished next =>
      cases second with
      | finished => rfl
      | failed next' => cases next.symm.trans next'
      | event next' => cases next.symm.trans next'
  | failed next =>
      cases second with
      | finished next' => cases next.symm.trans next'
      | failed next' =>
          cases next.symm.trans next'
          rfl
      | event next' => cases next.symm.trans next'
  | event next later ih =>
      cases second with
      | finished next' => cases next.symm.trans next'
      | failed next' => cases next.symm.trans next'
      | event next' later' =>
          cases next.symm.trans next'
          rw [ih later']

/-- Events are given by the stream, and leave less of it. -/
theorem left_of_nextWith {s : EventStream} {i : Nat} {event : Event}
    (sound : s.source.rest.Sound)
    (next : nextWith inner { stream := some s, index := i } = (some (.ok event), e')) :
    ∃ s', e' = { stream := some s', index := i + 1 } ∧ s'.source.rest.Sound ∧
      s'.source.left < s.source.left := by
  obtain ⟨given, rfl⟩ := stream_of_nextWith next
  obtain ⟨sound', less⟩ := s.left_of_event sound given
  exact ⟨_, rfl, sound', less⟩

theorem concludes_collectWithin {fuel : Nat} : ∀ {s : EventStream} {i : Nat},
    s.source.rest.Sound → s.source.left < fuel →
    Concludes inner { stream := some s, index := i }
      (collectWithin inner fuel { stream := some s, index := i }) := by
  -- every event takes something of what is left, so that the fuel lasts
  induction fuel with
  | zero =>
      intro s i sound enough
      omega
  | succ fuel ih =>
      intro s i sound enough
      generalize next : nextWith inner { stream := some s, index := i } = call
      obtain ⟨result, e'⟩ := call
      simp only [collectWithin, next]
      rcases result with none | error | event
      · exact .finished next
      · exact .failed next
      · obtain ⟨s', rfl, sound', less⟩ := left_of_nextWith sound next
        exact .event next (ih sound' (by omega))

/-- Collecting the events of a payload does not stop before the calls do. -/
theorem concludes_collect (inner : Decode Transaction) {compression : Compression}
    {payload : Bytes} (opens : new compression payload = .ok e) :
    Concludes inner e (e.collect inner) := by
  obtain ⟨source, opened, same⟩ := exists_of_bind_eq_ok opens
  obtain ⟨sound, less⟩ := Source.left_lt_bound opened
  cases same
  by_cases empty : payload.isEmpty
  · simp only [empty, if_true, collect]
    exact .finished rfl
  · simp only [empty, collect]
    exact concludes_collectWithin sound (Nat.lt_succ_of_lt less)

theorem error_of_nextWith (next : e.nextWith inner = (some (.error error), e')) :
    (∃ text, error = .corruptCompressedData text) ∨ ∃ i cause, error = .subEvent i cause := by
  simp only [nextWith] at next
  split at next
  · cases next
  · split at next
    · cases next
    · cases next
    · rename_i cause s' failed
      simp only [Source.takeRaised] at next
      cases raised : s'.source.raised with
      | none =>
          rw [raised] at next
          cases next
          exact .inr ⟨_, cause, rfl⟩
      | some text =>
          rw [raised] at next
          cases next
          exact .inl ⟨text, rfl⟩

/-- All that can go wrong with the events of a payload. -/
theorem Concludes.error_cases (concluded : Concludes inner e (.error error)) :
    (∃ text, error = .corruptCompressedData text) ∨ ∃ i cause, error = .subEvent i cause := by
  generalize same : Except.error error = outcome at concluded
  induction concluded with
  | finished => cases same
  | failed next =>
      cases same
      exact error_of_nextWith next
  | @event _ _ _ outcome _ _ ih =>
      cases outcome with
      | ok events => cases same
      | error error' =>
          cases same
          exact ih rfl

end EmbeddedEvents

end BinaryLog
