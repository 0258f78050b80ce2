/-
# BinaryLog.Proofs.Truncation -- a stream that is cut off

A stream of events that can be read up to its end may be cut off anywhere.  What is left of it
gives the events in front of the cut, the same as before, and then tells the cut: the end if it is
in front of an event, and else what is there of the event it goes through and how many bytes of the
header, or else of the event, are missing (`Event.torn`).  No cut makes another event of one, or
another error (`EventStream.calls_of_cut`).

The lengths in the headers of the events tell where each of them starts (`Event.totalLength`),
since an event is as long as its header declares (`EventStream.length_of_given`).
-/
import BinaryLog.Proofs.Consumption
import BinaryLog.Proofs.Decoded
import BinaryLog.Proofs.Embedded

namespace BinaryLog

set_option autoImplicit false

namespace Event

/-- What an event comes to of which only `there` is there. -/
def torn (e : Event) (there : Bytes) : Except Error (Option Event) :=
  let missing :=
    if there.length < EventHeader.size then EventHeader.size - there.length
    else e.header.eventLength.toNat - there.length
  .error (.parse (.incomplete there (some missing)))

end Event

namespace EventStream

variable {payload : Decode Transaction}

/-- The header of an event that is given tells how many bytes it took. -/
theorem length_of_given {s s' : EventStream} {bs : Bytes} {event : Event}
    (delivers : s.source.Delivers .clean bs) (next : s.nextWith payload = (.ok (some event), s')) :
    event.header.eventLength.toNat = declaredLength bs := by
  obtain ⟨-, -, -, decodes, -⟩ := whole_of_event delivers next
  rw [Event.header_of_decodeWith (congrArg Prod.fst decodes), declaredLength]

/-- A cut behind an event does not touch it. -/
theorem nextWith_of_cut_behind {s s' t : EventStream} {bs : Bytes} {event : Event} {cut : Nat}
    (delivers : s.source.Delivers .clean bs) (next : s.nextWith payload = (.ok (some event), s'))
    (same : t.options = s.options) (shorter : t.source.Delivers .clean (bs.take cut))
    (behind : event.header.eventLength.toNat ≤ cut) :
    ∃ t', t.nextWith payload = (.ok (some event), t') ∧ t'.options = s'.options ∧
      t'.source.Delivers .clean
        ((bs.drop event.header.eventLength.toNat).take (cut - event.header.eventLength.toNat)) := by
  rw [length_of_given delivers next] at behind ⊢
  obtain ⟨there, long, whole, decodes, -⟩ := whole_of_event delivers next
  have least := s.options.size_le_leastLength
  have header : EventHeader.ofBytes (bs.take cut) = EventHeader.ofBytes bs :=
    EventHeader.ofBytes_take (by omega) there
  have declared : declaredLength (bs.take cut) = declaredLength bs := by
    rw [declaredLength, declaredLength, header]
  have length : (bs.take cut).length = min cut bs.length := List.length_take
  obtain ⟨source, next', rest⟩ := nextWith_of_whole payload (s := t) shorter (by omega)
    (by rw [same, declared]; exact long) (by omega)
  rw [declared, header, List.take_take, Nat.min_eq_left behind, same, decodes] at next'
  rw [declared, List.drop_take] at rest
  exact ⟨_, next', rfl, rest⟩

/-- A cut in front of an event is the end, and one through it is told. -/
theorem nextWith_of_cut_within {s s' t : EventStream} {bs : Bytes} {event : Event} {cut : Nat}
    (delivers : s.source.Delivers .clean bs) (next : s.nextWith payload = (.ok (some event), s'))
    (same : t.options = s.options) (shorter : t.source.Delivers .clean (bs.take cut))
    (within : cut < event.header.eventLength.toNat) :
    (t.nextWith payload).1 = if cut = 0 then .ok none else event.torn (bs.take cut) := by
  have declared := length_of_given delivers next
  obtain ⟨there, long, whole, -, -⟩ := whole_of_event delivers next
  have length : (bs.take cut).length = cut := List.length_take_of_le (by omega)
  have tells : EventHeader.size ≤ cut → declaredLength (bs.take cut) = declaredLength bs := by
    intro enough
    rw [declaredLength, declaredLength, EventHeader.ofBytes_take enough there]
  have undecided : ¬ Decided t.options.leastLength (bs.take cut) := by
    rintro ⟨enough, decides⟩
    rw [length] at enough decides
    rw [tells enough, same] at decides
    omega
  obtain ⟨source, next'⟩ := nextWith_of_undecided payload shorter undecided
  rw [next']
  simp only [Ending.outcome]
  rcases Nat.eq_zero_or_pos cut with rfl | pos
  · rfl
  · have some : bs.take cut ≠ [] := List.ne_nil_of_length_pos (by omega)
    rw [if_neg some, if_neg (Nat.ne_of_gt pos)]
    rcases Nat.lt_or_ge cut EventHeader.size with part | enough
    · simp only [Event.torn, missing, length, if_pos part]
    · simp only [Event.torn, missing, length, if_neg (Nat.not_lt_of_le enough), tells enough,
        declared]

/-! ## The whole stream -/

theorem calls_cons {t t' : EventStream} {e : Event} {events : List Event}
    {last : Except Error (Option Event)} (next : t.nextWith payload = (.ok (some e), t'))
    (calls : (callsWith payload (events.length + 1) t').map (·.1) =
      events.map (fun e => .ok (some e)) ++ [last]) :
    (callsWith payload ((e :: events).length + 1) t).map (·.1) =
      (e :: events).map (fun e => .ok (some e)) ++ [last] := by
  rw [List.length_cons, callsWith, List.map_cons, next, calls, List.map_cons, List.cons_append]

theorem calls_of_shorter {events : List Event} :
    ∀ {s t : EventStream} {bs : Bytes} {cut : Nat}, s.source.Delivers .clean bs →
      (callsWith payload (events.length + 1) s).map (·.1) =
        events.map (fun e => .ok (some e)) ++ [.ok none] →
      t.options = s.options → cut ≤ bs.length → t.source.Delivers .clean (bs.take cut) →
      ∃ before behind, events = before ++ behind ∧
        let first := Event.totalLength before
        (first = cut ∧
          (callsWith payload (before.length + 1) t).map (·.1) =
            before.map (fun e => .ok (some e)) ++ [.ok none]) ∨
        ∃ e later, behind = e :: later ∧ first < cut ∧
          cut < first + e.header.eventLength.toNat ∧
          (callsWith payload (before.length + 1) t).map (·.1) =
            before.map (fun e => .ok (some e)) ++ [e.torn ((bs.take cut).drop first)] := by
  -- the events in front of the cut come one by one, each from a stream that is cut by as much less
  induction events with
  | nil =>
      intro s t bs cut delivers calls same inside shorter
      have none : (s.nextWith payload).1 = .ok none := by simpa [callsWith] using calls
      rw [nextWith_outcome delivers, Ending.call_eq_none_iff] at none
      subst none
      obtain rfl : cut = 0 := Nat.le_zero.1 inside
      obtain ⟨source, next⟩ := nextWith_at_end payload shorter
      exact ⟨[], [], rfl, .inl ⟨rfl, by simp [callsWith, next]⟩⟩
  | cons e events ih =>
      intro s t bs cut delivers calls same inside shorter
      obtain ⟨given, calls⟩ : (s.nextWith payload).1 = .ok (some e) ∧
          (callsWith payload (events.length + 1) (s.nextWith payload).2).map (·.1) =
            events.map (fun e => .ok (some e)) ++ [.ok none] := by
        simpa only [List.length_cons, callsWith, List.map_cons, List.cons_append,
          List.cons.injEq] using calls
      have next : s.nextWith payload = (.ok (some e), (s.nextWith payload).2) := Prod.ext given rfl
      rcases Nat.lt_or_ge cut e.header.eventLength.toNat with within | behind
      · have last := nextWith_of_cut_within delivers next same shorter within
        rcases Nat.eq_zero_or_pos cut with rfl | pos
        · exact ⟨[], e :: events, rfl, .inl ⟨rfl, by simpa [callsWith] using last⟩⟩
        · rw [if_neg (Nat.ne_of_gt pos)] at last
          refine ⟨[], e :: events, rfl, .inr ⟨e, events, rfl, pos, ?_, ?_⟩⟩
          · rwa [Event.totalLength, Nat.zero_add]
          · simpa [callsWith, Event.totalLength] using last
      · obtain ⟨t', next', options, rest⟩ :=
          nextWith_of_cut_behind delivers next same shorter behind
        obtain ⟨-, -, -, -, left⟩ := whole_of_event delivers next
        rw [← length_of_given delivers next] at left
        have inside' : cut - e.header.eventLength.toNat ≤
            (bs.drop e.header.eventLength.toNat).length := by
          rw [List.length_drop]
          omega
        obtain ⟨before, later, rfl, ⟨last, calls'⟩ | ⟨e', later', rfl, pos, within, calls'⟩⟩ :=
          ih left calls options inside' rest
        · refine ⟨e :: before, later, rfl, .inl ⟨?_, calls_cons next' calls'⟩⟩
          rw [Event.totalLength, last]
          omega
        · rw [List.drop_take, List.drop_drop, Nat.sub_sub, ← List.drop_take] at calls'
          refine ⟨e :: before, e' :: later', rfl,
            .inr ⟨e', later', rfl, ?_, ?_, calls_cons next' calls'⟩⟩
          · rw [Event.totalLength]
            omega
          · rw [Event.totalLength]
            omega

/-- **A cut is told, and nothing else changes.**  A stream that gives events up to its end, and
then is cut off anywhere, gives the events in front of the cut.  If the cut is where the next event
starts, or behind the last one, then the end comes next, and else what the cut leaves of the next
event. -/
theorem calls_of_cut (payload : Decode Transaction) {o : Options} {bs : Bytes}
    {events : List Event} {source : Source} (delivers : source.Delivers .clean bs)
    (given : (callsWith payload (events.length + 1) { options := o, source }).map (·.1) =
      events.map (fun e => .ok (some e)) ++ [.ok none])
    {cut : Nat} (inside : cut ≤ bs.length) {source' : Source}
    (shorter : source'.Delivers .clean (bs.take cut)) :
    ∃ before behind, events = before ++ behind ∧
      let first := Event.totalLength before
      let results :=
        (callsWith payload (before.length + 1) { options := o, source := source' }).map (·.1)
      (first = cut ∧ results = before.map (fun e => .ok (some e)) ++ [.ok none]) ∨
      ∃ e later, behind = e :: later ∧ first < cut ∧ cut < first + e.header.eventLength.toNat ∧
        results = before.map (fun e => .ok (some e)) ++ [e.torn ((bs.take cut).drop first)] :=
  calls_of_shorter delivers given rfl inside shorter

end EventStream

/-- A session that is cut off within its second event, a transaction with a checksum. -/
theorem calls_of_cut_session :
    let stream : Bytes → EventStream := fun bs => { options := {}, source := .ofBytes bs }
    (EventStream.callsWith Transaction.decode 6 (stream Example.log.2)).map (·.1) =
        Example.log.1.map (fun e => .ok (some e)) ++ [.ok none] ∧
      150 ≤ Example.log.2.length ∧
      ∃ before behind, Example.log.1 = before ++ behind ∧
        let first := Event.totalLength before
        let results := (EventStream.callsWith Transaction.decode (before.length + 1)
          (stream (Example.log.2.take 150))).map (·.1)
        (first = 150 ∧ results = before.map (fun e => .ok (some e)) ++ [.ok none]) ∨
        ∃ e later, behind = e :: later ∧ first < 150 ∧
          150 < first + e.header.eventLength.toNat ∧
          results = before.map (fun e => .ok (some e)) ++
            [e.torn ((Example.log.2.take 150).drop first)] := by
  have events : Example.log.1.length = 5 := by decide +kernel
  have long : 150 ≤ Example.log.2.length := by decide +kernel
  have delivers := Source.delivers_ofBytes Example.log.2
  have given := EventStream.calls_of_writeAll (o := {}) Example.session_writable
    Example.log_written delivers
  refine ⟨given, long, ?_⟩
  exact EventStream.calls_of_cut Transaction.decode delivers (events.symm ▸ given) long
    (Source.delivers_ofBytes (Example.log.2.take 150))

end BinaryLog
