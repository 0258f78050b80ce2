/-
# BinaryLog.Proofs.Given -- the events that decoding gives, and the bytes they are decoded from

An event is given as the next one of a stream, as what a byte string is, or within a transaction
that is given, at any depth (`Event.Given`).  Whichever way it is given, it was decoded from certain
bytes with certain options in force (`Event.Origin`): those that were cut off the stream, the byte
string itself, or those that were cut off the payload behind the events in front of it.  So what an
event has passed that is decoded from its bytes (`Event.Passed`) holds of each event that is given
(`Event.Given.exists_origin`, `Event.Origin.passed`).
-/
import BinaryLog.Proofs.Corruption
import BinaryLog.Proofs.Trailers

namespace BinaryLog

set_option autoImplicit false

namespace Event

/-- An event that decoding gives. -/
inductive Given : Event → Prop
  | next {s s' : EventStream} {e : Event} (gives : s.next = (.ok (some e), s')) : Given e
  | parsed {o : Options} {raw : Bytes} {e : Event} (gives : (parse o raw).1 = .ok e) : Given e
  | embedded {outer e : Event} {t : Transaction} (given : Given outer)
      (holds : outer.body = .transactionPayload t) (member : e ∈ t.events) : Given e

/-- The bytes that an event is decoded from, and the options that are in force there. -/
inductive Origin (e : Event) : Options → Bytes → Prop
  | next {s s' : EventStream} {raw : Bytes}
      (cuts : cut s.options.leastLength s.source = (.event e.header raw, s'.source))
      (gives : s.next = (.ok (some e), s')) : Origin e s.options raw
  | parsed {o : Options} {raw : Bytes} (gives : (parse o raw).1 = .ok e) : Origin e o raw
  | embedded {outer : Event} {t : Transaction} {source : Source} {s s' : EventStream} {raw : Bytes}
      {before behind : List Event} (given : Given outer)
      (holds : outer.body = .transactionPayload t) (split : t.events = before ++ e :: behind)
      (opens : t.header.compression.source t.payload = .ok source)
      (here : s = EventStream.behind Transaction.decode before.length { options := {}, source })
      (cuts : cut s.options.leastLength s.source = (.event e.header raw, s'.source))
      (gives : s.next = (.ok (some e), s')) : Origin e s.options raw

variable {e : Event} {o : Options} {raw : Bytes}

/-- An event is as long as its header says, and has passed what the options demand. -/
theorem Origin.passed (origin : e.Origin o raw) :
    o.leastLength ≤ raw.length ∧ raw.length = e.header.eventLength.toNat ∧
      e.header = .ofBytes raw ∧ e.Passed Transaction.decode o e.header raw := by
  cases origin with
  | next cuts gives =>
      obtain ⟨raw', again, length, passed⟩ := EventStream.passed_of_given gives
      cases cuts.symm.trans again
      obtain ⟨same, least, -⟩ := Source.framed_of_cut (Options.size_le_leastLength _) cuts
      exact ⟨least, length, same, passed⟩
  | parsed gives =>
      obtain ⟨least, exact, decodes⟩ := framed_of_parseWith gives
      have passed := passed_of_decodeWith decodes
      have same := passed.same
      rw [← same] at passed
      exact ⟨least, by rw [same]; exact exact.symm, same, passed⟩
  | embedded given holds split opens here cuts gives =>
      obtain ⟨raw', again, length, passed⟩ := EventStream.passed_of_given gives
      cases cuts.symm.trans again
      obtain ⟨same, least, -⟩ := Source.framed_of_cut (Options.size_le_leastLength _) cuts
      exact ⟨least, length, same, passed⟩

/-- A transaction that is given was decoded as one. -/
theorem Origin.exists_of_transaction {t : Transaction} (origin : e.Origin o raw)
    (holds : e.body = .transactionPayload t) :
    ∃ bs rest, Transaction.decode bs = .ok t rest := by
  obtain ⟨-, -, -, passed⟩ := origin.passed
  have value := passed.value
  rw [holds] at value
  exact ⟨_, Body.exists_of_transaction value⟩

theorem Given.exists_origin (given : e.Given) : ∃ o raw, e.Origin o raw := by
  induction given with
  | next gives =>
      obtain ⟨raw, cuts, -, -⟩ := EventStream.passed_of_given gives
      exact ⟨_, raw, .next cuts gives⟩
  | parsed gives => exact ⟨_, _, .parsed gives⟩
  | embedded given holds member ih =>
      obtain ⟨o, raw, origin⟩ := ih
      obtain ⟨bs, rest, decodes⟩ := origin.exists_of_transaction holds
      obtain ⟨before, behind, split⟩ := List.append_of_mem member
      obtain ⟨source, opens, gives, -⟩ := Transaction.exists_of_decode decodes split
      obtain ⟨raw', cuts, -, -⟩ := EventStream.passed_of_given (Prod.ext gives rfl)
      exact ⟨_, raw', .embedded given holds split opens rfl cuts (Prod.ext gives rfl)⟩

end Event

end BinaryLog
