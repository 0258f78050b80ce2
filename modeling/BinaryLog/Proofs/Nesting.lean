/-
# BinaryLog.Proofs.Nesting -- payloads within payloads are read back

A transaction holds events, and these may be transactions.  Its payload is made from the inside
out: it holds the written events one behind the other, stored as they are or compressed
(`Compression.Yields`).  `TransactionPayload.WellNested` says that a tree of events is made like
this.

Each level of such a tree is decoded to the members that were written into it, if what decodes the
payloads among them does so (`Transaction.eventsWith_of_members`).  So the whole tree comes back
from its root when as many levels are followed as it is high (`Transaction.decodeAt_encode`).
-/
import BinaryLog.Proofs.Embedded
import BinaryLog.Proofs.Expansion
import BinaryLog.Proofs.Written

namespace BinaryLog

set_option autoImplicit false

open Wire

/-! ## Trees of events -/

namespace Event

/-- Events written one behind the other, without checksums. -/
def encodeAll : List Event → Except Violation Bytes
  | [] => .ok []
  | e :: events => do
    let raw ← e.encode false
    let behind ← encodeAll events
    return raw ++ behind

/-- The header of an event as it is written without a checksum. -/
def writtenHeader (e : Event) : EventHeader :=
  match e.encode false with
  | .ok raw => e.header.withLength raw.length
  | .error _ => e.header

end Event

mutual

/-- An event that a payload may hold: its header names its type, and if it is a transaction, that is
made up rightly.  Format descriptions are none. -/
inductive Event.Embeddable : Event → Prop
  | leaf {e : Event} (typed : e.body.type? = some e.type) (plain : e.type ≠ .formatDescription)
      (leaf : e.type ≠ .transactionPayload) : Event.Embeddable e
  | node {header : EventHeader} {p : Transaction} {crc32 : UInt32}
      (typed : header.type = .transactionPayload) (tree : TransactionPayload.WellNested p) :
      Event.Embeddable ⟨header, .transactionPayload p, crc32⟩

/-- The payload of a transaction yields its events as they are written. -/
inductive TransactionPayload.WellNested : Transaction → Prop
  | intro {p : Transaction} {content : Bytes} (sized : p.Sized)
      (members : ∀ e ∈ p.events, Event.Embeddable e)
      (written : Event.encodeAll p.events = .ok content)
      (yields : p.header.compression.Yields p.payload .clean content) :
      TransactionPayload.WellNested p

end

mutual

/-- How many payloads lie within each other in a body. -/
def Body.height : Body → Nat
  | .transactionPayload ⟨_, _, events⟩ => Body.heightAll events + 1
  | _ => 0

def Body.heightAll : List (Framed Body) → Nat
  | [] => 0
  | ⟨_, b, _⟩ :: events => max b.height (Body.heightAll events)

end

mutual

/-- A body as it is read back: the events in it are. -/
def Body.readBack : Body → Body
  | .transactionPayload ⟨header, payload, events⟩ =>
    .transactionPayload ⟨header, payload, Body.readBackAll events⟩
  | b => b

/-- Embedded events as they are read back: with the lengths that were written, and no checksum. -/
def Body.readBackAll : List (Framed Body) → List (Framed Body)
  | [] => []
  | ⟨header, b, crc32⟩ :: events =>
    ⟨Event.writtenHeader ⟨header, b, crc32⟩, b.readBack, 0⟩ :: Body.readBackAll events

end

namespace TransactionPayload

def height (p : Transaction) : Nat := Body.heightAll p.events + 1

def readBack (p : Transaction) : Transaction := { p with events := Body.readBackAll p.events }

end TransactionPayload

namespace Body

theorem readBackAll_cons (e : Event) (events : List Event) :
    readBackAll (e :: events) = ⟨e.writtenHeader, e.body.readBack, 0⟩ :: readBackAll events := by
  obtain ⟨header, b, crc32⟩ := e
  rw [readBackAll]

theorem heightAll_cons (e : Event) (events : List Event) :
    heightAll (e :: events) = max e.body.height (heightAll events) := by
  obtain ⟨header, b, crc32⟩ := e
  rw [heightAll]

theorem height_le_heightAll {e : Event} {events : List Event} (member : e ∈ events) :
    e.body.height ≤ heightAll events := by
  induction events with
  | nil => cases member
  | cons first events ih =>
      rw [heightAll_cons]
      rcases List.mem_cons.1 member with rfl | member
      · exact Nat.le_max_left _ _
      · exact Nat.le_trans (ih member) (Nat.le_max_right _ _)

theorem exists_of_lt_heightAll {k : Nat} {events : List Event} (below : k < heightAll events) :
    ∃ e ∈ events, k < e.body.height := by
  induction events with
  | nil => exact absurd below (Nat.not_lt_zero k)
  | cons first events ih =>
      rw [heightAll_cons] at below
      rcases Nat.lt_or_ge k first.body.height with here | beyond
      · exact ⟨first, List.mem_cons_self, here⟩
      · obtain ⟨e, member, deep⟩ := ih (by omega)
        exact ⟨e, List.mem_cons_of_mem first member, deep⟩

theorem height_transaction (p : Transaction) : (transactionPayload p).height = p.height := by
  obtain ⟨header, payload, events⟩ := p
  rw [height, TransactionPayload.height]

theorem readBack_transaction (p : Transaction) :
    (transactionPayload p).readBack = transactionPayload p.readBack := by
  obtain ⟨header, payload, events⟩ := p
  rw [readBack, TransactionPayload.readBack]

theorem height_of_leaf {b : Body} {t : EventType} (typed : b.type? = some t)
    (leaf : t ≠ .transactionPayload) : b.height = 0 := by
  cases b with
  | transactionPayload p =>
      cases typed
      exact absurd rfl leaf
  | _ => rw [height]; intro _ _ _ eq; cases eq

theorem readBack_of_leaf {b : Body} {t : EventType} (typed : b.type? = some t)
    (leaf : t ≠ .transactionPayload) : b.readBack = b := by
  cases b with
  | transactionPayload p =>
      cases typed
      exact absurd rfl leaf
  | _ => rw [readBack]; intro _ _ _ eq; cases eq

end Body

/-! ## One level -/

namespace Event

/-- The body comes back, if payloads are decoded by `inner`, and it is no format description. -/
structure Returns (inner : Decode Transaction) (e : Event) : Prop where
  plain : e.type ≠ .formatDescription
  value : ∀ body, e.body.encode = .ok body →
    (Body.readWith inner e.type).value body = .ok e.body.readBack

theorem returns_of_leaf (inner : Decode Transaction) {e : Event}
    (typed : e.body.type? = some e.type) (plain : e.type ≠ .formatDescription)
    (leaf : e.type ≠ .transactionPayload) : e.Returns inner := by
  have same := Body.readBack_of_leaf typed leaf
  constructor
  · exact plain
  · intro body encoded
    rw [same]
    exact Body.value_encode inner typed encoded plain leaf

/-- A transaction comes back if `inner` decodes it. -/
theorem returns_of_node {inner : Decode Transaction} {header : EventHeader} {p : Transaction}
    {crc32 : UInt32} (typed : header.type = .transactionPayload)
    (decodes : inner p.encode = .ok p.readBack []) :
    Returns inner ⟨header, .transactionPayload p, crc32⟩ := by
  have back : (Body.transactionPayload p).readBack = .transactionPayload p.readBack :=
    Body.readBack_transaction p
  have type : Event.type ⟨header, .transactionPayload p, crc32⟩ = .transactionPayload := typed
  constructor
  · rw [type]
    decide
  · intro body encoded
    cases encoded
    rw [type, back]
    simp only [Body.readWith, Decode.value, Functor.map, EStateM.map, decodes]

variable {inner : Decode Transaction} {e : Event} {raw : Bytes}

/-- An embedded event as it is read back. -/
def found (e : Event) : Event := ⟨e.writtenHeader, e.body.readBack, 0⟩

theorem decodeWith_of_returns (returns : e.Returns inner) (written : e.encode false = .ok raw) :
    decodeWith inner {} (.ofBytes raw) raw = (.ok e.found, {}) := by
  obtain ⟨body, encoded, framed⟩ := encode_cases written
  have decoded := decodeWith_of_frame inner (o := {}) framed returns.plain
    (returns.value body encoded)
  simp only [decoded, found, writtenHeader, written]
  rfl

theorem length_pos_of_encode {checksum : Bool} (written : e.encode checksum = .ok raw) :
    EventHeader.size ≤ raw.length := by
  obtain ⟨body, -, framed⟩ := encode_cases written
  rw [EventHeader.length_frame framed, Nat.add_assoc]
  exact Nat.le_add_right ..

theorem encodeAll_cons {events : List Event} {content : Bytes}
    (written : encodeAll (e :: events) = .ok content) :
    ∃ raw behind, e.encode false = .ok raw ∧ encodeAll events = .ok behind ∧
      content = raw ++ behind := by
  simp only [encodeAll, bind, Except.bind] at written
  split at written
  · cases written
  · rename_i raw first
    split at written
    · cases written
    · rename_i behind later
      cases written
      exact ⟨raw, behind, first, later, rfl⟩

theorem length_le_encodeAll {events : List Event} :
    ∀ {content : Bytes}, encodeAll events = .ok content → events.length ≤ content.length := by
  induction events with
  | nil => intro content _; exact Nat.zero_le _
  | cons e events ih =>
      intro content written
      obtain ⟨raw, behind, first, later, rfl⟩ := encodeAll_cons written
      have pos : 0 < EventHeader.size := by decide
      have long := length_pos_of_encode first
      have rest := ih later
      rw [List.length_cons, List.length_append]
      omega

end Event

namespace EmbeddedEvents

variable {inner : Decode Transaction} {source : Source} {ending : Ending}

theorem nextWith_of_returns {e : Event} {raw bs : Bytes} {i : Nat} (returns : e.Returns inner)
    (written : e.encode false = .ok raw) (delivers : source.Delivers ending (raw ++ bs)) :
    ∃ source', source'.Delivers ending bs ∧
      nextWith inner { stream := some { options := {}, source }, index := i } =
        (some (.ok e.found),
          { stream := some { options := {}, source := source' }, index := i + 1 }) := by
  obtain ⟨body, encoded, framed⟩ := Event.encode_cases written
  obtain ⟨source', next, left⟩ := EventStream.nextWith_of_frame inner
    (s := { options := {}, source }) delivers (Event.length_pos_of_encode written)
    (declaredLength_frame framed)
  rw [Event.decodeWith_of_returns returns written] at next
  exact ⟨source', left, nextWith_of_event inner next⟩

theorem collectWithin_at_end {o : Options} {fuel i : Nat} (delivers : source.Delivers .clean []) :
    collectWithin inner (fuel + 1) { stream := some { options := o, source }, index := i } =
      .ok [] := by
  obtain ⟨source', next⟩ :=
    EventStream.nextWith_at_end inner (s := { options := o, source }) delivers
  simp only [collectWithin, nextWith, next]

theorem collectWithin_cons {e e' : EmbeddedEvents} {event : Event} {events : List Event}
    {fuel : Nat} (next : e.nextWith inner = (some (.ok event), e'))
    (later : collectWithin inner fuel e' = .ok events) :
    collectWithin inner (fuel + 1) e = .ok (event :: events) := by
  simp only [collectWithin, next, later]
  rfl

/-- The members of a payload are collected, and then its end is found. -/
theorem collectWithin_of_members {events : List Event} :
    ∀ {fuel i : Nat} {content : Bytes} {source : Source}, (∀ e ∈ events, e.Returns inner) →
      Event.encodeAll events = .ok content → source.Delivers .clean content →
      events.length < fuel →
      collectWithin inner fuel { stream := some { options := {}, source }, index := i } =
        .ok (Body.readBackAll events) := by
  induction events with
  | nil =>
      intro fuel i content source _ written delivers enough
      obtain ⟨fuel, rfl⟩ := Nat.exists_eq_succ_of_ne_zero (Nat.ne_of_gt enough)
      cases written
      exact collectWithin_at_end delivers
  | cons e events ih =>
      intro fuel i content source returns written delivers enough
      rw [List.length_cons] at enough
      obtain ⟨fuel, rfl⟩ := Nat.exists_eq_succ_of_ne_zero (Nat.ne_of_gt (Nat.zero_lt_of_lt enough))
      obtain ⟨raw, behind, first, later, rfl⟩ := Event.encodeAll_cons written
      obtain ⟨here, others⟩ := List.forall_mem_cons.1 returns
      obtain ⟨source', left, next⟩ := nextWith_of_returns (i := i) here first delivers
      rw [Body.readBackAll_cons]
      exact collectWithin_cons next (ih others later left (by omega))

end EmbeddedEvents

theorem Zstd.Decoder.delivers_nothing {bs : Bytes} {ending : Ending}
    (delivers : (ofBytes []).Delivers ending bs) : bs = [] := by
  have answers := delivers.answers Nat.one_pos
  have ends : (ofBytes []).read 1 = .ok ([], ofBytes []) := rfl
  rw [ends] at answers
  generalize none : ([] : Bytes) = front at answers
  cases answers with
  | piece some => exact absurd none.symm some
  | finished => rfl

namespace Transaction

variable {inner : Decode Transaction} {compression : Compression} {payload content : Bytes}
  {events : List Event}

theorem eventsWith_of_source {source : Source}
    (opens : compression.source payload = .ok source)
    (returns : ∀ e ∈ events, e.Returns inner) (written : Event.encodeAll events = .ok content)
    (delivers : source.Delivers .clean content) (bounded : content.length ≤ source.bound)
    (nothing : payload = [] → content = []) :
    eventsWith inner compression payload = .ok (Body.readBackAll events) := by
  have few := Event.length_le_encodeAll written
  by_cases empty : payload = []
  · -- an empty payload is not read, but no event can be in it
    rw [nothing empty] at few
    obtain rfl : events = [] := List.length_eq_zero_iff.1 (Nat.le_zero.1 few)
    subst empty
    simp only [eventsWith, EmbeddedEvents.new, opens, bind, Except.bind, pure, Except.pure,
      List.isEmpty_nil, if_true, EmbeddedEvents.collect, Body.readBackAll]
  · have collects := EmbeddedEvents.collectWithin_of_members (i := 0) returns written delivers
      (by omega : events.length < source.bound + 1)
    simp only [eventsWith, EmbeddedEvents.new_eq empty opens, bind, Except.bind,
      EmbeddedEvents.collect, EmbeddedEvents.ofSource, collects]

/-- A payload that yields written events is decoded to them, if those among its members that are
transactions are decoded by `inner`. -/
theorem eventsWith_of_members (returns : ∀ e ∈ events, e.Returns inner)
    (written : Event.encodeAll events = .ok content)
    (yields : compression.Yields payload .clean content) :
    eventsWith inner compression payload = .ok (Body.readBackAll events) := by
  cases compression with
  | stored =>
      obtain ⟨rfl, -⟩ := yields
      refine eventsWith_of_source rfl returns written (Source.delivers_ofBytes payload) ?_ id
      rw [Source.bound, Source.size_ofBytes]
      omega
  | zstd =>
      have delivers : (Zstd.Decoder.ofBytes payload).Delivers .clean content := yields
      refine eventsWith_of_source rfl returns written (Source.delivers_ofCompressed delivers) ?_ ?_
      · have most := delivers.length_le_bound
        simp only [Source.bound, Source.ofCompressed, Rest.bound]
        omega
      · rintro rfl
        exact Zstd.Decoder.delivers_nothing delivers
  | unknown code => exact absurd yields id

/-! ## All levels -/

/-- Decodes a transaction payload as far as `depth` levels of nesting go. -/
def decodeAt : Nat → Decode Transaction
  | 0 => throw .nestedTooDeep
  | depth + 1 => decodeWith (decodeAt depth)

theorem decodeWith_of_members {p : Transaction} (sized : p.Sized)
    (returns : ∀ e ∈ p.events, e.Returns inner) (written : Event.encodeAll p.events = .ok content)
    (yields : p.header.compression.Yields p.payload .clean content) :
    decodeWith inner p.encode = .ok p.readBack [] := by
  have held := eventsWith_of_members returns written yields
  obtain ⟨header, payload, events⟩ := p
  exact decodeWith_encode sized held

/-- A member of a tree comes back if the trees that are no higher do. -/
theorem returns_of_embeddable {depth : Nat} {e : Event} (embeddable : e.Embeddable)
    (low : e.body.height ≤ depth)
    (trees : ∀ {p : Transaction}, p.WellNested → p.height ≤ depth →
      decodeAt depth p.encode = .ok p.readBack []) : e.Returns (decodeAt depth) := by
  cases embeddable with
  | leaf typed plain leaf => exact Event.returns_of_leaf (decodeAt depth) typed plain leaf
  | @node header p crc32 typed tree =>
      have height : (Body.transactionPayload p).height = p.height := Body.height_transaction p
      exact Event.returns_of_node typed (trees tree (height ▸ low))

/-- A tree comes back from its root, with as many levels as it is high. -/
theorem decodeAt_encode {depth : Nat} :
    ∀ {p : Transaction}, p.WellNested → p.height ≤ depth →
      decodeAt depth p.encode = .ok p.readBack [] := by
  induction depth with
  | zero => intro p _ high; exact absurd high (Nat.not_succ_le_zero _)
  | succ depth ih =>
      intro p tree high
      cases tree with
      | intro sized members written yields =>
          refine decodeWith_of_members sized ?_ written yields
          intro e member
          have low := Body.height_le_heightAll member
          exact returns_of_embeddable (members e member)
            (Nat.le_trans low (Nat.le_of_succ_le_succ high)) ih

/-- The members of a tree come back from its payload. -/
theorem eventsWith_of_tree (depth : Nat) {p : Transaction} (tree : p.WellNested)
    (high : p.height ≤ depth + 1) :
    eventsWith (decodeAt depth) p.header.compression p.payload =
      .ok (Body.readBackAll p.events) := by
  cases tree with
  | intro sized members written yields =>
      refine eventsWith_of_members ?_ written yields
      intro e member
      have low := Body.height_le_heightAll member
      exact returns_of_embeddable (members e member)
        (Nat.le_trans low (Nat.le_of_succ_le_succ high)) decodeAt_encode

end Transaction

end BinaryLog
