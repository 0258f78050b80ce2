/-
# BinaryLog.Proofs.Shrinking -- stored payloads end by themselves

To decode the body of a transaction, the bodies of the transactions in its payload are decoded
(`Transaction.Asks`), and so on level by level (`Transaction.Reaches`).  Nothing but these bodies
decides what decoding comes to (`Transaction.decodeWith_congr`).

A body that lies in a stored payload is shorter than the one around it: by its own header, and by
the fields that announce the payload (`Transaction.length_of_asks`).  So where all payloads are
stored, the levels come to an end by themselves, whether the bodies are well formed or not, and it
does not matter how many more may be followed, or what would be behind them
(`Transaction.levels_of_stored`).
-/
import BinaryLog.Proofs.Depth
import BinaryLog.Proofs.Fields
import BinaryLog.Proofs.Rereading
import BinaryLog.Proofs.Trailers
import Mathlib.Logic.Function.Iterate

namespace BinaryLog

set_option autoImplicit false

/-! ## What decoding asks for -/

/-- A stream has `bs` decoded as the body of a transaction: that of the next event, which is there
as a whole and with the right checksum if it has one, or that of an event behind those that are
given. -/
inductive EventStream.Asks : EventStream → Bytes → Prop
  | here {s : EventStream} {source : Source} {header : EventHeader} {raw : Bytes}
      (cuts : cut s.options.leastLength s.source = (.event header raw, source))
      (typed : header.type = .transactionPayload)
      (verified : s.options.checksum = true → ∃ crc32, verifyChecksum s.options raw = .ok crc32) :
      Asks s (Event.bodyBytes s.options.checksum header.type raw)
  | later {s s' : EventStream} {e : Event} {bs : Bytes} (next : s.next = (.ok (some e), s'))
      (asks : Asks s' bs) : Asks s bs

namespace Transaction

/-- A body has this header, and behind it this payload. -/
def Announces (bs : Bytes) (header : PayloadHeader) (payload : Bytes) : Prop :=
  ∃ mid rest, PayloadHeader.read bs = .ok header mid ∧
    readPayload header.payloadSize mid = .ok payload rest

/-- To decode one body the other one is decoded, that of an event in its payload. -/
def Asks (bs bs' : Bytes) : Prop :=
  ∃ header payload index s, Announces bs header payload ∧
    EmbeddedEvents.new header.compression payload = .ok { stream := some s, index } ∧ s.Asks bs'

/-- A body is decoded that many levels below another one. -/
inductive Reaches : Nat → Bytes → Bytes → Prop
  | here {bs : Bytes} : Reaches 0 bs bs
  | within {n : Nat} {bs mid bs' : Bytes} (asks : Asks bs mid) (reaches : Reaches n mid bs') :
      Reaches (n + 1) bs bs'

/-- Every payload on the way is stored or empty. -/
def AllStored (bs : Bytes) : Prop :=
  ∀ n bs', Reaches n bs bs' → ∀ header payload, Announces bs' header payload →
    header.compression = .stored ∨ payload = []

theorem AllStored.here {bs : Bytes} (stored : AllStored bs) {header : PayloadHeader}
    {payload : Bytes} (announces : Announces bs header payload) :
    header.compression = .stored ∨ payload = [] :=
  stored 0 bs .here header payload announces

theorem AllStored.within {bs bs' : Bytes} (stored : AllStored bs) (asks : Asks bs bs') :
    AllStored bs' :=
  fun n bs'' reaches => stored (n + 1) bs'' (.within asks reaches)

theorem AllStored.of_reaches {n : Nat} {bs bs' : Bytes} (stored : AllStored bs)
    (reaches : Reaches n bs bs') : AllStored bs' := by
  induction reaches with
  | here => exact stored
  | within asks _ ih => exact ih (stored.within asks)

theorem AllStored.intro {bs : Bytes}
    (here : ∀ header payload, Announces bs header payload →
      header.compression = .stored ∨ payload = [])
    (within : ∀ bs', Asks bs bs' → AllStored bs') : AllStored bs := by
  intro n bs' reaches
  cases reaches with
  | here => exact here
  | within asks reaches => exact within _ asks _ _ reaches

end Transaction

/-! ## Nothing else decides -/

section Congruence

variable {inner : Decode Transaction}

theorem Event.decodeWith_of_asks {s : EventStream} {source : Source} {header : EventHeader}
    {raw : Bytes} (agree : ∀ bs, s.Asks bs → inner bs = Transaction.decode bs)
    (cuts : cut s.options.leastLength s.source = (.event header raw, source)) :
    decodeWith inner s.options header raw = decodeWith Transaction.decode s.options header raw := by
  by_cases typed : header.type = .transactionPayload
  · have plain : header.type ≠ .formatDescription := by rw [typed]; decide
    have same (verified : s.options.checksum = true →
        ∃ crc32, verifyChecksum s.options raw = .ok crc32) :
        (Body.readWith inner header.type).value (bodyBytes s.options.checksum header.type raw) =
          (Body.readWith Transaction.decode header.type).value
            (bodyBytes s.options.checksum header.type raw) := by
      have agrees := agree _ (.here cuts typed verified)
      simp only [Body.readWith, typed, Decode.value, Functor.map, EStateM.map] at agrees ⊢
      rw [agrees]
    rw [decodeWith, decodeWith, if_neg plain, if_neg plain, decodeOrdinary, decodeOrdinary]
    congr 1
    split
    · rename_i enabled
      cases verified : verifyChecksum s.options raw with
      | error e => rfl
      | ok crc32 =>
          have body := same fun _ => ⟨crc32, verified⟩
          rw [bodyBytes, if_pos ⟨enabled, plain⟩] at body
          simp only [body]
    · rename_i disabled
      have body := same fun enabled => absurd enabled disabled
      rw [bodyBytes, if_neg fun both => disabled both.1] at body
      simp only [body]
  · exact decodeWith_congr inner Transaction.decode typed

theorem EventStream.nextWith_of_asks {s : EventStream}
    (agree : ∀ bs, s.Asks bs → inner bs = Transaction.decode bs) :
    s.nextWith inner = s.nextWith Transaction.decode := by
  unfold nextWith
  cases cuts : cut s.options.leastLength s.source with
  | mk found source =>
      cases found with
      | event header raw => simp only [Event.decodeWith_of_asks agree cuts]
      | finished => rfl
      | refused error => rfl
      | fault text => rfl

theorem EmbeddedEvents.collectWithin_of_asks {fuel : Nat} :
    ∀ {s : EventStream} {i : Nat}, (∀ bs, s.Asks bs → inner bs = Transaction.decode bs) →
      collectWithin inner fuel { stream := some s, index := i } =
        collectWithin Transaction.decode fuel { stream := some s, index := i } := by
  induction fuel with
  | zero => intro s i _; rfl
  | succ fuel ih =>
      intro s i agree
      have same : nextWith inner { stream := some s, index := i } =
          nextWith Transaction.decode { stream := some s, index := i } := by
        simp only [nextWith, EventStream.nextWith_of_asks agree]
      rw [collectWithin, collectWithin, same]
      split
      · rfl
      · rfl
      · rename_i event e' next
        obtain ⟨given, rfl⟩ := stream_of_nextWith next
        rw [ih fun bs asks => agree bs (.later given asks)]

theorem Transaction.eventsWith_of_asks {compression : Compression} {payload : Bytes}
    (agree : ∀ index s, EmbeddedEvents.new compression payload = .ok { stream := some s, index } →
      ∀ bs, s.Asks bs → inner bs = decode bs) :
    eventsWith inner compression payload = eventsWith decode compression payload := by
  unfold eventsWith
  cases opens : EmbeddedEvents.new compression payload with
  | error e => rfl
  | ok events =>
      obtain ⟨stream, index⟩ := events
      cases stream with
      | none => rfl
      | some s => exact EmbeddedEvents.collectWithin_of_asks (agree index s opens)

/-- Decoding a body depends on how the bodies in its payload are decoded, and on nothing else. -/
theorem Transaction.decodeWith_congr {bs : Bytes}
    (agree : ∀ bs', Asks bs bs' → inner bs' = decode bs') :
    decodeWith inner bs = decodeWith decode bs := by
  simp only [decodeWith, bind, EStateM.bind]
  cases head : PayloadHeader.read bs with
  | error e rest => rfl
  | ok header mid =>
      cases taken : readPayload header.payloadSize mid with
      | error e rest => simp only [taken]
      | ok payload rest =>
          have same : eventsWith inner header.compression payload =
              eventsWith decode header.compression payload :=
            eventsWith_of_asks fun index s opens bs' asks =>
              agree bs' ⟨header, payload, index, s, ⟨mid, rest, head, taken⟩, opens, asks⟩
          simp only [taken, same]

end Congruence

/-! ## What is asked for is shorter -/

/-- A whole event was cut from what a source delivers. -/
theorem Source.of_cut_event {least : Nat} {s s' : Source} {bs raw : Bytes} {header : EventHeader}
    (large : EventHeader.size ≤ least) (delivers : s.Delivers .clean bs)
    (cuts : cut least s = (.event header raw, s')) :
    header = .ofBytes bs ∧ raw = bs.take (declaredLength bs) ∧ declaredLength bs ≤ bs.length := by
  by_cases decided : Decided least bs
  · obtain ⟨there, short | ⟨long, whole⟩⟩ := decided.cases
    · obtain ⟨source, refused, -⟩ := cut_of_short_length delivers there short
      rw [refused] at cuts
      cases cuts
    · obtain ⟨source, event, -⟩ := cut_of_whole delivers there large long whole
      rw [event] at cuts
      cases cuts
      exact ⟨rfl, rfl, whole⟩
  · have next := cut_of_undecided delivers decided
    rw [cuts, Ending.cutShort] at next
    split at next <;> cases next

namespace EventStream

/-- A body is shorter than the bytes that its event is cut from, by a header. -/
theorem length_of_asks {s : EventStream} {bs' : Bytes} (asks : s.Asks bs') :
    ∀ {bs : Bytes}, s.source.Delivers .clean bs → bs'.length + EventHeader.size ≤ bs.length := by
  induction asks with
  | @here s source header raw cuts _ _ =>
      intro bs delivers
      have least := s.options.size_le_leastLength
      obtain ⟨-, long, -⟩ := Source.framed_of_cut least cuts
      obtain ⟨-, rfl, -⟩ := Source.of_cut_event least delivers cuts
      have body := Event.length_bodyBytes_le s.options.checksum header.type
        (bs.take (declaredLength bs))
      have part := List.length_take_le' (declaredLength bs) bs
      omega
  | later next _ ih =>
      intro bs delivers
      obtain ⟨-, -, -, -, left⟩ := whole_of_event delivers next
      have shorter := ih left
      rw [List.length_drop] at shorter
      omega

/-- Where one event is all there is, no other body is asked for. -/
theorem eq_of_asks {s : EventStream} {bs bs' : Bytes} (delivers : s.source.Delivers .clean bs)
    (single : declaredLength bs = bs.length) (asks : s.Asks bs') :
    bs' = Event.bodyBytes s.options.checksum (EventHeader.ofBytes bs).type bs := by
  cases asks with
  | here cuts typed verified =>
      obtain ⟨rfl, rfl, -⟩ := Source.of_cut_event s.options.size_le_leastLength delivers cuts
      rw [single, List.take_length]
  | later next asks =>
      obtain ⟨-, -, -, -, left⟩ := whole_of_event delivers next
      have none := length_of_asks asks left
      rw [single, List.drop_length] at none
      exact absurd none (Nat.not_succ_le_zero _)

end EventStream

namespace Transaction

variable {bs bs' payload : Bytes} {header : PayloadHeader}

theorem length_of_readPayload {size : UInt32} {mid rest : Bytes}
    (taken : readPayload size mid = .ok payload rest) : payload.length ≤ mid.length := by
  simp only [readPayload] at taken
  split at taken
  · cases taken
  split at taken
  · cases taken
    exact List.length_take_le' _ _
  · cases taken

/-- A stored payload that has room for an event lies behind nine bytes of header. -/
theorem length_of_announces (announces : Announces bs header payload)
    (stored : header.compression = .stored) (room : EventHeader.size ≤ payload.length) :
    payload.length ≤ maxPayload.toNat ∧ payload.length + 9 ≤ bs.length := by
  obtain ⟨mid, rest, reads, taken⟩ := announces
  obtain ⟨size, fits⟩ := size_of_readPayload taken
  have within := length_of_readPayload taken
  rw [EventHeader.size] at room
  have some : header.payloadSize ≠ 0 := by
    rintro none
    rw [none] at size
    have zero : (0 : UInt32).toNat = 0 := rfl
    omega
  rw [UInt32.le_iff_toNat_le] at fits
  rcases PayloadHeader.length_of_stored reads stored some with few | behind <;> omega

/-- A body in a stored payload is shorter than the one around it, by the header of the payload and
that of the event. -/
theorem length_of_asks (stored : AllStored bs) (asks : Asks bs bs') :
    bs'.length < maxPayload.toNat ∧ bs'.length + 28 ≤ bs.length := by
  obtain ⟨header, payload, index, s, announces, opens, asks⟩ := asks
  obtain ⟨source, opened, same⟩ := exists_of_bind_eq_ok opens
  rcases stored.here announces with plain | rfl
  · rw [plain] at opened
    cases opened
    cases payload with
    | nil => cases same
    | cons b payload =>
        cases same
        have inside := EventStream.length_of_asks asks (Source.delivers_ofBytes (b :: payload))
        have room : EventHeader.size ≤ (b :: payload).length := by omega
        obtain ⟨fits, behind⟩ := length_of_announces announces plain room
        rw [EventHeader.size] at inside
        omega
  · cases same

/-- What lies deeper is shorter by so much for each level. -/
theorem length_of_reaches {n : Nat} :
    ∀ {bs bs' : Bytes}, AllStored bs → Reaches n bs bs' → bs'.length + 28 * n ≤ bs.length := by
  induction n with
  | zero =>
      intro bs bs' _ reaches
      cases reaches
      exact Nat.le_refl _
  | succ n ih =>
      intro bs bs' stored reaches
      cases reaches with
      | within asks reaches =>
          obtain ⟨-, shorter⟩ := length_of_asks stored asks
          have deeper := ih (stored.within asks) reaches
          omega

/-! ## Levels to follow -/

theorem decodeAt_eq_iterate (depth : Nat) :
    decodeAt depth = decodeWith^[depth] (throw .nestedTooDeep) := by
  induction depth with
  | zero => rfl
  | succ depth ih => rw [Function.iterate_succ_apply', ← ih, decodeAt]

theorem decodeEmbedded_eq_decodeAt : decodeEmbedded = decodeAt (2 ^ nestingBits - 1) := by
  have tower : decodeEmbedded = decodeAt ((2 ^ nestingBits - 1) * 1) := decodeTower_eq fun _ => rfl
  rwa [Nat.mul_one] at tower

/-- There are more levels to follow than a payload may have bytes. -/
theorem maxPayload_lt_levels : maxPayload.toNat < 2 ^ nestingBits - 1 := by
  have more : 2 ^ 32 ≤ 2 ^ nestingBits := Nat.pow_le_pow_right (by decide) (by decide)
  have most : maxPayload.toNat < 2 ^ 31 := by decide
  omega

/-- As many levels as the body leaves room for are enough, whatever would be behind them, and they
decode the body as the levels of the bodies in it are decoded. -/
theorem iterate_eq_decode {n : Nat} :
    ∀ {bs : Bytes}, bs.length < n → AllStored bs →
      decodeWith decode bs = decode bs ∧
        ∀ (bottom : Decode Transaction) (depth : Nat), bs.length / 28 + 1 ≤ depth →
          decodeWith^[depth] bottom bs = decode bs := by
  induction n with
  | zero => intro bs short; omega
  | succ n ih =>
      intro bs short stored
      -- the levels below are as many as any body may need, so that one more makes no difference
      have unfolds : decodeWith decode bs = decode bs := by
        have same : decodeWith decodeEmbedded bs = decodeWith decode bs := by
          refine decodeWith_congr fun bs' asks => ?_
          obtain ⟨fits, shorter⟩ := length_of_asks stored asks
          have many := maxPayload_lt_levels
          rw [decodeEmbedded_eq_decodeAt, decodeAt_eq_iterate]
          exact (ih (by omega) (stored.within asks)).2 _ _ (by omega)
        exact same.symm
      refine ⟨unfolds, fun bottom depth enough => ?_⟩
      obtain ⟨depth, rfl⟩ : ∃ d, depth = d + 1 := ⟨depth - 1, by omega⟩
      rw [Function.iterate_succ_apply', ← unfolds]
      refine decodeWith_congr fun bs' asks => ?_
      obtain ⟨-, shorter⟩ := length_of_asks stored asks
      exact (ih (by omega) (stored.within asks)).2 bottom depth (by omega)

end Transaction

/-- **Stored payloads end by themselves.**  Where every payload on the way is stored or empty, each
body is at least 28 bytes shorter than the one that it is decoded in, so that there are at most as
many levels as 28 goes into the length of the body, and one.  The body is decoded as it says, by
decoding those in it; and so it is by that many levels, or more, whatever would be behind them. -/
theorem Transaction.levels_of_stored {bs : Bytes} (stored : AllStored bs) :
    (∀ n bs' bs'', Reaches n bs bs' → Asks bs' bs'' → bs''.length + 28 ≤ bs'.length) ∧
      (∀ n bs', Reaches n bs bs' → n + 1 ≤ bs.length / 28 + 1) ∧
      decodeWith decode bs = decode bs ∧
      ∀ (bottom : Decode Transaction) (depth : Nat), bs.length / 28 + 1 ≤ depth →
        decodeWith^[depth] bottom bs = decode bs := by
  obtain ⟨unfolds, enough⟩ := iterate_eq_decode (Nat.lt_succ_self bs.length) stored
  refine ⟨?_, ?_, unfolds, enough⟩
  · intro n bs' bs'' reaches asks
    exact (length_of_asks (stored.of_reaches reaches) asks).2
  · intro n bs' reaches
    have deep := length_of_reaches stored reaches
    omega

/-! ## Transactions in each other -/

namespace Transaction

/-- A body that stores one event, which is a transaction. -/
structure Stores (bs raw : Bytes) : Prop where
  announces : ∃ header, header.compression = .stored ∧ Announces bs header raw
  there : EventHeader.size ≤ raw.length
  single : declaredLength raw = raw.length
  typed : (EventHeader.ofBytes raw).type = .transactionPayload

variable {bs bs' raw : Bytes}

theorem Announces.unique {header header' : PayloadHeader} {payload payload' : Bytes}
    (announces : Announces bs header payload) (announces' : Announces bs header' payload') :
    header = header' ∧ payload = payload' := by
  obtain ⟨mid, rest, reads, taken⟩ := announces
  obtain ⟨mid', rest', reads', taken'⟩ := announces'
  cases reads.symm.trans reads'
  cases taken.symm.trans taken'
  exact ⟨rfl, rfl⟩

/-- The body of the event is all that is decoded. -/
theorem Stores.asks_iff (stores : Stores bs raw) :
    Asks bs bs' ↔ bs' = raw.drop EventHeader.size := by
  obtain ⟨⟨header, plain, announces⟩, there, single, typed⟩ := stores
  have some : raw ≠ [] := by
    rintro rfl
    exact absurd there (by decide)
  have opens : EmbeddedEvents.new header.compression raw = .ok (.ofSource (.ofBytes raw)) :=
    plain ▸ EmbeddedEvents.new_eq some rfl
  have delivers := Source.delivers_ofBytes raw
  constructor
  · rintro ⟨header', payload, index, s, announces', opens', asks⟩
    obtain ⟨rfl, rfl⟩ := announces.unique announces'
    cases opens.symm.trans opens'
    exact EventStream.eq_of_asks delivers single asks
  · rintro rfl
    obtain ⟨source, event, -⟩ := Source.cut_of_whole delivers there
      (Options.size_le_leastLength {}) (single ▸ there) (Nat.le_of_eq single)
    rw [single, List.take_length] at event
    exact ⟨header, raw, 0, _, announces, opens, .here event typed nofun⟩

theorem Stores.allStored (stores : Stores bs raw) (inside : AllStored (raw.drop EventHeader.size)) :
    AllStored bs := by
  refine .intro ?_ fun bs' asks => stores.asks_iff.1 asks ▸ inside
  intro header payload announces
  obtain ⟨header', plain, announces'⟩ := stores.announces
  obtain ⟨rfl, -⟩ := announces.unique announces'
  exact .inl plain

theorem allStored_nil : AllStored [] := by
  have nothing {header : PayloadHeader} {payload : Bytes}
      (announces : Announces [] header payload) : payload = [] := by
    obtain ⟨mid, rest, reads, taken⟩ := announces
    cases reads
    cases taken
    rfl
  refine .intro (fun header payload announces => .inr (nothing announces)) ?_
  rintro bs' ⟨header, payload, index, s, announces, opens, -⟩
  obtain rfl := nothing announces
  obtain ⟨source, -, same⟩ := exists_of_bind_eq_ok opens
  cases same

end Transaction

namespace Example

/-- An empty transaction, as an event. -/
def emptyTransaction : Bytes := [0, 0, 0, 0, 40, 1, 0, 0, 0, 19, 0, 0, 0, 0, 0, 0, 0, 0, 0]

/-- The body of a transaction that stores it. -/
def storing : Bytes := [1, 1, 19, 2, 3, 0xfc, 255, 0, 0] ++ emptyTransaction

/-- That transaction, as an event. -/
def storingTransaction : Bytes :=
  [0, 0, 0, 0, 40, 1, 0, 0, 0, 47, 0, 0, 0, 0, 0, 0, 0, 0, 0] ++ storing

/-- The body of a transaction that stores it in turn. -/
def storingTwice : Bytes := [1, 1, 47, 2, 3, 0xfc, 255, 0, 0] ++ storingTransaction

theorem storing_stores : Transaction.Stores storing emptyTransaction :=
  ⟨⟨{ payloadSize := 19, compressionType := 255, uncompressedSize := 19 }, rfl, _, _, rfl, rfl⟩,
    by decide, rfl, rfl⟩

theorem storingTwice_stores : Transaction.Stores storingTwice storingTransaction :=
  ⟨⟨{ payloadSize := 47, compressionType := 255, uncompressedSize := 47 }, rfl, _, _, rfl, rfl⟩,
    by decide, rfl, rfl⟩

end Example

/-- The three levels that there may be. -/
theorem levels_of_storingTwice :
    Transaction.AllStored Example.storingTwice ∧ Example.storingTwice.length / 28 + 1 = 3 ∧
      Transaction.Reaches 2 Example.storingTwice [] ∧
      Transaction.decodeWith^[3] (throw .nestedTooDeep) Example.storingTwice =
        Transaction.decode Example.storingTwice := by
  have stored : Transaction.AllStored Example.storingTwice :=
    Example.storingTwice_stores.allStored
      (Example.storing_stores.allStored Transaction.allStored_nil)
  obtain ⟨-, -, -, enough⟩ := Transaction.levels_of_stored stored
  refine ⟨stored, rfl, ?_, enough _ 3 (by decide)⟩
  exact .within (Example.storingTwice_stores.asks_iff.2 rfl)
    (.within (Example.storing_stores.asks_iff.2 rfl) .here)

end BinaryLog
