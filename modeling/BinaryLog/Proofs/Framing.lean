/-
# BinaryLog.Proofs.Framing -- which bytes are the next event

What comes next from a source depends on the bytes that it delivers and on how it ends, not on how
it is read.  The bytes decide it (`Decided`) if they hold

* a whole event, as many bytes as its header declares (`Source.cut_of_whole`), or
* a header with too small a length, which is refused (`Source.cut_of_short_length`).

Else the ending does (`Source.cut_of_undecided`), and only a fault leaves something with the source
that was not there before (`Source.cut_raised`).  A header looks at nineteen bytes and at nothing
behind them (`EventHeader.read_eq`).
-/
import BinaryLog.Stream
import BinaryLog.Proofs.Delivery

namespace BinaryLog

set_option autoImplicit false

open Wire

/-! ## Headers -/

theorem Bytes.slice_append {head : Bytes} {i n : Nat} (there : i + n ≤ head.length) (bs : Bytes) :
    ((head ++ bs).drop i).take n = (head.drop i).take n := by
  rw [List.drop_append_of_le_length (by omega),
    List.take_append_of_le_length (by rw [List.length_drop]; omega)]

theorem Wire.Read.word_of_le {α : Type} [Word α] {bs : Bytes} (there : Word.width α ≤ bs.length) :
    Read.word α bs =
      .ok (Word.ofBytes (bs.take (Word.width α))) (bs.drop (Word.width α)) := by
  have read := word_append (Word.ofBytes (bs.take (Word.width α)) : α) (bs.drop (Word.width α))
  rwa [Word.bytes_ofBytes (List.length_take_of_le there), List.take_append_drop] at read

namespace EventHeader

/-- The header in the first nineteen bytes. -/
def ofBytes (bs : Bytes) : EventHeader where
  timestamp := Word.ofBytes (bs.take 4)
  typeCode := Word.ofBytes ((bs.drop 4).take 1)
  serverId := Word.ofBytes ((bs.drop 5).take 4)
  eventLength := Word.ofBytes ((bs.drop 9).take 4)
  nextPosition := Word.ofBytes ((bs.drop 13).take 4)
  flags := .truncate (Word.ofBytes ((bs.drop 17).take 2))

theorem read_eq {bs : Bytes} (there : size ≤ bs.length) :
    read bs = .ok (ofBytes bs) (bs.drop size) := by
  simp only [size] at there
  simp (disch := simp [Word.width]; omega) only [read, bind, EStateM.bind, pure, EStateM.pure,
    Read.word_of_le]
  simp [ofBytes, size, Word.width]

theorem ofBytes_append {head : Bytes} (there : size ≤ head.length) (bs : Bytes) :
    ofBytes (head ++ bs) = ofBytes head := by
  simp only [size] at there
  simp (disch := omega) only [ofBytes, Bytes.slice_append, List.take_append_of_le_length]

theorem ofBytes_take {n : Nat} {bs : Bytes} (enough : size ≤ n) (there : size ≤ bs.length) :
    ofBytes (bs.take n) = ofBytes bs := by
  have len : size ≤ (bs.take n).length := by
    rw [List.length_take]
    omega
  rw [← ofBytes_append len (bs.drop n), List.take_append_drop]

theorem ofBytes_encode (h : EventHeader) (bs : Bytes) : ofBytes (h.encode ++ bs) = h := by
  have there : size ≤ (h.encode ++ bs).length := by simp [length_encode]
  have read := read_encode h bs
  rw [read_eq there, EStateM.Result.ok.injEq] at read
  exact read.1

theorem checkLength_of_le {h : EventHeader} {least : Nat} (long : least ≤ h.eventLength.toNat) :
    h.checkLength least = .ok () :=
  if_neg (Nat.not_lt_of_le long)

theorem checkLength_of_lt {h : EventHeader} {least : Nat} (short : h.eventLength.toNat < least) :
    h.checkLength least = .error (.invalidFormat (.eventTooShort h.eventLength least)) :=
  if_pos short

end EventHeader

theorem Options.size_le_leastLength (o : Options) : EventHeader.size ≤ o.leastLength := by
  simp only [leastLength]
  split <;> omega

/-! ## What the next bytes decide -/

/-- The length that the header at the head of `bs` declares. -/
def declaredLength (bs : Bytes) : Nat := (EventHeader.ofBytes bs).eventLength.toNat

/-- The next event is decided by bytes that are there: all of it, or a header that is refused. -/
def Decided (least : Nat) (bs : Bytes) : Prop :=
  EventHeader.size ≤ bs.length ∧ (declaredLength bs < least ∨ declaredLength bs ≤ bs.length)

theorem declaredLength_append {raw : Bytes} (there : EventHeader.size ≤ raw.length) (bs : Bytes) :
    declaredLength (raw ++ bs) = declaredLength raw := by
  rw [declaredLength, declaredLength, EventHeader.ofBytes_append there]

instance (least : Nat) (bs : Bytes) : Decidable (Decided least bs) :=
  inferInstanceAs (Decidable (_ ∧ _))

theorem Decided.cases {least : Nat} {bs : Bytes} (decided : Decided least bs) :
    EventHeader.size ≤ bs.length ∧
      (declaredLength bs < least ∨
        least ≤ declaredLength bs ∧ declaredLength bs ≤ bs.length) := by
  obtain ⟨there, decides⟩ := decided
  exact ⟨there, by omega⟩

/-- How many bytes an event that is not decided lacks: of its header, or else of its body. -/
def missing (bs : Bytes) : Nat :=
  if bs.length < EventHeader.size then EventHeader.size - bs.length
  else declaredLength bs - bs.length

/-- What comes next when the source ends in front of or within an event of which `bs` is there. -/
def Ending.cutShort (bs : Bytes) : Ending → Cut
  | clean => if bs = [] then .finished else .refused (.parse (.incomplete bs (some (missing bs))))
  | fault text => .fault text

/-- The text that a source keeps behind reads of which this was cut. -/
def Cut.keptOf (raised : Option String) : Cut → Option String
  | fault text => some text
  | _ => raised

/-! ## What is cut from a source -/

namespace Source

variable {ending : Ending} {s : Source} {bs : Bytes} {least : Nat}

theorem cut_of_part_of_header (delivers : s.Delivers ending bs)
    (short : bs.length < EventHeader.size) : (cut least s).1 = ending.cutShort bs := by
  have taken := take_past_end delivers short .exact
  generalize hr : s.take .exact EventHeader.size = reply at taken
  obtain ⟨result, s'⟩ := reply
  obtain rfl : result = ending.met bs := taken
  cases ending with
  | fault text => simp only [cut, fill, hr, Ending.met, Ending.cutShort]
  | clean =>
      cases bs with
      | nil => simp [cut, fill, hr, Ending.met, Ending.cutShort]
      | cons b bs =>
          have some : (b :: bs).length ≠ 0 := Nat.succ_ne_zero bs.length
          simp only [cut, fill, hr, Ending.met, if_pos short, if_neg some, Ending.cutShort,
            if_neg (List.cons_ne_nil b bs), missing]

/-- Behind the nineteen bytes of a header comes the rest of the event. -/
theorem cut_of_take {s' : Source} (least : Nat) (there : EventHeader.size ≤ bs.length)
    (head : s.take .exact EventHeader.size = (.ok (bs.take EventHeader.size), s')) :
    cut least s = cutBody least (bs.take EventHeader.size) s' := by
  have len : (bs.take EventHeader.size).length = EventHeader.size := List.length_take_of_le there
  simp only [cut, fill, head, len, if_neg (show ¬ EventHeader.size = 0 by decide),
    if_neg (Nat.lt_irrefl EventHeader.size)]

/-- The nineteen bytes of a header are read first. -/
theorem cut_of_header (least : Nat) (delivers : s.Delivers ending bs)
    (there : EventHeader.size ≤ bs.length) :
    ∃ s', s'.Delivers ending (bs.drop EventHeader.size) ∧
      cut least s = cutBody least (bs.take EventHeader.size) s' := by
  obtain ⟨s', taken, left⟩ := take_of_delivers delivers there .exact
  exact ⟨s', left, cut_of_take least there taken⟩

theorem read_header (there : EventHeader.size ≤ bs.length) :
    EventHeader.read (bs.take EventHeader.size) =
      .ok (EventHeader.ofBytes bs) ((bs.take EventHeader.size).drop EventHeader.size) := by
  have len : EventHeader.size ≤ (bs.take EventHeader.size).length :=
    Nat.le_of_eq (List.length_take_of_le there).symm
  rw [EventHeader.read_eq len, EventHeader.ofBytes_take (Nat.le_refl _) there]

/-- A header with too small a length is refused, and nothing behind it is touched. -/
theorem cut_of_short_length (delivers : s.Delivers ending bs)
    (there : EventHeader.size ≤ bs.length) (short : declaredLength bs < least) :
    ∃ s', cut least s = (.refused (.invalidFormat
        (.eventTooShort (EventHeader.ofBytes bs).eventLength least)), s') ∧
      s'.Delivers ending (bs.drop EventHeader.size) := by
  obtain ⟨s', left, body⟩ := cut_of_header least delivers there
  refine ⟨s', ?_, left⟩
  simp only [body, cutBody, read_header there, EventHeader.checkLength_of_lt short]

/-- A whole event is cut off, and nothing behind it is touched. -/
theorem cut_of_whole (delivers : s.Delivers ending bs) (there : EventHeader.size ≤ bs.length)
    (large : EventHeader.size ≤ least) (long : least ≤ declaredLength bs)
    (whole : declaredLength bs ≤ bs.length) :
    ∃ s', cut least s =
        (.event (EventHeader.ofBytes bs) (bs.take (declaredLength bs)), s') ∧
      s'.Delivers ending (bs.drop (declaredLength bs)) := by
  obtain ⟨s', left, body⟩ := cut_of_header least delivers there
  have data : (EventHeader.ofBytes bs).dataLength = declaredLength bs - EventHeader.size := rfl
  have enough : declaredLength bs - EventHeader.size ≤ (bs.drop EventHeader.size).length := by
    rw [List.length_drop]
    omega
  have sum : EventHeader.size + (declaredLength bs - EventHeader.size) = declaredLength bs := by
    omega
  obtain ⟨s'', taken, left⟩ :=
    take_of_delivers left enough (.growing (EventHeader.ofBytes bs).buffer)
  rw [List.drop_drop, sum] at left
  refine ⟨s'', ?_, left⟩
  have len := List.length_take_of_le enough
  simp only [body, cutBody, read_header there, EventHeader.checkLength_of_le long, data, taken,
    len, if_neg (Nat.lt_irrefl _), ← List.take_add, sum]

/-- An event in front of any other bytes. -/
theorem cut_of_frame {raw : Bytes} (delivers : s.Delivers ending (raw ++ bs))
    (large : EventHeader.size ≤ least) (long : least ≤ raw.length)
    (exact : declaredLength raw = raw.length) :
    ∃ s', cut least s = (.event (EventHeader.ofBytes raw) raw, s') ∧ s'.Delivers ending bs := by
  have there : EventHeader.size ≤ raw.length := Nat.le_trans large long
  have declared : declaredLength (raw ++ bs) = raw.length := by
    rw [declaredLength_append there, exact]
  have fits : raw.length ≤ (raw ++ bs).length := by simp
  obtain ⟨s', event, left⟩ := cut_of_whole delivers (Nat.le_trans there fits) large
    (declared ▸ long) (declared ▸ fits)
  rw [declared, List.take_left, EventHeader.ofBytes_append there] at event
  rw [declared, List.drop_left] at left
  exact ⟨s', event, left⟩

theorem cut_of_part_of_body (delivers : s.Delivers ending bs)
    (there : EventHeader.size ≤ bs.length) (long : least ≤ declaredLength bs)
    (short : bs.length < declaredLength bs) : (cut least s).1 = ending.cutShort bs := by
  obtain ⟨s', left, body⟩ := cut_of_header least delivers there
  have data : (EventHeader.ofBytes bs).dataLength = declaredLength bs - EventHeader.size := rfl
  have few : (bs.drop EventHeader.size).length < declaredLength bs - EventHeader.size := by
    rw [List.length_drop]
    omega
  have taken := take_past_end left few (.growing (EventHeader.ofBytes bs).buffer)
  generalize hr : s'.take _ _ = reply at taken
  obtain ⟨result, s''⟩ := reply
  obtain rfl : result = ending.met (bs.drop EventHeader.size) := taken
  cases ending with
  | fault text =>
      simp only [body, cutBody, read_header there, EventHeader.checkLength_of_le long, data, hr,
        Ending.met, Ending.cutShort]
  | clean =>
      have some : bs ≠ [] := by
        rintro rfl
        exact absurd there (by decide)
      have lack : declaredLength bs - EventHeader.size - (bs.drop EventHeader.size).length =
          missing bs := by
        rw [List.length_drop, missing, if_neg (Nat.not_lt_of_le there)]
        omega
      simp only [body, cutBody, read_header there, EventHeader.checkLength_of_le long, data, hr,
        Ending.met, if_pos few, List.take_append_drop, lack, Ending.cutShort, if_neg some]

/-- Where the bytes do not decide the next event, the ending does. -/
theorem cut_of_undecided (delivers : s.Delivers ending bs) (undecided : ¬ Decided least bs) :
    (cut least s).1 = ending.cutShort bs := by
  rcases Nat.lt_or_ge bs.length EventHeader.size with short | there
  · exact cut_of_part_of_header delivers short
  · have part : ¬ (declaredLength bs < least ∨ declaredLength bs ≤ bs.length) :=
      fun decides => undecided ⟨there, decides⟩
    exact cut_of_part_of_body delivers there (by omega) (by omega)

/-! ## What a source keeps of a cut -/

theorem cutBody_raised (least : Nat) (head : Bytes) (s : Source) :
    (cutBody least head s).2.raised = (cutBody least head s).1.keptOf s.raised := by
  simp only [cutBody]
  split
  · rfl
  · rename_i header _ _
    split
    · rfl
    · have kept := s.take_raised (.growing header.buffer) header.dataLength
      split <;> rename_i taken <;> rw [taken] at kept
      · exact kept
      · split <;> exact kept

theorem cut_raised (least : Nat) (s : Source) :
    (cut least s).2.raised = (cut least s).1.keptOf s.raised := by
  have kept := s.take_raised .exact EventHeader.size
  simp only [cut, fill]
  split <;> rename_i taken <;> rw [taken] at kept
  · exact kept
  · split
    · exact kept
    · split
      · exact kept
      · rw [cutBody_raised]
        exact congrArg (Cut.keptOf · _) kept

/-- Nothing is kept of a cut that the bytes decide. -/
theorem cut_raised_of_decided (delivers : s.Delivers ending bs) (large : EventHeader.size ≤ least)
    (decided : Decided least bs) : (cut least s).2.raised = s.raised := by
  rw [cut_raised]
  obtain ⟨there, short | ⟨long, whole⟩⟩ := decided.cases
  · obtain ⟨s', refused, -⟩ := cut_of_short_length delivers there short
    rw [refused]
    rfl
  · obtain ⟨s', event, -⟩ := cut_of_whole delivers there large long whole
    rw [event]
    rfl

end Source

end BinaryLog
