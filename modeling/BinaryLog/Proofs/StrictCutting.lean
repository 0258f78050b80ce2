/-
# BinaryLog.Proofs.StrictCutting -- events cut from a source, strictly

A header is read into a place of nineteen bytes, piece by piece, each into what is free behind those
before it (`gather`), and if the source ends there, what is handed on is the part of the place that
was filled.  No more comes than is free, so that the place is never overrun (`fill_eq`).  What is
wanted behind a header is the declared length without the header's; the length was compared with the
least one before (`cutBody_eq`).
-/
import BinaryLog.Proofs.Cutting
import BinaryLog.Proofs.StrictBodies

namespace BinaryLog.Strict

set_option autoImplicit false

open Wire

/-! ## Filling a place -/

/-- Fills a place of `size` bytes on from compressed data; `got` is in it, latest byte first, and
each read is into what is free. -/
def decompress (size : Nat) : Nat → Bytes → Zstd.Decoder → Option (Except String Bytes × Rest)
  | 0, got, d => some (.ok got.reverse, .compressed d)
  | fuel + 1, got, d =>
    if got.length < size then do
      match d.read (← sub? size got.length) with
      | .error fault => return (.error fault.message, .failing fault.message)
      | .ok (piece, d) =>
        if piece.length = 0 then return (.ok got.reverse, .compressed d)
        else
          let _ ← add? got.length piece.length
          decompress size fuel (piece.reverseAux got) d
    else some (.ok got.reverse, .compressed d)

def fillRest (size : Nat) (got : Bytes) : Rest → Option (Except String Bytes × Rest)
  | .compressed d => decompress size (size - got.length) got d
  | rest => some (rest.take .exact (size - got.length) got)

def gather (rest : Rest) (raised : Option String) (size : Nat) (got : Bytes) :
    List Reply → Option (Except String Bytes × Source)
  | [] => do
    match ← fillRest size got rest with
    | (.error text, rest) => return (.error text, { replies := [], rest, raised := some text })
    | (.ok got, rest) => return (.ok got, { replies := [], rest, raised })
  | r :: replies =>
    if got.length < size then do
      let free ← sub? size got.length
      match r with
      | .interrupted => gather rest raised size got replies
      | .fault text => return (.error text, { replies, rest, raised := some text })
      | .bytes first more =>
        let front := (first :: more).take free
        let _ ← add? got.length front.length
        let got := front.reverseAux got
        match (first :: more).drop free with
        | [] => gather rest raised size got replies
        | first :: more =>
          return (.ok got.reverse, { replies := .bytes first more :: replies, rest, raised })
    else some (.ok got.reverse, { replies := r :: replies, rest, raised })

def fill (n : Nat) (s : Source) : Option (Except String Bytes × Source) :=
  gather s.rest s.raised n [] s.replies

theorem length_reverseAux (piece got : Bytes) :
    (piece.reverseAux got).length = got.length + piece.length := by
  rw [List.reverseAux_eq, List.length_append, List.length_reverse, Nat.add_comm]

theorem decompress_eq {size : Nat} (small : size < 2 ^ 63) {fuel : Nat} :
    ∀ {got : Bytes} {d : Zstd.Decoder}, got.length ≤ size →
      decompress size fuel got d =
        some (Rest.decompress fuel .exact (size - got.length) got d) := by
  induction fuel with
  | zero => intro got d _; rfl
  | succ fuel ih =>
      intro got d inside
      unfold decompress Rest.decompress
      by_cases full : got.length < size
      · have wants : ¬ size - got.length = 0 := by omega
        rw [if_pos full, if_neg wants, sub?_of_le inside]
        simp only [Option.bind_eq_bind, Option.bind_some, Intake.ask]
        cases reads : d.read (size - got.length) with
        | error fault => rfl
        | ok reply =>
            obtain ⟨piece, d'⟩ := reply
            have fits := Zstd.Decoder.length_of_read reads
            by_cases empty : piece.length = 0
            · simp only [empty, if_true]
              rfl
            · have length := length_reverseAux piece got
              simp only [if_neg empty]
              rw [add?_of_lt (by omega), Nat.sub_sub, ← length]
              exact ih (by omega)
      · have wants : size - got.length = 0 := by omega
        rw [if_neg full, if_pos wants]

theorem fillRest_eq {size : Nat} (small : size < 2 ^ 63) {got : Bytes} (inside : got.length ≤ size)
    (rest : Rest) : fillRest size got rest = some (rest.take .exact (size - got.length) got) := by
  cases rest with
  | ended => rfl
  | failing text => rfl
  | compressed d => exact decompress_eq small inside

theorem gather_eq {rest : Rest} {raised : Option String} {size : Nat} (small : size < 2 ^ 63)
    {replies : List Reply} :
    ∀ {got : Bytes}, got.length ≤ size →
      gather rest raised size got replies =
        some (Source.gather rest raised .exact (size - got.length) got replies) := by
  induction replies with
  | nil =>
      intro got inside
      unfold gather Source.gather
      rw [fillRest_eq small inside]
      simp only [Option.bind_eq_bind, Option.bind_some]
      generalize rest.take .exact (size - got.length) got = taken
      obtain ⟨result, rest'⟩ := taken
      cases result <;> rfl
  | cons r replies ih =>
      intro got inside
      unfold gather Source.gather
      by_cases full : got.length < size
      · have wants : ¬ size - got.length = 0 := by omega
        rw [if_pos full, if_neg wants, sub?_of_le inside]
        simp only [Option.bind_eq_bind, Option.bind_some]
        cases r with
        | interrupted => exact ih inside
        | fault text => rfl
        | bytes first more =>
            have fits : ((first :: more).take (size - got.length)).length ≤ size - got.length :=
              List.length_take_le _ _
            have length := length_reverseAux ((first :: more).take (size - got.length)) got
            dsimp only
            rw [add?_of_lt (by omega)]
            simp only [Option.bind_some]
            cases (first :: more).drop (size - got.length) with
            | nil =>
                simp only [Intake.took, Nat.sub_sub, ← length]
                exact ih (by omega)
            | cons b left => rfl
      · have wants : size - got.length = 0 := by omega
        rw [if_neg full, if_pos wants]

theorem fill_eq {n : Nat} (small : n < 2 ^ 63) (s : Source) : fill n s = some (s.fill n) :=
  gather_eq small (Nat.zero_le n)

/-! ## Cutting -/

def cutBody (least : Nat) (head : Bytes) (s : Source) : Option (Cut × Source) := do
  match ← header.run head with
  | .error e _ => return (.refused (.parse e), s)
  | .ok h _ =>
    match h.checkLength least with
    | .error e => return (.refused e, s)
    | .ok () =>
      let want ← sub? h.eventLength.toNat EventHeader.size
      match s.take (.growing h.buffer) want with
      | (.error text, s) => return (.fault text, s)
      | (.ok body, s) =>
        let raw := head ++ body
        if body.length < want then
          let needed ← sub? want body.length
          return (.refused (.parse (.incomplete raw (some needed))), s)
        else return (.event h raw, s)

/-- The place for a header holds zeros behind what was read. -/
def cut (least : Nat) (s : Source) : Option (Cut × Source) := do
  match ← fill EventHeader.size s with
  | (.error text, s) => return (.fault text, s)
  | (.ok head, s) =>
    let got := head.length
    if got = 0 then return (.finished, s)
    else if got < EventHeader.size then
      let place := head ++ List.replicate (EventHeader.size - got) 0
      let there ← place.slice? 0 got
      let needed ← sub? EventHeader.size got
      return (.refused (.parse (.incomplete there (some needed))), s)
    else cutBody least head s

/-- A length that is not refused is not below that of a header. -/
theorem cutBody_eq {least : Nat} (large : EventHeader.size ≤ least) {head : Bytes}
    (there : head.length = EventHeader.size) (s : Source) :
    cutBody least head s = some (BinaryLog.cutBody least head s) := by
  have short : head.length < 2 ^ 63 := by
    rw [there]
    decide
  unfold cutBody BinaryLog.cutBody
  rw [follows_header.run_eq short, EventHeader.read_eq (Nat.le_of_eq there.symm)]
  simp only [Option.bind_eq_bind, Option.bind_some]
  rcases Nat.lt_or_ge (EventHeader.ofBytes head).eventLength.toNat least with low | long
  · rw [EventHeader.checkLength_of_lt low]
    rfl
  · rw [EventHeader.checkLength_of_le long]
    have want : sub? (EventHeader.ofBytes head).eventLength.toNat EventHeader.size =
        some (EventHeader.ofBytes head).dataLength := sub?_of_le (Nat.le_trans large long)
    simp only [want, Option.bind_some]
    generalize s.take _ (EventHeader.ofBytes head).dataLength = taken
    obtain ⟨result, s'⟩ := taken
    cases result with
    | error text => rfl
    | ok body =>
        by_cases fewer : body.length < (EventHeader.ofBytes head).dataLength
        · simp only [if_pos fewer, sub?_of_le (Nat.le_of_lt fewer)]
          rfl
        · simp only [if_neg fewer]
          rfl

theorem cut_eq {least : Nat} (large : EventHeader.size ≤ least) (s : Source) :
    cut least s = some (BinaryLog.cut least s) := by
  unfold cut BinaryLog.cut
  rw [fill_eq (by decide) s]
  simp only [Option.bind_eq_bind, Option.bind_some]
  cases reads : s.fill EventHeader.size with
  | mk result s' =>
      cases result with
      | error text => rfl
      | ok head =>
          dsimp only
          have most : head.length ≤ EventHeader.size := Source.length_of_take reads
          by_cases none : head.length = 0
          · simp only [if_pos none]
            rfl
          by_cases part : head.length < EventHeader.size
          · have inside : head.length ≤
                (head ++ List.replicate (EventHeader.size - head.length) (0 : UInt8)).length := by
              rw [List.length_append]
              exact Nat.le_add_right _ _
            simp only [if_neg none, if_pos part]
            rw [Bytes.slice?_of_le (Nat.zero_le _) inside, List.take_left, List.drop_zero,
              sub?_of_le most]
            rfl
          · simp only [if_neg none, if_neg part]
            exact cutBody_eq large (Nat.le_antisymm most (Nat.not_lt.1 part)) s'

end BinaryLog.Strict
