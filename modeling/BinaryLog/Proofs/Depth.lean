/-
# BinaryLog.Proofs.Depth -- no tree is too deep to be decoded

`Transaction.decode` follows `2 ^ nestingBits` levels (`Transaction.decode_eq_decodeAt`).  Each
level of a tree has a payload of its own: a payload determines the tree that is decoded from it
(`TransactionPayload.height_determined`), so that none lies within itself.  As payloads have less
than `2 ^ 31` bytes there are fewer of them than levels to follow
(`TransactionPayload.height_le`), and every tree comes back, however deep it is
(`Transaction.decode_tree`).
-/
import BinaryLog.Proofs.Nesting
import BinaryLog.Proofs.StoredFrame
import Mathlib.Data.Fin.Pigeonhole

namespace BinaryLog

set_option autoImplicit false

/-! ## Levels -/

namespace Transaction

/-- A tower over `levels`, which follows `k` levels, follows all but `2 ^ bits` times as many. -/
theorem decodeTower_eq {bits : Nat} :
    ∀ {levels : Decode Transaction → Decode Transaction} {k : Nat},
      (∀ depth, levels (decodeAt depth) = decodeAt (depth + k)) →
      decodeTower bits levels = decodeAt ((2 ^ bits - 1) * k) := by
  induction bits with
  | zero =>
      intro levels k _
      rw [Nat.pow_zero, Nat.sub_self, Nat.zero_mul]
      rfl
  | succ bits ih =>
      intro levels k follows
      have twice : ∀ depth, (levels ∘ levels) (decodeAt depth) = decodeAt (depth + (k + k)) := by
        intro depth
        rw [Function.comp_apply, follows, follows, Nat.add_assoc]
      rw [decodeTower, ih twice, follows]
      congr 1
      have pos : 0 < 2 ^ bits := Nat.two_pow_pos bits
      rw [Nat.pow_succ, show 2 ^ bits * 2 - 1 = (2 ^ bits - 1) + (2 ^ bits - 1) + 1 by omega]
      simp only [Nat.mul_add, Nat.add_mul, Nat.one_mul]

theorem decodeWith_tower (bits : Nat) :
    decodeWith (decodeTower bits decodeWith) = decodeAt (2 ^ bits) := by
  have tower : decodeTower bits decodeWith = decodeAt ((2 ^ bits - 1) * 1) :=
    decodeTower_eq fun _ => rfl
  have pos : 0 < 2 ^ bits := Nat.two_pow_pos bits
  obtain ⟨levels, power⟩ := Nat.exists_eq_succ_of_ne_zero (Nat.ne_of_gt pos)
  rw [tower, power, Nat.mul_one]
  rfl

theorem decode_eq_decodeAt : decode = decodeAt (2 ^ nestingBits) := decodeWith_tower nestingBits

end Transaction

/-! ## Payloads by number -/

namespace Bytes

/-- A number for each byte string. -/
def number : Bytes → Nat
  | [] => 0
  | b :: bs => b.toNat + 256 * number bs + 1

theorem number_inj : ∀ {bs bs' : Bytes}, number bs = number bs' → bs = bs' := by
  intro bs
  induction bs with
  | nil =>
      intro bs' same
      cases bs' with
      | nil => rfl
      | cons b' bs' => simp [number] at same
  | cons b bs ih =>
      intro bs' same
      cases bs' with
      | nil => simp [number] at same
      | cons b' bs' =>
          simp only [number] at same
          have small := b.toNat_lt
          have small' := b'.toNat_lt
          have first : b = b' := UInt8.toNat_inj.1 (by omega)
          have rest : bs = bs' := ih (by omega)
          rw [first, rest]

theorem number_lt (bs : Bytes) : number bs + 2 ≤ 2 * 256 ^ bs.length := by
  induction bs with
  | nil => decide
  | cons b bs ih =>
      have small := b.toNat_lt
      rw [number, List.length_cons, Nat.pow_succ]
      omega

end Bytes

namespace Body

theorem heightAll_readBackAll {events : List Event}
    (same : ∀ e ∈ events, e.body.readBack.height = e.body.height) :
    heightAll (readBackAll events) = heightAll events := by
  induction events with
  | nil => rfl
  | cons first events ih =>
      have later := ih fun e member => same e (List.mem_cons_of_mem first member)
      rw [readBackAll_cons, heightAll_cons, heightAll_cons, same first List.mem_cons_self, later]

/-- A tree comes back as high as it was. -/
theorem height_readBack (b : Body) : b.readBack.height = b.height := by
  cases b with
  | transactionPayload p =>
      obtain ⟨header, payload, events⟩ := p
      have inside := heightAll_readBackAll fun e (member : e ∈ events) => height_readBack e.body
      rw [readBack, height, height, inside]
  | _ => rw [readBack]; intro _ _ _ eq; cases eq
termination_by sizeOf b
decreasing_by
  have smaller := List.sizeOf_lt_of_mem member
  obtain ⟨header', b', crc32⟩ := e
  simp only [Framed.mk.sizeOf_spec, transactionPayload.sizeOf_spec,
    TransactionPayload.mk.sizeOf_spec] at smaller ⊢
  omega

end Body

namespace TransactionPayload

/-- The payload and how it is compressed, as one number. -/
def key (p : Transaction) : Nat :=
  2 * Bytes.number p.payload + (if p.header.compression = .stored then 1 else 0)

variable {p q : Transaction}

theorem compression_cases (tree : WellNested p) :
    p.header.compression = .stored ∨ p.header.compression = .zstd := by
  cases tree with
  | intro _ _ _ yields =>
      cases compression : p.header.compression with
      | stored => exact .inl rfl
      | zstd => exact .inr rfl
      | unknown code =>
          rw [compression] at yields
          exact absurd yields id

theorem key_inj (tree : WellNested p) (tree' : WellNested q) (same : key p = key q) :
    p.header.compression = q.header.compression ∧ p.payload = q.payload := by
  simp only [key] at same
  rcases compression_cases tree with form | form <;>
    rcases compression_cases tree' with form' | form' <;>
    simp only [form, form', if_true, reduceCtorEq, if_false] at same ⊢
  · exact ⟨trivial, Bytes.number_inj (by omega)⟩
  · omega
  · omega
  · exact ⟨trivial, Bytes.number_inj (by omega)⟩

theorem key_lt (tree : WellNested p) : key p < 4 * 256 ^ Transaction.maxPayload.toNat := by
  cases tree with
  | intro sized _ _ _ =>
      have short : p.payload.length ≤ Transaction.maxPayload.toNat := sized.1 ▸ sized.2
      have number := Bytes.number_lt p.payload
      have power := Nat.pow_le_pow_right (show 0 < 256 by decide) short
      simp only [key]
      split <;> omega

theorem height_readBack (p : Transaction) : p.readBack.height = p.height := by
  have back := Body.height_readBack (.transactionPayload p)
  rwa [Body.readBack_transaction, Body.height_transaction, Body.height_transaction] at back

/-- How high a tree is can be told from its payload, out of which it comes back as high as it
was. -/
theorem height_determined (tree : WellNested p) (tree' : WellNested q) (same : key p = key q) :
    p.height = q.height := by
  obtain ⟨compression, payload⟩ := key_inj tree tree' same
  have held := Transaction.eventsWith_of_tree (p.height + q.height) tree (by omega)
  have held' := Transaction.eventsWith_of_tree (p.height + q.height) tree' (by omega)
  rw [compression, payload, held', Except.ok.injEq] at held
  calc p.height
    _ = p.readBack.height := (height_readBack p).symm
    _ = q.readBack.height := congrArg (Body.heightAll · + 1) held.symm
    _ = q.height := height_readBack q

/-- Every height up to that of a tree is that of a tree in it. -/
theorem exists_of_height_le {n : Nat} :
    ∀ {p : Transaction}, p.height ≤ n → WellNested p → ∀ k, k < p.height →
      ∃ q : Transaction, WellNested q ∧ q.height = k + 1 := by
  induction n with
  | zero => intro p high; exact absurd high (Nat.not_succ_le_zero _)
  | succ n ih =>
      intro p high tree k below
      by_cases top : k + 1 = p.height
      · exact ⟨p, tree, top.symm⟩
      · have inside : k < Body.heightAll p.events := by
          rw [height] at below top
          omega
        obtain ⟨e, member, deep⟩ := Body.exists_of_lt_heightAll inside
        cases tree with
        | intro _ members _ _ =>
            cases members e member with
            | leaf typed _ leaf =>
                rw [Body.height_of_leaf typed leaf] at deep
                exact absurd deep (Nat.not_lt_zero k)
            | @node header q crc32 _ tree =>
                have low := Body.height_le_heightAll member
                simp only [Body.height_transaction] at deep low
                rw [height] at high
                exact ih (by omega) tree k deep

/-- No tree is higher than there are payloads. -/
theorem height_le (tree : WellNested p) : p.height ≤ 4 * 256 ^ Transaction.maxPayload.toNat := by
  -- a tree for each height, and no two of them with the same payload
  have subtrees := exists_of_height_le (Nat.le_refl p.height) tree
  choose sub nested high using subtrees
  let number (k : Fin p.height) : Fin (4 * 256 ^ Transaction.maxPayload.toNat) :=
    ⟨key (sub k k.isLt), key_lt (nested k k.isLt)⟩
  have injective : Function.Injective number := by
    intro k k' same
    have heights := height_determined (nested k k.isLt) (nested k' k'.isLt)
      (congrArg Fin.val same)
    rw [high k k.isLt, high k' k'.isLt] at heights
    exact Fin.ext (Nat.succ_injective heights)
  exact Fin.le_of_injective number injective

end TransactionPayload

namespace Transaction

theorem payloads_le {size bits : Nat} (enough : 8 * size + 2 ≤ bits) :
    4 * 256 ^ size ≤ 2 ^ bits :=
  calc 4 * 256 ^ size = 2 ^ (8 * size + 2) := by
        rw [show 256 = 2 ^ 8 by rfl, ← Nat.pow_mul, Nat.pow_add, Nat.mul_comm]
    _ ≤ 2 ^ bits := Nat.pow_le_pow_right (by decide) enough

/-- **Every tree comes back**, whatever its depth: the same headers and payloads, and within them
the events that were written, with their lengths and without checksums; nothing is left unread. -/
theorem decode_tree {p : Transaction} (tree : p.WellNested) :
    decode p.encode = .ok p.readBack [] := by
  rw [decode_eq_decodeAt]
  refine decodeAt_encode tree (Nat.le_trans (TransactionPayload.height_le tree) ?_)
  exact payloads_le (by decide)

end Transaction

namespace Example

/-- A transaction that holds one commit in a compressed payload. -/
def packed : Event where
  header := .new .transactionPayload 0 1
  body := .transactionPayload
    { header := { payloadSize := 36, compressionType := 0, uncompressedSize := 27 }
      payload := Zstd.storedFrame (commit.header.encode ++ [7, 0, 0, 0, 0, 0, 0, 0])
      events := [commit] }
  crc32 := 0

/-- A commit and that transaction, within a payload that is stored as it is. -/
def tree : Transaction where
  header := { payloadSize := 92, compressionType := 255, uncompressedSize := 0 }
  payload := (Event.encodeAll [commit, packed]).toOption.getD []
  events := [commit, packed]

theorem commit_embeddable : commit.Embeddable := .leaf (by decide) (by decide) (by decide)

theorem packed_embeddable : packed.Embeddable := by
  refine .node (by decide) (.intro ⟨by decide, by decide⟩ ?_ (by rfl) ?_)
  · intro e member
    obtain rfl := List.mem_singleton.1 member
    exact commit_embeddable
  · exact Zstd.StoredFrame.delivers (by decide) (by decide)

theorem tree_wellNested : TransactionPayload.WellNested tree := by
  refine .intro ⟨by decide, by decide⟩ ?_ (by rfl) ⟨rfl, rfl⟩
  simp only [tree, List.mem_cons, List.not_mem_nil, or_false]
  rintro e (rfl | rfl)
  · exact commit_embeddable
  · exact packed_embeddable

end Example

theorem decode_compressed_tree :
    TransactionPayload.WellNested Example.tree ∧ TransactionPayload.height Example.tree = 2 ∧
      Transaction.decode Example.tree.encode = .ok (TransactionPayload.readBack Example.tree) [] :=
  ⟨Example.tree_wellNested, by decide, Transaction.decode_tree Example.tree_wellNested⟩

end BinaryLog
