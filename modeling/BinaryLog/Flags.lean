/-
# BinaryLog.Flags -- bit sets within a mask

Several fields of the format are sets of bits of which only some have a meaning.  A
`Flags mask` holds no bit outside its mask.  `truncate` drops the other bits, `ofBits?`
refuses a number that has any; on what is already within the mask both give it back
(`truncate_bits`, `ofBits?_bits`).
-/

namespace BinaryLog

set_option autoImplicit false

/-- A number with no bit outside `mask`. -/
structure Flags {α : Type} [AndOp α] (mask : α) where
  bits : α
  within : bits &&& mask = bits
deriving DecidableEq

namespace Flags

variable {α : Type} [AndOp α] {mask : α}

theorem ext {a b : Flags mask} (h : a.bits = b.bits) : a = b := by
  cases a; cases b; cases h; rfl

section Truncate

variable [@Std.Associative α (· &&& ·)] [@Std.IdempotentOp α (· &&& ·)]

/-- The bits of `x` that are within the mask. -/
def truncate (x : α) : Flags mask where
  bits := x &&& mask
  within := (@Std.Associative.assoc α (· &&& ·) _ x mask mask).trans
    (congrArg (x &&& ·) (@Std.IdempotentOp.idempotent α (· &&& ·) _ mask))

@[simp] theorem truncate_bits (f : Flags mask) : truncate f.bits = f :=
  ext f.within

end Truncate

/-- The set with these bits, if they are all within the mask. -/
def ofBits? [DecidableEq α] (x : α) : Option (Flags mask) :=
  if h : x &&& mask = x then some ⟨x, h⟩ else none

@[simp] theorem ofBits?_bits [DecidableEq α] (f : Flags mask) : ofBits? f.bits = some f := by
  simp [ofBits?, f.within]

end Flags

end BinaryLog
