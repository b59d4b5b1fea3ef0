import SuperChip.Proofs.Expr.Tree

/-!
# Sixteen-bit values as numbers

The evaluator works on numbers and cuts every result to its low sixteen bits. On numbers that are
values of bit vectors its operators are those of bit vectors.
-/

set_option autoImplicit false

namespace SuperChip

/-- A number cut to sixteen bits is the value of the bit vector with these bits. -/
theorem toWord_eq_toNat_ofInt (n : Int) : toWord n = (BitVec.ofInt 16 n).toNat := by
  rw [BitVec.toNat_ofInt]
  rfl

/-- The word of a natural number is its last sixteen bits. -/
theorem toWord_natCast (n : Nat) : toWord n = n % 2 ^ 16 := by
  rw [toWord_eq_toNat_ofInt, BitVec.ofInt_natCast, BitVec.toNat_ofNat]

/-- Sixteen bits are a word already. -/
theorem toWord_toNat (v : BitVec 16) : toWord v.toNat = v.toNat := by
  rw [toWord_natCast, Nat.mod_eq_of_lt v.isLt]

/-- A unary operator on numbers is the one on bit vectors. -/
theorem UnaryOp.apply_toNat (op : UnaryOp) (v : BitVec 16) :
    op.apply v.toNat = (op.onBits v).toNat := by
  have hlt := v.isLt
  cases op with
  | complement =>
    simp only [apply, onBits, toWord, wordSize, BitVec.toNat_not]
    omega
  | negate =>
    simp only [apply, onBits, toWord, wordSize, BitVec.toNat_neg]
    omega

/-- A binary operator on numbers is the one on bit vectors; only a quotient or remainder by zero is
refused. -/
theorem BinaryOp.apply_toNat (op : BinaryOp) (v w : BitVec 16) :
    op.apply v.toNat w.toNat =
      if op.divides ∧ w = 0 then .error .divisionByZero else .ok (op.onBits v w).toNat := by
  have hv := v.isLt
  have hw : w.toNat = 0 ↔ w = 0 := ⟨fun h => BitVec.eq_of_toNat_eq h, fun h => by rw [h]; rfl⟩
  cases op with
  | or =>
    simp only [apply, onBits, divides]
    rw [← BitVec.toNat_or, toWord_toNat]
    rfl
  | xor =>
    simp only [apply, onBits, divides]
    rw [← BitVec.toNat_xor, toWord_toNat]
    rfl
  | and =>
    simp only [apply, onBits, divides]
    rw [← BitVec.toNat_and, toWord_toNat]
    rfl
  | shiftRight =>
    simp only [apply, onBits, divides]
    rw [← BitVec.toNat_ushiftRight, ← BitVec.ushiftRight_eq', toWord_toNat]
    rfl
  | shiftLeft =>
    simp only [apply, onBits, divides, toWord_natCast]
    rw [← BitVec.toNat_shiftLeft, ← BitVec.shiftLeft_eq']
    by_cases hlt : w.toNat < 16
    · rw [if_pos hlt]
      rfl
    · rw [if_neg hlt, BitVec.shiftLeft_eq', BitVec.shiftLeft_eq_zero (Nat.le_of_not_lt hlt)]
      rfl
  | add =>
    simp only [apply, onBits, divides, BitVec.toNat_add]
    rw [← Int.natCast_add, toWord_natCast]
    rfl
  | sub =>
    have hsub : toWord (v.toNat - w.toNat) = (v - w).toNat := by
      have hlt := w.isLt
      simp only [toWord, wordSize, BitVec.toNat_sub]
      omega
    exact congrArg Except.ok hsub
  | mul =>
    simp only [apply, onBits, divides, BitVec.toNat_mul]
    rw [← Int.natCast_mul, toWord_natCast]
    rfl
  | div =>
    simp only [apply, onBits, divides, hw, true_and]
    rw [← BitVec.toNat_udiv, toWord_toNat]
  | mod =>
    simp only [apply, onBits, divides, hw, true_and]
    rw [← BitVec.toNat_umod, toWord_toNat]

end SuperChip
