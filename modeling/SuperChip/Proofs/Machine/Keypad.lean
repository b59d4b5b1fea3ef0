import Mathlib.Data.Int.Bitwise
import SuperChip.Machine.Keypad

/-!
# Keys as bits

The lowest set bit of a number is the only one that the number has in common with its negative
(`lowestSetBit_eq`). The keypad holds sixteen keys as the bits of a 16-bit number. Pressing,
releasing and taking a key keep it one, and the key that is taken is one of the sixteen.
-/

set_option autoImplicit false

namespace SuperChip

/-- The bit behind the trailing zeros is set. -/
theorem testBit_trailingZeros {n : Nat} (h : n ≠ 0) : n.testBit (trailingZeros n) = true := by
  fun_induction trailingZeros n with
  | case1 n hn =>
    rw [Nat.testBit_zero]
    simpa [h] using hn
  | case2 n hn ih =>
    have hhalf : n / 2 ≠ 0 := by omega
    rw [Nat.testBit_succ]
    exact ih hhalf

/-- A bit that is set lies behind the trailing zeros. -/
theorem trailingZeros_le_of_testBit {n i : Nat} (h : n.testBit i = true) : trailingZeros n ≤ i := by
  fun_induction trailingZeros n generalizing i with
  | case1 n hn => exact Nat.zero_le i
  | case2 n hn ih =>
    cases i with
    | zero =>
      rw [Nat.testBit_zero, decide_eq_true_iff] at h
      exact absurd (.inr h) hn
    | succ i =>
      rw [Nat.testBit_succ] at h
      exact Nat.succ_le_succ (ih h)

/-- The bits of a number that the one before it lacks are the lowest one. -/
theorem ldiff_pred {n : Nat} (h : n ≠ 0) : n.ldiff (n - 1) = 2 ^ trailingZeros n := by
  fun_induction trailingZeros n with
  | case1 n hn =>
    have hodd : n % 2 = 1 := hn.resolve_left h
    refine Nat.eq_of_testBit_eq fun i => ?_
    rw [Nat.testBit_ldiff, Nat.pow_zero]
    cases i with
    | zero => simp [hodd, show (n - 1) % 2 = 0 by omega]
    | succ i => simp [Nat.testBit_succ, show (n - 1) / 2 = n / 2 by omega]
  | case2 n hn ih =>
    have hhalf : n / 2 ≠ 0 := by omega
    have heven : n % 2 = 0 := by omega
    refine Nat.eq_of_testBit_eq fun i => ?_
    rw [Nat.testBit_ldiff, Nat.pow_succ, Nat.mul_comm]
    cases i with
    | zero => simp [heven]
    | succ i =>
      rw [Nat.testBit_succ, Nat.testBit_succ, show (n - 1) / 2 = n / 2 - 1 by omega,
        ← Nat.testBit_ldiff, ih hhalf, Nat.testBit_succ, Nat.mul_div_cancel_left _ (by decide)]

/-- A number and its negative have the lowest set bit in common. -/
theorem land_neg {n : Int} (h : n ≠ 0) : n.land (-n) = (2 ^ trailingZeros n.natAbs : Nat) := by
  cases n with
  | ofNat n =>
    cases n with
    | zero => exact absurd rfl h
    | succ n => exact congrArg Int.ofNat (ldiff_pred (Nat.succ_ne_zero n))
  | negSucc n => exact congrArg Int.ofNat (ldiff_pred (Nat.succ_ne_zero n))

/-- The place of the lowest set bit is the length of what a number has in common with its negative,
less one. -/
theorem lowestSetBit_eq (n : Int) : lowestSetBit n = ((n.land (-n)).natAbs.size : Int) - 1 := by
  unfold lowestSetBit
  by_cases h : n = 0
  · subst h
    rfl
  · rw [if_neg h, land_neg h, Int.natAbs_natCast, Nat.size_pow]
    simp

namespace Keypad

/-- A key is one of sixteen. -/
theorem key_lt (n : Int) : key n < 16 := by
  have := Int.emod_lt_of_pos n (show (0 : Int) < 16 by decide)
  unfold key
  omega

/-- A key that is pressed is down, and every other key is as it was. -/
theorem testBit_press (k : Keypad) (n : Int) (j : Nat) :
    (k.press n).bits.testBit j = (k.bits.testBit j || key n == j) := by
  simp only [press, Nat.one_shiftLeft, Nat.testBit_or, Nat.testBit_two_pow]
  rfl

/-- Pressing a key keeps the keypad's bits to sixteen. -/
theorem press_lt {k : Keypad} (h : k.bits < 0x10000) (n : Int) : (k.press n).bits < 0x10000 := by
  have hbit : 1 <<< key n < 2 ^ 16 := by
    rw [Nat.one_shiftLeft]
    exact Nat.pow_lt_pow_right (by decide) (key_lt n)
  exact Nat.or_lt_two_pow (n := 16) h hbit

/-- Clearing a bit makes the keypad's bits no larger. -/
theorem clearBit_le (k : Keypad) (i : Nat) : (k.clearBit i).bits ≤ k.bits := by
  apply Nat.le_of_testBit
  intro j hj
  rw [testBit_clearBit] at hj
  exact (Bool.and_eq_true_iff.mp hj).1

/-- No key is taken just when none is down. -/
theorem takeLowest?_eq_none_iff {k : Keypad} : k.takeLowest? = none ↔ k.bits = 0 := by
  unfold takeLowest?
  split
  · next h => simp [h]
  · next h => simp [h]

/-- The key that is taken is the lowest one down. -/
theorem takeLowest?_eq_some {k next : Keypad} {i : Nat} (h : k.takeLowest? = some (i, next)) :
    k.bits.testBit i = true ∧ (∀ j, k.bits.testBit j = true → i ≤ j) ∧ next = k.clearBit i := by
  unfold takeLowest? at h
  split at h
  · cases h
  · next hne =>
    cases h
    exact ⟨testBit_trailingZeros hne, fun _ => trailingZeros_le_of_testBit, rfl⟩

/-- The key that is taken is one of sixteen, and the keypad's bits stay so. -/
theorem takeLowest?_lt {k next : Keypad} {i : Nat} (h : k.bits < 0x10000)
    (ht : k.takeLowest? = some (i, next)) : i < 16 ∧ next.bits < 0x10000 := by
  obtain ⟨hbit, -, rfl⟩ := takeLowest?_eq_some ht
  constructor
  · apply Nat.lt_of_not_le
    intro hge
    have hle : 2 ^ 16 ≤ 2 ^ i := Nat.pow_le_pow_right (by decide) hge
    rw [Nat.testBit_lt_two_pow (Nat.lt_of_lt_of_le h hle)] at hbit
    cases hbit
  · exact Nat.lt_of_le_of_lt (clearBit_le k _) h

end Keypad

end SuperChip
