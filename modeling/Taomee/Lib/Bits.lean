import Mathlib.Algebra.Group.Int.Defs
import Mathlib.Algebra.GroupWithZero.Nat

/-!
# Bits of machine words

Masks of consecutive bits, and words that agree in their low bits.
-/

namespace Taomee.Bits

variable {w : Nat} {x y mask : BitVec w} {n : Nat}

/-! ## Masks -/

/-- The mask of the `n` bits from bit `k` on. -/
theorem getLsbD_mask {k : Nat} (h : mask = BitVec.ofNat w (2 ^ n - 1) <<< k) (hw : k + n ≤ w) (i : Nat) :
    mask.getLsbD i = decide (k ≤ i ∧ i < k + n) := by
  rw [h, BitVec.getLsbD_shiftLeft, BitVec.getLsbD_ofNat, Nat.testBit_two_pow_sub_one]
  by_cases hk : k ≤ i
  · by_cases hn : i < k + n
    · have hlt : i < w ∧ i - k < w ∧ i - k < n := by omega
      simp [hk, hn, hlt]
    · have hge : ¬ i - k < n := by omega
      simp [hn, hge]
  · simp [hk, Nat.lt_of_not_le hk]

/-- The mask of the first `n` bits. -/
theorem getLsbD_lowMask (h : mask = BitVec.ofNat w (2 ^ n - 1)) (hw : n ≤ w) (i : Nat) :
    mask.getLsbD i = decide (i < n) := by
  have hmask := getLsbD_mask (h.trans (BitVec.shiftLeft_zero _).symm) (Nat.le_trans (Nat.le_of_eq (Nat.zero_add n)) hw) i
  rw [hmask]
  exact decide_eq_decide.mpr (by omega)

/-! ## Agreement in the low bits -/

/-- Words agree modulo 2^n when their first `n` bits do. -/
theorem mod_two_pow_eq_iff : x.toNat % 2 ^ n = y.toNat % 2 ^ n ↔ ∀ i < n, x.getLsbD i = y.getLsbD i := by
  constructor
  · intro h i hi
    have hbit := congrArg (fun m => m.testBit i) h
    simp only [Nat.testBit_mod_two_pow, hi, decide_true, Bool.true_and] at hbit
    exact hbit
  · intro h
    refine Nat.eq_of_testBit_eq fun i => ?_
    rw [Nat.testBit_mod_two_pow, Nat.testBit_mod_two_pow]
    by_cases hi : i < n
    · have hbit : x.toNat.testBit i = y.toNat.testBit i := h i hi
      rw [hbit]
    · simp [hi]

/-- A mask that lies in the first bits sees no difference between words that agree there. -/
theorem and_eq_of_mod_eq (h : x.toNat % 2 ^ n = y.toNat % 2 ^ n) (hmask : mask.toNat < 2 ^ n) :
    x &&& mask = y &&& mask := by
  refine BitVec.eq_of_getLsbD_eq fun i _ => ?_
  rw [BitVec.getLsbD_and, BitVec.getLsbD_and]
  by_cases hi : i < n
  · rw [mod_two_pow_eq_iff.mp h i hi]
  · have hclear : mask.getLsbD i = false :=
      Nat.testBit_lt_two_pow (Nat.lt_of_lt_of_le hmask (Nat.pow_le_pow_right Nat.two_pos (Nat.le_of_not_lt hi)))
    rw [hclear, Bool.and_false, Bool.and_false]

end Taomee.Bits
