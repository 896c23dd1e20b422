import Mathlib.Algebra.Group.Int.Defs
import Mathlib.Algebra.GroupWithZero.Nat
import Mathlib.Data.List.Infix

/-!
# Fixed-width integers of C

Exact sums and differences are integers; storing one in a C type reduces it.
-/

namespace Taomee

/-- The value as a `uint32_t`. -/
def toU32 (z : Int) : Nat := (z % 2 ^ 32).toNat

/-- The value as a `size_t` of 64 bits. -/
def toU64 (z : Int) : Nat := (z % 2 ^ 64).toNat

/-- The value as an `int` of 32 bits. -/
def toI32 (z : Int) : Int := z.bmod (2 ^ 32)

theorem toU32_natCast {n : Nat} (h : n < 2 ^ 32) : toU32 n = n := by
  unfold toU32
  omega

theorem toU32_sub {a b : Nat} (hb : b ≤ a) (h : a < 2 ^ 32) : toU32 ((a : Int) - b) = a - b := by
  unfold toU32
  omega

theorem toU64_natCast {n : Nat} (h : n < 2 ^ 64) : toU64 n = n := by
  unfold toU64
  omega

theorem toI32_of_lt {z : Int} (h0 : -2 ^ 31 ≤ z) (h : z < 2 ^ 31) : toI32 z = z := by
  unfold toI32
  rw [Int.bmod_def]
  split <;> omega

end Taomee
