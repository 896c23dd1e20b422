import Mathlib.Order.Basic

/-!
# Computations with fuel

A computation that is given a number of turns yields a result when it comes to that result with every number
from some number on. The rules follow the structure of the computation.
-/

namespace Taomee

universe u

variable {ρ ε : Type*} {α β : Type u} {x y : Nat → ρ} {r : ρ}

/-- With enough fuel the result is `r`. -/
def Yields (x : Nat → ρ) (r : ρ) : Prop := ∃ n, ∀ fuel, n ≤ fuel → x fuel = r

/-- With enough fuel there is a value. -/
def Ends (x : Nat → Except ε α) : Prop := ∃ a, Yields x (.ok a)

namespace Yields

theorem const (r : ρ) : Yields (fun _ => r) r := ⟨0, fun _ _ => rfl⟩

/-- A turn is taken. -/
theorem succ (hx : ∀ fuel, x (fuel + 1) = y fuel) (hy : Yields y r) : Yields x r := by
  obtain ⟨n, hn⟩ := hy
  refine ⟨n + 1, fun fuel hle => ?_⟩
  cases fuel with
  | zero => exact absurd hle (Nat.not_succ_le_zero n)
  | succ fuel => exact (hx fuel).trans (hn fuel (Nat.le_of_succ_le_succ hle))

theorem exists_eq (h : Yields x r) : ∃ fuel, x fuel = r := by
  obtain ⟨n, hn⟩ := h
  exact ⟨n, hn n (Nat.le_refl n)⟩

theorem bind {x : Nat → Except ε α} {f : Nat → α → Except ε β} {a : α} {r : Except ε β} (hx : Yields x (.ok a))
    (hf : Yields (fun fuel => f fuel a) r) : Yields (fun fuel => x fuel >>= f fuel) r := by
  obtain ⟨n, hn⟩ := hx
  obtain ⟨n', hn'⟩ := hf
  refine ⟨max n n', fun fuel hle => ?_⟩
  dsimp only
  rw [hn fuel (Nat.le_trans (Nat.le_max_left n n') hle)]
  exact hn' fuel (Nat.le_trans (Nat.le_max_right n n') hle)

end Yields

namespace Ends

variable {x y : Nat → Except ε α} {f : Nat → α → Except ε β}

theorem const {x : Except ε α} (h : ∃ a, x = .ok a) : Ends fun _ => x := by
  obtain ⟨a, rfl⟩ := h
  exact ⟨a, .const _⟩

theorem succ (hx : ∀ fuel, x (fuel + 1) = y fuel) (hy : Ends y) : Ends x := by
  obtain ⟨a, ha⟩ := hy
  exact ⟨a, .succ hx ha⟩

/-- One computation after the other. -/
theorem bind (hx : Ends x) (hf : ∀ a, Yields x (.ok a) → Ends fun fuel => f fuel a) :
    Ends fun fuel => x fuel >>= f fuel := by
  obtain ⟨a, ha⟩ := hx
  obtain ⟨b, hb⟩ := hf a ha
  exact ⟨b, ha.bind hb⟩

end Ends

end Taomee
