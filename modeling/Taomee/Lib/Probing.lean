import Mathlib.Algebra.Group.Int.Defs
import Mathlib.Algebra.GroupWithZero.Nat
import Mathlib.Logic.Function.Basic
import Mathlib.Data.List.Basic

/-!
# Tables in which a key has several places

A table holds one key at each position, a distinguished key `e` where it is empty. A key may stand
at the positions `probe k` only, which are tried in order; a new key takes the first empty one.
-/

namespace Taomee.Probing

variable {ι κ : Type*} [DecidableEq κ]

/-- The first of the positions that holds `k`. -/
def find (keyAt : ι → κ) (k : κ) (ps : List ι) : Option ι := ps.find? fun p => keyAt p = k

/-- The position that holds `k`, or else the first empty one. -/
def place (keyAt : ι → κ) (e k : κ) (ps : List ι) : Option ι :=
  (find keyAt k ps).or (find keyAt e ps)

/-- Every key stands at one of its positions, and only once. -/
structure Placed (probe : κ → List ι) (e : κ) (keyAt : ι → κ) : Prop where
  probed : ∀ p, keyAt p ≠ e → p ∈ probe (keyAt p)
  unique : ∀ p q, keyAt p ≠ e → keyAt p = keyAt q → p = q

variable {probe : κ → List ι} {e k : κ} {keyAt : ι → κ} {p : ι} {ps : List ι}

theorem find_eq_none : find keyAt k ps = none ↔ ∀ p ∈ ps, keyAt p ≠ k := by
  simp [find]

theorem keyAt_of_find (h : find keyAt k ps = some p) : keyAt p = k := by
  simpa using List.find?_some h

theorem mem_of_find (h : find keyAt k ps = some p) : p ∈ ps := List.mem_of_find?_eq_some h

theorem place_eq_none : place keyAt e k ps = none ↔ ∀ p ∈ ps, keyAt p ≠ k ∧ keyAt p ≠ e := by
  unfold place
  rw [Option.or_eq_none_iff, find_eq_none, find_eq_none]
  exact ⟨fun ⟨h1, h2⟩ p hp => ⟨h1 p hp, h2 p hp⟩, fun h => ⟨fun p hp => (h p hp).1, fun p hp => (h p hp).2⟩⟩

/-- A key takes the position that holds it, or an empty one of its own when none does. -/
theorem place_eq_some (h : place keyAt e k ps = some p) :
    find keyAt k ps = some p ∨ find keyAt k ps = none ∧ keyAt p = e ∧ p ∈ ps := by
  rcases Option.or_eq_some_iff.mp h with hk | ⟨hk, he⟩
  · exact .inl hk
  · exact .inr ⟨hk, keyAt_of_find he, mem_of_find he⟩

namespace Placed

omit [DecidableEq κ] in
theorem empty (h : ∀ p, keyAt p = e) : Placed probe e keyAt :=
  ⟨fun p hp => absurd (h p) hp, fun p _ hp _ => absurd (h p) hp⟩

theorem find_eq_some_iff (h : Placed probe e keyAt) (hk : k ≠ e) :
    find keyAt k (probe k) = some p ↔ keyAt p = k := by
  constructor
  · exact keyAt_of_find
  · rintro rfl
    cases hf : find keyAt (keyAt p) (probe (keyAt p)) with
    | none => exact absurd rfl (find_eq_none.mp hf p (h.probed p hk))
    | some q => rw [h.unique p q hk (keyAt_of_find hf).symm]

theorem find_eq_none_iff (h : Placed probe e keyAt) (hk : k ≠ e) :
    find keyAt k (probe k) = none ↔ ∀ p, keyAt p ≠ k := by
  rw [find_eq_none]
  constructor
  · rintro hno p rfl
    exact hno p (h.probed p hk) rfl
  · exact fun hno p _ => hno p

variable [DecidableEq ι]

theorem write (h : Placed probe e keyAt) (hk : k ≠ e) (hp : place keyAt e k (probe k) = some p) :
    Placed probe e (Function.update keyAt p k) := by
  rcases place_eq_some hp with hf | ⟨hf, -, hmem⟩
  · rwa [← keyAt_of_find hf, Function.update_eq_self]
  · have hno := (h.find_eq_none_iff hk).mp hf
    refine ⟨fun q hq => ?_, fun q r hq hqr => ?_⟩
    · by_cases hqp : q = p
      · subst hqp
        rwa [Function.update_self]
      · rw [Function.update_of_ne hqp] at hq ⊢
        exact h.probed q hq
    · by_cases hqp : q = p <;> by_cases hrp : r = p
      · rw [hqp, hrp]
      · rw [hqp, Function.update_self, Function.update_of_ne hrp] at hqr
        exact absurd hqr.symm (hno r)
      · rw [hrp, Function.update_self, Function.update_of_ne hqp] at hqr
        exact absurd hqr (hno q)
      · rw [Function.update_of_ne hqp, Function.update_of_ne hrp] at hqr
        rw [Function.update_of_ne hqp] at hq
        exact h.unique q r hq hqr

omit [DecidableEq κ] in
theorem erase (h : Placed probe e keyAt) (p : ι) : Placed probe e (Function.update keyAt p e) := by
  have hne : ∀ q, Function.update keyAt p e q ≠ e → q ≠ p := by
    rintro q hq rfl
    exact hq (Function.update_self _ _ _)
  refine ⟨fun q hq => ?_, fun q r hq hqr => ?_⟩
  · have hqp := hne q hq
    rw [Function.update_of_ne hqp] at hq ⊢
    exact h.probed q hq
  · have hqp := hne q hq
    have hrp := hne r (hqr ▸ hq)
    rw [Function.update_of_ne hqp, Function.update_of_ne hrp] at hqr
    rw [Function.update_of_ne hqp] at hq
    exact h.unique q r hq hqr

end Placed

end Taomee.Probing
