import Mathlib.Algebra.Group.Int.Defs
import Mathlib.Logic.Function.Basic

/-!
# Semaphores that undo what a process did when it ends

A counter that may not become negative, and for each process what is added to the counter when the
process ends. Used as a lock, the counter is 1 when nobody owns the lock and 0 when somebody does, and
the owner alone has something to undo.
-/

namespace Taomee

/-- `semval`, and the `semadj` of each process. -/
structure Semaphore (Pid : Type) where
  semval : Int
  semadj : Pid → Int

namespace Semaphore

variable {Pid : Type} [DecidableEq Pid]

omit [DecidableEq Pid] in
/-- A semaphore that was created and never set. -/
def fresh : Semaphore Pid := ⟨0, fun _ => 0⟩

/-- The largest value of a semaphore. -/
def semvmx : Int := 32767

/-- An operation with undo by the process `p`, and `none` when the process has to wait or the value
would be out of range. -/
def semop (s : Semaphore Pid) (p : Pid) (op : Int) : Option (Semaphore Pid) :=
  if s.semval + op < 0 ∨ semvmx < s.semval + op then none
  else some ⟨s.semval + op, Function.update s.semadj p (s.semadj p - op)⟩

omit [DecidableEq Pid] in
/-- The value is set: there is nothing to undo any more. -/
def setval (v : Int) : Semaphore Pid := ⟨v, fun _ => 0⟩

/-- The process `p` ends. -/
def exit (s : Semaphore Pid) (p : Pid) : Semaphore Pid :=
  ⟨if 0 ≤ s.semval + s.semadj p then s.semval + s.semadj p else 0, Function.update s.semadj p 0⟩

/-! ## The semaphore as a lock -/

/-- The lock has the owner `o`, or none. -/
structure Owned (s : Semaphore Pid) (o : Option Pid) : Prop where
  semval : s.semval = if o = none then 1 else 0
  semadj : ∀ p, s.semadj p = if o = some p then 1 else 0

variable {s s' : Semaphore Pid} {p q : Pid} {o : Option Pid}

theorem owned_setval : Owned (setval 1 : Semaphore Pid) none where
  semval := rfl
  semadj := fun _ => rfl

theorem Owned.take (h : Owned s none) (p : Pid) : ∃ s', s.semop p (-1) = some s' ∧ Owned s' (some p) := by
  have hval : s.semval = 1 := h.semval
  refine ⟨⟨0, Function.update s.semadj p 1⟩, ?_, rfl, fun q => ?_⟩
  · have hadj : s.semadj p = 0 := h.semadj p
    unfold semop
    rw [hval, hadj]
    rfl
  · by_cases hq : q = p
    · simp [hq]
    · have hadj : s.semadj q = 0 := h.semadj q
      have hpq : ¬ p = q := fun he => hq he.symm
      simp [hq, hpq, hadj]

/-- Who wants to own the lock waits for its owner. -/
theorem Owned.waits (h : Owned s (some q)) (p : Pid) : s.semop p (-1) = none := by
  have hval : s.semval = 0 := h.semval
  unfold semop
  rw [hval]
  exact if_pos (.inl (by decide))

theorem Owned.give (h : Owned s (some p)) : ∃ s', s.semop p 1 = some s' ∧ Owned s' none := by
  have hval : s.semval = 0 := h.semval
  have hadj : s.semadj p = 1 := by rw [h.semadj p, if_pos rfl]
  refine ⟨⟨1, Function.update s.semadj p 0⟩, ?_, rfl, fun q => ?_⟩
  · unfold semop
    rw [hval, hadj]
    rfl
  · by_cases hq : q = p
    · simp [hq]
    · have hpq : ¬ p = q := fun he => hq he.symm
      have hadjq : s.semadj q = 0 := by simp [h.semadj q, hpq]
      simp [hq, hadjq]

/-- An owner that ends gives the lock back, other processes end without a trace. -/
theorem Owned.exit (h : Owned s o) (p : Pid) : Owned (s.exit p) (if o = some p then none else o) := by
  have hval := h.semval
  have hadj := h.semadj p
  by_cases ho : o = some p
  · rw [if_pos ho] at hadj ⊢
    rw [if_neg (by rw [ho]; simp)] at hval
    refine ⟨by simp [Semaphore.exit, hval, hadj], fun q => ?_⟩
    by_cases hq : q = p
    · simp [Semaphore.exit, hq]
    · have hadjq := h.semadj q
      have hne : ¬ p = q := fun he => hq he.symm
      simp [Semaphore.exit, hq, hadjq, ho, hne]
  · rw [if_neg ho] at hadj ⊢
    refine ⟨?_, fun q => ?_⟩
    · rw [← hval]
      simp only [Semaphore.exit, hadj, Int.add_zero]
      refine if_pos ?_
      rw [hval]
      split <;> decide
    · by_cases hq : q = p
      · simp [Semaphore.exit, hq, ho]
      · simp [Semaphore.exit, hq, h.semadj q]

/-- A semaphore that is not set is no lock that anybody can get. -/
theorem fresh_waits (p : Pid) : (fresh : Semaphore Pid).semop p (-1) = none := rfl

theorem fresh_exit (p : Pid) : (fresh : Semaphore Pid).exit p = fresh := by
  unfold Semaphore.exit fresh
  rw [Function.update_eq_self_iff.mpr rfl]
  rfl

end Semaphore

end Taomee
