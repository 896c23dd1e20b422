import Mathlib.Order.Nat

/-!
# Progress in fair runs

A deterministic system takes one event after the other. What holds until an event that recurs happens,
and is ended by that event, ends.
-/

namespace Taomee.Fairness

variable {σ ε : Type*}

/-- The states of the run from `s` that the events drive. -/
def run (step : σ → ε → σ) (events : Nat → ε) (s : σ) : Nat → σ
  | 0 => s
  | n + 1 => step (run step events s n) (events n)

/-- The event happens again and again. -/
def Recurs (events : Nat → ε) (e : ε) : Prop := ∀ n, ∃ m, n ≤ m ∧ events m = e

/-- Whenever `P` holds in the run, `Q` holds then or later. -/
def LeadsTo (step : σ → ε → σ) (events : Nat → ε) (s : σ) (P Q : σ → Prop) : Prop :=
  ∀ n, P (run step events s n) → ∃ m, n ≤ m ∧ Q (run step events s m)

variable {step : σ → ε → σ} {events : Nat → ε} {s : σ} {P Q R D : σ → Prop}

theorem run_invariant (hstep : ∀ s e, P s → P (step s e)) (h : P s) (n : Nat) : P (run step events s n) := by
  induction n with
  | zero => exact h
  | succ n ih => exact hstep _ _ ih

/-- A run goes on from each of its states as a run of its own. -/
theorem run_add (n m : Nat) :
    run step events s (n + m) = run step (fun i => events (n + i)) (run step events s n) m := by
  induction m with
  | zero => rfl
  | succ m ih =>
      rw [← Nat.add_assoc]
      simp only [run, ih]

theorem Recurs.add {e : ε} (h : Recurs events e) (n : Nat) : Recurs (fun i => events (n + i)) e := by
  intro k
  obtain ⟨m, hm, he⟩ := h (n + k)
  obtain ⟨i, rfl⟩ := Nat.exists_eq_add_of_le (Nat.le_of_add_right_le hm)
  exact ⟨i, Nat.le_of_add_le_add_left hm, he⟩

/-- While `P` holds, the run of a part of the state is a run of a smaller system. -/
theorem run_view {τ : Type*} (view : σ → τ) {step' : τ → ε → τ} (hkeep : ∀ s e, P s → P (step s e))
    (hstep : ∀ s e, P s → view (step s e) = step' (view s) e) (h : P s) (n : Nat) :
    view (run step events s n) = run step' events (view s) n := by
  induction n with
  | zero => rfl
  | succ n ih =>
      rw [run, hstep _ _ (run_invariant hkeep h n), ih]
      rfl

/-- Before an event that recurs has happened for the first time, only the others have. -/
theorem Recurs.first {e : ε} (h : Recurs events e) : ∃ n, events n = e ∧ ∀ m, m < n → events m ≠ e := by
  classical
  have hex : ∃ n, events n = e := by
    obtain ⟨n, -, hn⟩ := h 0
    exact ⟨n, hn⟩
  exact ⟨Nat.find hex, Nat.find_spec hex, fun m hm => Nat.find_min hex hm⟩

/-- By the time that a recurring event has happened, `P` has been left for `Q`: no event can leave it for
anything else, and this one cannot keep it. -/
theorem leadsTo_of_recurs {e : ε} (hrec : Recurs events e)
    (hstay : ∀ s e', P s → P (step s e') ∨ Q (step s e')) (hleave : ∀ s, P s → Q (step s e)) :
    LeadsTo step events s P Q := by
  intro n hn
  obtain ⟨m, hm, he⟩ := hrec n
  obtain ⟨k, rfl⟩ := Nat.exists_eq_add_of_le hm
  clear hm
  -- on the number of events up to the recurring one
  induction k generalizing n with
  | zero =>
      refine ⟨n + 1, Nat.le_succ n, ?_⟩
      subst he
      exact hleave _ hn
  | succ k ih =>
      rcases hstay _ (events n) hn with hstep | hstep
      · have heq : n + (k + 1) = n + 1 + k := by omega
        rw [heq] at he
        obtain ⟨m, hm, hq⟩ := ih (n + 1) hstep he
        exact ⟨m, Nat.le_trans (Nat.le_succ n) hm, hq⟩
      · exact ⟨n + 1, Nat.le_succ n, hstep⟩

/-- One stage after the other, each of which may reach the goal `D` instead. -/
theorem LeadsTo.trans_or (h : LeadsTo step events s P fun s => Q s ∨ D s)
    (h' : LeadsTo step events s Q fun s => R s ∨ D s) : LeadsTo step events s P fun s => R s ∨ D s := by
  intro n hn
  obtain ⟨m, hm, hq | hd⟩ := h n hn
  · obtain ⟨k, hk, hr⟩ := h' m hq
    exact ⟨k, Nat.le_trans hm hk, hr⟩
  · exact ⟨m, hm, .inr hd⟩

/-- Stages that are counted down. -/
theorem LeadsTo.countdown {P : Nat → σ → Prop}
    (h : ∀ k, LeadsTo step events s (P (k + 1)) fun s => P k s ∨ D s) (k : Nat) :
    LeadsTo step events s (P k) fun s => P 0 s ∨ D s := by
  induction k with
  | zero => exact fun n hn => ⟨n, Nat.le_refl n, .inl hn⟩
  | succ k ih => exact (h k).trans_or ih

/-- A rank that no event raises, and that the recurring event lowers, until `P` is left for `Q`. -/
theorem leadsTo_of_rank {e : ε} (rank : σ → Nat) (hrec : Recurs events e)
    (hstay : ∀ s e', P s → P (step s e') ∧ rank (step s e') ≤ rank s ∨ Q (step s e'))
    (hturn : ∀ s, P s → P (step s e) ∧ rank (step s e) < rank s ∨ Q (step s e)) : LeadsTo step events s P Q := by
  have hstage : ∀ k, LeadsTo step events s (fun s => P s ∧ rank s ≤ k + 1) fun s => (P s ∧ rank s ≤ k) ∨ Q s := by
    refine fun k => leadsTo_of_recurs hrec (fun s e' h => ?_) fun s h => ?_
    · rcases hstay s e' h.1 with ⟨hp, hle⟩ | hq
      · exact .inl ⟨hp, hle.trans h.2⟩
      · exact .inr (.inr hq)
    · rcases hturn s h.1 with ⟨hp, hlt⟩ | hq
      · exact .inl ⟨hp, Nat.le_of_lt_succ (hlt.trans_le h.2)⟩
      · exact .inr hq
  have hlast : LeadsTo step events s (fun s => P s ∧ rank s ≤ 0) fun s => Q s ∨ Q s := by
    refine leadsTo_of_recurs hrec (fun s e' h => ?_) fun s h => ?_
    · rcases hstay s e' h.1 with ⟨hp, hle⟩ | hq
      · exact .inl ⟨hp, hle.trans h.2⟩
      · exact .inr (.inl hq)
    · rcases hturn s h.1 with ⟨hp, hlt⟩ | hq
      · exact absurd (hlt.trans_le h.2) (Nat.not_lt_zero _)
      · exact .inl hq
  intro n hn
  have hall := (LeadsTo.countdown (P := fun k s => P s ∧ rank s ≤ k) hstage (rank (run step events s n))).trans_or hlast
  obtain ⟨m, hm, hq | hq⟩ := hall n ⟨hn, le_rfl⟩
  · exact ⟨m, hm, hq⟩
  · exact ⟨m, hm, hq⟩

end Taomee.Fairness
