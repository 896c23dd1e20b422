import Taomee.Timer.Lemmas.Lists

/-!
# What a call of the interface does

A call puts a new timer into a list, moves a timer whose expire time it changes to the tail of a
list, marks a timer as removed, or does nothing. What holds after callbacks and between scans is
derived from these four cases.
-/

namespace Taomee.Timer

variable {s s' : Timers} {L L' : Fin 5 → List Nat} {t : Nat}

/-- The timer whose expire time a call changes. -/
def TimerOp.changes (s : Timers) : Timers.TimerOp → Option Nat
  | .addEvent head function _ _ _ .timerReplaceTimer => s.findEvent head function
  | .addEvent _ _ _ _ _ .timerAddNewTimer => none
  | .modExpireTime t _ => some t
  | .removeTimer _ => none

/-- The cached minima after `set_min_exptm(e, i)`. -/
def minAfter (min : Fin 5 → Int) (e : Int) (i : Fin 5) : Fin 5 → Int :=
  if e < min i ∨ min i = 0 then Function.update min i e else min

/-- The effect of a call that changes the expire time of the timer `c`, if any. -/
inductive OpStep (s : Timers) (L : Fin 5 → List Nat) (s' : Timers) :
    (c : Option Nat) → (Fin 5 → List Nat) → Prop
  | add (ts : TimerStruct) (i : Fin 5) : ts.function ≠ none →
      i = s.vecIdx (toI32 (ts.expire - s.now)) →
      s'.timers = Function.update s.timers s.fresh (some ts) → s'.fresh = s.fresh + 1 →
      s'.now = s.now → s'.log = s.log ++ [.arm s.fresh ts.expire s.now i] →
      s'.minExpiringTime = minAfter s.minExpiringTime ts.expire i →
      OpStep s L s' none (appended L s.fresh i)
  | change (t : Nat) (ts : TimerStruct) (e : Int) (i : Fin 5) : s.timers t = some ts →
      i = s.vecIdx (e - s.now) →
      s'.timers = Function.update s.timers t (some { ts with expire := e }) → s'.fresh = s.fresh →
      s'.now = s.now → s'.log = s.log ++ [.arm t e s.now i] →
      s'.minExpiringTime = minAfter s.minExpiringTime e i →
      OpStep s L s' (some t) (appended (without L t) t i)
  | mark (t : Nat) (ts : TimerStruct) : s.timers t = some ts →
      s'.timers = Function.update s.timers t (some { ts with function := none, funcIndx := 0 }) →
      s'.fresh = s.fresh → s'.now = s.now → s'.log = s.log ++ [.remove t] →
      s'.minExpiringTime = s.minExpiringTime → OpStep s L s' none L
  | skip (c : Option Nat) : s' = s → OpStep s L s' c L

theorem setMinExptm_other (s : Timers) (e : Int) (i : Fin 5) :
    (s.setMinExptm e i).timers = s.timers ∧ (s.setMinExptm e i).fresh = s.fresh ∧
      (s.setMinExptm e i).now = s.now ∧ (s.setMinExptm e i).log = s.log := by
  unfold Timers.setMinExptm
  split <;> exact ⟨rfl, rfl, rfl, rfl⟩

theorem setMinExptm_min (s : Timers) (e : Int) (i : Fin 5) :
    (s.setMinExptm e i).minExpiringTime = minAfter s.minExpiringTime e i := by
  unfold Timers.setMinExptm minAfter
  split <;> rfl

theorem newTimer_step (h : Shape s L) (head function owner data : Nat) (expire : Int) :
    ∃ L', Shape (s.newTimer head function owner data expire).1 L' ∧
      OpStep s L (s.newTimer head function owner data expire).1 none L' := by
  refine ⟨_, h.newTimer head function owner data expire, ?_⟩
  refine .add ⟨expire, owner, data, some function, 0⟩ _ (Option.some_ne_none _) rfl ?_ ?_ ?_ ?_ ?_
  · exact (setMinExptm_other _ _ _).1
  · exact (setMinExptm_other _ _ _).2.1
  · exact (setMinExptm_other _ _ _).2.2.1
  · exact congrArg (· ++ [_]) (setMinExptm_other _ _ _).2.2.2
  · exact setMinExptm_min _ _ _

theorem modExpireTime_step (h : Shape s L) (ht : s.timers t ≠ none) (e : Int) :
    ∃ L', Shape (s.modExpireTime t e) L' ∧ OpStep s L (s.modExpireTime t e) (some t) L' := by
  obtain ⟨ts, hts⟩ := Option.ne_none_iff_exists'.mp ht
  by_cases h0 : ts.expire = 0
  · have heq : s.modExpireTime t e = s := by
      unfold Timers.modExpireTime
      simp only [hts, if_pos h0]
    rw [heq]
    exact ⟨L, h, .skip _ rfl⟩
  · refine ⟨_, h.modExpireTime hts h0 e, ?_⟩
    unfold Timers.modExpireTime
    simp only [hts, if_neg h0]
    refine .change t ts e _ hts rfl ?_ ?_ ?_ ?_ ?_
    · exact (setMinExptm_other _ _ _).1
    · exact (setMinExptm_other _ _ _).2.1
    · exact (setMinExptm_other _ _ _).2.2.1
    · exact congrArg (· ++ [_]) (setMinExptm_other _ _ _).2.2.2
    · exact setMinExptm_min _ _ _

theorem findEvent_some {head function : Nat} (h : s.findEvent head function = some t) :
    s.timers t ≠ none := by
  have := List.find?_some h
  intro hn
  rw [hn] at this
  exact Bool.false_ne_true this

/-- A call of the interface has one of the four effects. -/
theorem runOp_step (h : Shape s L) {op : Timers.TimerOp} (hrun : s.runOp op = .ok s') :
    ∃ L', Shape s' L' ∧ OpStep s L s' (TimerOp.changes s op) L' := by
  cases op with
  | addEvent head function owner data expire flag =>
      obtain rfl := Except.ok.inj hrun
      cases flag with
      | timerAddNewTimer => exact newTimer_step h head function owner data expire
      | timerReplaceTimer =>
          cases hf : s.findEvent head function with
          | none =>
              simp only [Timers.addEvent, TimerOp.changes, hf]
              exact newTimer_step h head function owner data expire
          | some t =>
              simp only [Timers.addEvent, TimerOp.changes, hf]
              exact modExpireTime_step h (findEvent_some hf) expire
  | modExpireTime t e =>
      simp only [Timers.runOp] at hrun
      split at hrun
      · rename_i ht
        obtain rfl := Except.ok.inj hrun
        exact modExpireTime_step h (Option.isSome_iff_ne_none.mp ht) e
      · cases hrun
  | removeTimer t =>
      simp only [Timers.runOp] at hrun
      split at hrun
      · rename_i ht
        obtain rfl := Except.ok.inj hrun
        obtain ⟨ts, hts⟩ := Option.isSome_iff_exists.mp ht
        refine ⟨L, (h.markTimer t).emit _, ?_⟩
        refine .mark t ts hts ?_ rfl rfl rfl rfl
        simp [Timers.emit, Timers.doRemoveTimer, Timers.setTimer, hts]
      · cases hrun

/-- A call of the interface stops only because its timer is not there. -/
theorem runOp_error {op : Timers.TimerOp} {e : Stop} (hrun : s.runOp op = .error e) : e = .badTimer := by
  unfold Timers.runOp at hrun
  split at hrun
  · cases hrun
  · split at hrun
    · cases hrun
    · exact (Except.error.inj hrun).symm
  · split at hrun
    · cases hrun
    · exact (Except.error.inj hrun).symm

end Taomee.Timer
