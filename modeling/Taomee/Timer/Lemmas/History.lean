import Taomee.Timer.Lemmas.Steps

/-!
# What the log tells of the timers

The log gives each timer's expire time and whether it is gone: removed, or returned 0. A timer that
is there and not gone has its function; a callback is called only for such a timer, at its time or
later.
-/

namespace Taomee.Timer

/-! ## The log -/

/-- The expire time that an event gives to the timer `t`. -/
def Event.armed (t : Nat) : Event → Option Int
  | .arm t' e _ _ => if t' = t then some e else none
  | _ => none

/-- The expire time that the timer `t` was given last. -/
def lastArm (log : List Event) (t : Nat) : Option Int :=
  log.foldl (fun r e => (e.armed t).or r) none

/-- The timer `t` was removed, or its callback returned 0. -/
def Gone (log : List Event) (t : Nat) : Prop := .remove t ∈ log ∨ ∃ n, .call t n 0 ∈ log

/-- What an event says of a timer. -/
def Event.timer : Event → Option Nat
  | .arm t _ _ _ => some t
  | .remove t => some t
  | .visit t => some t
  | .call t _ _ => some t
  | _ => none

/-- A callback is called at its time or later, and not for a timer that is gone. -/
def CallOk (log : List Event) : Event → Prop
  | .call t n _ => (∃ e, lastArm log t = some e ∧ e ≤ n) ∧ ¬ Gone log t
  | _ => True

variable {log : List Event} {e : Event} {t : Nat}

theorem lastArm_concat (log : List Event) (e : Event) (t : Nat) :
    lastArm (log ++ [e]) t = (e.armed t).or (lastArm log t) := by
  simp [lastArm]

theorem gone_concat : Gone (log ++ [e]) t ↔ Gone log t ∨ e = .remove t ∨ ∃ n, e = .call t n 0 := by
  unfold Gone
  simp only [List.mem_append, List.mem_singleton, exists_or, @eq_comm _ e]
  tauto

theorem armed_timer {x : Int} (h : e.armed t = some x) : e.timer = some t := by
  cases e with
  | arm t' e n i =>
      simp only [Event.armed] at h
      split at h
      · rename_i ht
        rw [ht]
        rfl
      · cases h
  | _ => cases h

theorem lastArm_eq_none (h : ∀ e ∈ log, e.timer ≠ some t) : lastArm log t = none := by
  induction log using List.reverseRecOn with
  | nil => rfl
  | append_singleton log e ih =>
      rw [lastArm_concat, ih fun e he => h e (List.mem_append_left _ he), Option.or_none]
      by_contra hne
      obtain ⟨x, hx⟩ := Option.ne_none_iff_exists'.mp hne
      exact h e (by simp) (armed_timer hx)

theorem lastArm_mem {x : Int} (h : lastArm log t = some x) : ∃ n i, .arm t x n i ∈ log := by
  induction log using List.reverseRecOn with
  | nil => cases h
  | append_singleton log e ih =>
      rw [lastArm_concat] at h
      cases ha : e.armed t with
      | none =>
          rw [ha, Option.none_or] at h
          obtain ⟨n, i, hm⟩ := ih h
          exact ⟨n, i, List.mem_append_left _ hm⟩
      | some y =>
          rw [ha, Option.some_or] at h
          cases e with
          | arm t' y' n i =>
              simp only [Event.armed] at ha
              split at ha
              · rename_i ht
                refine ⟨n, i, List.mem_append_right _ ?_⟩
                rw [ht, Option.some.inj ha, Option.some.inj h]
                exact List.mem_singleton_self _
              · cases ha
          | _ => cases ha

theorem not_gone_of_unknown (h : ∀ e ∈ log, e.timer ≠ some t) : ¬ Gone log t := by
  rintro (hr | ⟨n, hn⟩)
  · exact h _ hr rfl
  · exact h _ hn rfl

/-! ## What the log and the state tell of each other -/

/-- The state is as the log tells. Only of the timer `busy`, whose callback runs, the log already
tells that it returned 0. -/
structure History (busy : Option Nat) (s : Timers) : Prop where
  expire : ∀ t ts, s.timers t = some ts → lastArm s.log t = some ts.expire
  removed : ∀ t ts, s.timers t = some ts → ts.function = none → Gone s.log t
  gone : ∀ t ts, s.timers t = some ts → Gone s.log t → busy = some t ∨ ts.function = none
  freed : ∀ t e, lastArm s.log t = some e → s.timers t = none → Gone s.log t
  calls : ∀ l e l', s.log = l ++ e :: l' → CallOk l e
  known : ∀ e ∈ s.log, ∀ t, e.timer = some t → t < s.fresh

variable {s s' : Timers} {L L' : Fin 5 → List Nat} {busy c : Option Nat}

theorem History.congr (h : History busy s) (ht : s'.timers = s.timers) (hl : s'.log = s.log)
    (hf : s'.fresh = s.fresh) : History busy s' where
  expire := by rw [ht, hl]; exact h.expire
  removed := by rw [ht, hl]; exact h.removed
  gone := by rw [ht, hl]; exact h.gone
  freed := by rw [ht, hl]; exact h.freed
  calls := by rw [hl]; exact h.calls
  known := by rw [hl, hf]; exact h.known

theorem calls_concat (h : ∀ l e l', log = l ++ e :: l' → CallOk l e) (he : CallOk log e) :
    ∀ l x l', log ++ [e] = l ++ x :: l' → CallOk l x := by
  intro l x l' heq
  rcases List.append_eq_append_iff.mp heq with ⟨as, hl, hr⟩ | ⟨bs, hl, hr⟩
  · cases as with
    | nil =>
        simp only [List.nil_append, List.append_nil] at hl hr
        rw [← (List.cons.inj hr).1, hl]
        exact he
    | cons a as => exact absurd hr (by simp)
  · cases bs with
    | nil =>
        simp only [List.nil_append, List.append_nil] at hl hr
        rw [(List.cons.inj hr).1, ← hl]
        exact he
    | cons b bs =>
        obtain ⟨rfl, -⟩ := List.cons.inj hr
        exact h l x bs hl

theorem History.unknown (h : History busy s) : ∀ e ∈ s.log, e.timer ≠ some s.fresh :=
  fun e he ht => absurd (h.known e he _ ht) (Nat.lt_irrefl _)

/-- An event that says nothing of expire times, removals and calls. -/
theorem History.note (h : History busy s) (harm : ∀ t, e.armed t = none)
    (hgone : ∀ t, e ≠ .remove t ∧ ∀ n, e ≠ .call t n 0) (hcall : CallOk s.log e)
    (hknown : ∀ t, e.timer = some t → t < s.fresh) : History busy (s.emit e) := by
  have hl : ∀ t, lastArm (s.log ++ [e]) t = lastArm s.log t := by
    intro t
    rw [lastArm_concat, harm t, Option.none_or]
  have hg : ∀ t, Gone (s.log ++ [e]) t ↔ Gone s.log t := by
    intro t
    rw [gone_concat]
    have := hgone t
    exact ⟨fun hor => hor.elim id fun hor => hor.elim (fun he => absurd he this.1)
      fun ⟨n, hn⟩ => absurd hn (this.2 n), .inl⟩
  exact
    { expire := fun t ts ht => (hl t).trans (h.expire t ts ht)
      removed := fun t ts ht hf => (hg t).mpr (h.removed t ts ht hf)
      gone := fun t ts ht hgo => h.gone t ts ht ((hg t).mp hgo)
      freed := fun t x hx ht => (hg t).mpr (h.freed t x ((hl t).symm.trans hx) ht)
      calls := calls_concat h.calls hcall
      known := fun x hx t ht => by
        rcases List.mem_append.mp hx with hx | hx
        · exact h.known x hx t ht
        · rw [List.mem_singleton.mp hx] at ht
          exact hknown t ht }

/-- One timer changes, and an event about this timer is noted. -/
theorem History.update (h : History busy s) {ts : TimerStruct} (het : e.timer = some t)
    (htimers : s'.timers = Function.update s.timers t (some ts)) (hlog : s'.log = s.log ++ [e])
    (hfresh : s.fresh ≤ s'.fresh) (ht : t < s'.fresh)
    (hexpire : (e.armed t).or (lastArm s.log t) = some ts.expire)
    (hremoved : ts.function = none → Gone s'.log t)
    (hgone : Gone s'.log t → busy = some t ∨ ts.function = none) (hcall : CallOk s.log e) :
    History busy s' := by
  have harm : ∀ t', t' ≠ t → lastArm s'.log t' = lastArm s.log t' := by
    intro t' hne
    rw [hlog, lastArm_concat]
    cases ha : e.armed t' with
    | none => rfl
    | some x => exact absurd (Option.some.inj ((armed_timer ha).symm.trans het)) hne
  have hg : ∀ t', t' ≠ t → (Gone s'.log t' ↔ Gone s.log t') := by
    intro t' hne
    rw [hlog, gone_concat]
    refine ⟨fun hor => hor.elim id fun hor => ?_, .inl⟩
    rcases hor with rfl | ⟨n, rfl⟩
    · exact absurd (Option.some.inj het) hne
    · exact absurd (Option.some.inj het) hne
  refine { expire := ?_, removed := ?_, gone := ?_, freed := ?_, calls := ?_, known := ?_ }
  · intro t' ts' ht'
    rw [htimers, Function.update_apply] at ht'
    split at ht'
    · rename_i he
      rw [he, hlog, lastArm_concat, hexpire, Option.some.inj ht']
    · rename_i he
      rw [harm t' he]
      exact h.expire t' ts' ht'
  · intro t' ts' ht' hf
    rw [htimers, Function.update_apply] at ht'
    split at ht'
    · rename_i he
      exact he ▸ hremoved (Option.some.inj ht' ▸ hf)
    · rename_i he
      exact (hg t' he).mpr (h.removed t' ts' ht' hf)
  · intro t' ts' ht' hgo
    rw [htimers, Function.update_apply] at ht'
    split at ht'
    · rename_i he
      rw [← Option.some.inj ht', he]
      exact hgone (he ▸ hgo)
    · rename_i he
      exact h.gone t' ts' ht' ((hg t' he).mp hgo)
  · intro t' x hx ht'
    rw [htimers, Function.update_apply] at ht'
    split at ht'
    · cases ht'
    · rename_i he
      exact (hg t' he).mpr (h.freed t' x ((harm t' he).symm.trans hx) ht')
  · rw [hlog]
    exact calls_concat h.calls hcall
  · intro x hx t' ht'
    rw [hlog] at hx
    rcases List.mem_append.mp hx with hx | hx
    · exact Nat.lt_of_lt_of_le (h.known x hx t' ht') hfresh
    · rw [List.mem_singleton.mp hx, het] at ht'
      exact Option.some.inj ht' ▸ ht

theorem History.lt_fresh (h : History busy s) {ts : TimerStruct} (ht : s.timers t = some ts) :
    t < s.fresh := by
  by_contra hcon
  have := lastArm_eq_none (t := t) fun x hx ht' => hcon (h.known x hx t ht')
  rw [h.expire t ts ht] at this
  cases this

/-- Calls of the interface keep the state as the log tells. -/
theorem History.step (h : History busy s) (hst : OpStep s L s' c L') : History busy s' := by
  cases hst with
  | skip c heq => exact heq ▸ h
  | add ts i hf hi htimers hfresh hnow hlog _ =>
      refine h.update rfl htimers hlog (by omega) (by omega) (by simp [Event.armed])
        (fun hfn => absurd hfn hf) (fun hg => ?_) trivial
      rw [hlog] at hg
      exact absurd (by simpa [gone_concat] using hg) (not_gone_of_unknown h.unknown)
  | change t0 ts0 e i hts hi htimers hfresh hnow hlog _ =>
      have hg : Gone s'.log t0 ↔ Gone s.log t0 := by simp [hlog, gone_concat]
      refine h.update rfl htimers hlog hfresh.ge (hfresh ▸ h.lt_fresh hts) (by simp [Event.armed])
        (fun hfn => hg.mpr (h.removed t0 ts0 hts hfn)) (fun hgo => h.gone t0 ts0 hts (hg.mp hgo)) trivial
  | mark t0 ts0 hts htimers hfresh hnow hlog _ =>
      refine h.update rfl htimers hlog hfresh.ge (hfresh ▸ h.lt_fresh hts) (h.expire t0 ts0 hts)
        (fun _ => ?_) (fun _ => .inr rfl) trivial
      simp [hlog, gone_concat]

theorem History.call (h : History none s) {ts : TimerStruct} (ht : s.timers t = some ts)
    (hf : ts.function ≠ none) (hdue : ts.expire ≤ s.now) (ret : Int) :
    History (if ret = 0 then some t else none) (s.emit (.call t s.now ret)) := by
  have hlive : ¬ Gone s.log t := fun hg => (h.gone t ts ht hg).elim (fun hb => by cases hb) hf
  have hcall : CallOk s.log (.call t s.now ret) := ⟨⟨ts.expire, h.expire t ts ht, hdue⟩, hlive⟩
  have hbusy : History (if ret = 0 then some t else none) s :=
    { h with gone := fun t' ts' ht' hg => (h.gone t' ts' ht' hg).elim (fun hb => by cases hb) .inr }
  refine @History.update _ _ _ _ _ hbusy ts rfl (by rw [← ht, Function.update_eq_self]; rfl) rfl (Nat.le_refl _)
    (h.lt_fresh ht) (h.expire t ts ht) (fun hfn => absurd hfn hf) (fun hg => ?_) hcall
  by_cases hr : ret = 0
  · exact .inl (if_pos hr)
  · rcases gone_concat.mp hg with hg | hg | ⟨n, hn⟩
    · exact absurd hg hlive
    · cases hg
    · exact absurd (Event.call.inj hn).2.2 hr

theorem History.free (h : History busy s) (hg : Gone s.log t) (hb : busy = none ∨ busy = some t) :
    History none (s.doRemoveTimer t true) where
  expire := by
    intro t' ts' ht'
    simp only [Timers.doRemoveTimer, ↓reduceIte, Timers.setTimer, Timers.listDel,
      Function.update_apply] at ht'
    split at ht'
    · cases ht'
    · exact h.expire t' ts' ht'
  removed := by
    intro t' ts' ht' hf
    simp only [Timers.doRemoveTimer, ↓reduceIte, Timers.setTimer, Timers.listDel,
      Function.update_apply] at ht'
    split at ht'
    · cases ht'
    · exact h.removed t' ts' ht' hf
  gone := by
    intro t' ts' ht' hgo
    simp only [Timers.doRemoveTimer, ↓reduceIte, Timers.setTimer, Timers.listDel,
      Function.update_apply] at ht'
    split at ht'
    · cases ht'
    · rename_i hne
      refine .inr ((h.gone t' ts' ht' hgo).resolve_left fun hbt => ?_)
      rcases hb with hb | hb
      · rw [hb] at hbt
        cases hbt
      · rw [hb] at hbt
        exact hne (Option.some.inj hbt).symm
  freed := by
    intro t' x hx ht'
    simp only [Timers.doRemoveTimer, ↓reduceIte, Timers.setTimer, Timers.listDel,
      Function.update_apply] at ht'
    split at ht'
    · rename_i he
      exact he ▸ hg
    · exact h.freed t' x hx ht'
  calls := h.calls
  known := h.known

theorem history_setup (stale : Fin 5 → Int) (now : Int) :
    History none ((Timers.boot stale).setupTimer now) where
  expire := by simp [Timers.setupTimer, Timers.boot]
  removed := by simp [Timers.setupTimer, Timers.boot]
  gone := by simp [Timers.setupTimer, Timers.boot]
  freed := by simp [Timers.setupTimer, Timers.boot, lastArm]
  calls := by simp [Timers.setupTimer, Timers.boot]
  known := by simp [Timers.setupTimer, Timers.boot]

end Taomee.Timer
