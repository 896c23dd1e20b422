import Taomee.Timer.Lemmas.MicroList

/-!
# What a run keeps

A run is made of calls, turns of the scans and callbacks that return. Each of them keeps the lists and
moves the registry by its steps, and so does the whole run.
-/

namespace Taomee.Timer

open Registry

variable {s s' : Process} {L : Fin 5 → List Nat} {M : List Nat} {t : Nat} {rest : List Frame}

theorem ne_none_of_eq {α : Type} {o : Option α} {a : α} (h : o = some a) : o ≠ none := by
  rw [h]
  exact Option.some_ne_none a

/-! ## The table -/

/-- A callback is registered under an index that is not 0. -/
theorem Moves.registerTimerCallback (s : Process) (nbr : Int) (cb : Option Nat) :
    Moves s (s.registerTimerCallback nbr cb).1 := by
  unfold Process.registerTimerCallback
  by_cases hrange : nbr ≤ 0 ∨ nbr ≥ maxTimerType
  · rw [if_pos hrange]
    exact Moves.refl s
  rw [if_neg hrange]
  by_cases hfree : s.tcfs nbr.toNat ≠ none
  · rw [if_pos hfree]
    exact Moves.refl s
  rw [if_neg hfree]
  have hpos : 0 < nbr.toNat := by
    rw [not_or] at hrange
    omega
  refine Moves.single fun L M hl => ⟨⟨L, M, hl.seconds, hl.micro, hl.alloc, hl.fresh⟩, ?_⟩
  exact .register nbr.toNat cb hpos ⟨rfl, lists_same rfl rfl fun _ _ => id⟩ rfl rfl

theorem Moves.unregisterTimersCallback (s : Process) : Moves s s.unregisterTimersCallback := by
  refine Moves.single fun L M hl => ⟨⟨L, M, hl.seconds, hl.micro, hl.alloc, hl.fresh⟩, ?_⟩
  exact .unregister ⟨rfl, lists_same rfl rfl fun _ _ => id⟩ (fun _ => rfl) rfl

/-! ## Loops over all timers -/

theorem Moves.forEach {P : Type} [DecidableEq P] {c : ListLoop.Cursor Process P Nat}
    {body : Process → Nat → Option Process} (hbody : ∀ s t s', body s t = some s' → Moves s s') {turns : Nat}
    (h : ListLoop.forEach c body turns s = some s') : Moves s s' :=
  ListLoop.forEach_keeps Moves.refl (fun _ _ _ => Moves.trans) hbody h

theorem Moves.forEachSafe {P : Type} [DecidableEq P] {c : ListLoop.Cursor Process P Nat}
    {body : Process → Nat → Option Process} (hbody : ∀ s t s', body s t = some s' → Moves s s') {turns : Nat}
    (h : ListLoop.forEachSafe c body turns s = some s') : Moves s s' :=
  ListLoop.forEachSafe_keeps Moves.refl (fun _ _ _ => Moves.trans) hbody h

theorem Moves.foldlM {A : Type} {f : Process → A → Option Process}
    (hf : ∀ s a s', f s a = some s' → Moves s s') {l : List A} (h : l.foldlM f s = some s') : Moves s s' :=
  ListLoop.foldlM_keeps Moves.refl (fun _ _ _ => Moves.trans) hf h

theorem Moves.removeMicroTimers {owner : Nat} (h : s.removeMicroTimers owner = some s') : Moves s s' := by
  refine Moves.forEachSafe (fun s t s' h => ?_) h
  obtain ⟨mt, hmt, rfl⟩ := Option.map_eq_some_iff.mp h
  by_cases ho : mt.owner = owner
  · rw [if_pos ho]
    exact Moves.removeMicroTimer (ne_none_of_eq hmt) false
  · rw [if_neg ho]
    exact Moves.refl s

theorem Moves.refreshTimersCallback (h : s.refreshTimersCallback = some s') : Moves s s' := by
  obtain ⟨s₁, hs₁, hs'⟩ := Option.bind_eq_some_iff.mp h
  have hlists : Moves s s₁ := Moves.foldlM (fun _ _ _ h => Moves.forEach (fun _ _ _ => Moves.refreshTimer) h) hs₁
  exact hlists.trans (Moves.forEach (fun _ _ _ => Moves.refreshMicroTimer) hs')

theorem Moves.destroyTimer (h : s.destroyTimer = some s') : Moves s s' := by
  obtain ⟨s₁, hs₁, hs'⟩ := Option.bind_eq_some_iff.mp h
  refine (Moves.foldlM (fun _ _ _ h => Moves.forEachSafe (fun s t s' h => ?_) h) hs₁).trans
    (Moves.forEachSafe (fun s t s' h => ?_) hs')
  · obtain ⟨ts, hts, rfl⟩ := Option.map_eq_some_iff.mp h
    exact Moves.doRemoveTimer (ne_none_of_eq hts) true
  · obtain ⟨mt, hmt, rfl⟩ := Option.map_eq_some_iff.mp h
    exact Moves.removeMicroTimer (ne_none_of_eq hmt) true

/-! ## Turns of the scans -/

theorem Moves.secondsTurn {l p : Ptr} (h : s.secondsTurn l p rest = some s') : Moves s s' := by
  unfold Process.secondsTurn at h
  by_cases hl : l = .head 0
  · rw [if_pos hl] at h
    obtain rfl := Option.some.inj h
    exact Moves.setStack s _
  rw [if_neg hl] at h
  obtain ⟨t, -, h⟩ := Option.bind_eq_some_iff.mp h
  obtain ⟨ts, hts, rfl⟩ := Option.map_eq_some_iff.mp h
  by_cases hf : ts.function = none
  · rw [if_pos hf]
    exact (Moves.doRemoveTimer (ne_none_of_eq hts) true).trans (Moves.setStack _ _)
  rw [if_neg hf]
  by_cases hdue : ts.expire ≤ s.seconds.now
  · rw [if_pos hdue]
    exact (Moves.called (entries_second hts) hf).trans (Moves.setStack _ _)
  · rw [if_neg hdue]
    exact Moves.setStack s _

theorem Moves.listsTurn (s : Process) (i : Nat) (rest : List Frame) : Moves s (s.listsTurn i rest) := by
  unfold Process.listsTurn
  split
  · dsimp only
    split
    · exact Moves.setStack s _
    · exact Moves.setStack s _
  · exact Moves.setStack s _

/-- A timer that is not removed is moved to a nearer list, or stays where it is. -/
theorem Moves.sortTimer {ts : TimerStruct} (ht : s.seconds.timers t = some ts) (hf : ts.function ≠ none) (idx : Fin 5)
    (minExptm : Int) : Moves s { s with seconds := (s.seconds.sortTimer idx t ts minExptm).1 } := by
  refine Moves.setSeconds ⟨rfl, rfl, rfl, rfl⟩ rfl fun L h => ?_
  unfold Timers.sortTimer
  rw [if_neg hf]
  dsimp only
  split
  · refine ⟨⟨_, (h.moveTimer ht _).setMinExptm _ _⟩, fun t => ?_, ?_, ?_⟩
    · exact congrArg (fun f => (f t).map TimerStruct.entry) (setMinExptm_other _ _ _).1
    · exact (setMinExptm_other _ _ _).2.1
    · exact (setMinExptm_frame _ _ _).2.1
  · split
    · exact ⟨⟨L, h⟩, fun _ => rfl, rfl, rfl⟩
    · exact ⟨⟨L, h⟩, fun _ => rfl, rfl, rfl⟩

theorem Moves.sortTurn {idx : Fin 5} {cur next : Ptr} {minExptm : Int}
    (h : s.sortTurn idx cur next minExptm rest = some s') : Moves s s' := by
  unfold Process.sortTurn at h
  by_cases hc : cur = .head idx
  · rw [if_pos hc] at h
    obtain rfl := Option.some.inj h
    refine Moves.setSeconds ⟨rfl, rfl, rfl, rfl⟩ rfl fun L h => ?_
    exact ⟨⟨L, h.rings, h.alloc, h.fresh, h.sprites, h.vec⟩, fun _ => rfl, rfl, rfl⟩
  rw [if_neg hc] at h
  obtain ⟨t, -, h⟩ := Option.bind_eq_some_iff.mp h
  obtain ⟨ts, hts, rfl⟩ := Option.map_eq_some_iff.mp h
  by_cases hf : ts.function = none
  · rw [if_pos hf, Timers.sortTimer, if_pos hf]
    exact (Moves.doRemoveTimer (ne_none_of_eq hts) true).trans (Moves.setStack _ _)
  · rw [if_neg hf]
    exact (Moves.sortTimer hts hf idx minExptm).trans (Moves.setStack _ _)

theorem Moves.microTurn {l p : MicroPtr} (h : s.microTurn l p rest = some s') : Moves s s' := by
  unfold Process.microTurn at h
  by_cases hl : l = .head
  · rw [if_pos hl] at h
    obtain rfl := Option.some.inj h
    exact Moves.setStack s _
  rw [if_neg hl] at h
  obtain ⟨t, -, h⟩ := Option.bind_eq_some_iff.mp h
  obtain ⟨mt, hmt, rfl⟩ := Option.map_eq_some_iff.mp h
  by_cases hf : mt.function = none
  · rw [if_pos hf]
    exact (Moves.removeMicroTimer (ne_none_of_eq hmt) true).trans (Moves.setStack _ _)
  rw [if_neg hf]
  by_cases hdue : s.seconds.now > mt.tvSec ∨ s.seconds.now = mt.tvSec ∧ s.nowUsec > mt.tvUsec
  · rw [if_pos hdue]
    exact (Moves.called (entries_micro hmt) hf).trans (Moves.setStack _ _)
  · rw [if_neg hdue]
    exact Moves.setStack s _

theorem Moves.turn (h : s.turn = some s') : Moves s s' := by
  unfold Process.turn at h
  split at h
  · exact Moves.secondsTurn h
  · obtain rfl := Option.some.inj h
    exact Moves.listsTurn s _ _
  · exact Moves.sortTurn h
  · exact Moves.microTurn h
  · cases h

/-- A callback returns, and its timer is removed if it returned 0. -/
theorem Moves.ret {v : Int} (h : s.ret v = some s') : Moves s s' := by
  unfold Process.ret at h
  split at h
  · by_cases hv : v = 0
    · rw [if_pos hv] at h
      obtain ⟨ts, hts, rfl⟩ := Option.map_eq_some_iff.mp h
      exact (Moves.doRemoveTimer (ne_none_of_eq hts) true).trans (Moves.setStack _ _)
    · rw [if_neg hv] at h
      obtain rfl := Option.some.inj h
      exact Moves.setStack s _
  · by_cases hv : v = 0
    · rw [if_pos hv] at h
      obtain ⟨mt, hmt, rfl⟩ := Option.map_eq_some_iff.mp h
      exact (Moves.removeMicroTimer (ne_none_of_eq hmt) true).trans (Moves.setStack _ _)
    · rw [if_neg hv] at h
      obtain rfl := Option.some.inj h
      exact Moves.setStack s _
  · cases h

/-! ## Runs -/

theorem Moves.call {c : Process.ApiCall} (h : s.call c = some s') : Moves s s' := by
  cases c with
  | renewNow sec usec =>
      obtain rfl := Option.some.inj h
      exact Moves.renewNow s sec usec
  | addEvent head function owner data expire flag =>
      obtain rfl := Option.some.inj h
      exact Moves.addEvent s head function owner data expire flag
  | addEventEx head fidx owner data expire flag =>
      obtain rfl := Option.some.inj h
      exact Moves.addEventEx s head fidx.isLt owner data expire flag
  | modExpireTime t expiretime =>
      obtain ⟨ts, -, rfl⟩ := Option.map_eq_some_iff.mp h
      exact Moves.modExpireTime s t expiretime
  | doRemoveTimer t freed =>
      obtain ⟨ts, hts, rfl⟩ := Option.map_eq_some_iff.mp h
      exact Moves.doRemoveTimer (ne_none_of_eq hts) freed
  | removeTimers head =>
      obtain rfl := Option.some.inj h
      exact Moves.removeTimers s head
  | addMicroEvent func tvSec tvUsec owner data =>
      obtain rfl := Option.some.inj h
      exact Moves.addMicroEvent s func tvSec tvUsec owner data
  | addMicroEventEx fidx tvSec tvUsec owner data =>
      obtain rfl := Option.some.inj h
      exact Moves.addMicroEventEx s fidx.isLt tvSec tvUsec owner data
  | removeMicroTimer t freed =>
      obtain ⟨mt, hmt, rfl⟩ := Option.map_eq_some_iff.mp h
      exact Moves.removeMicroTimer (ne_none_of_eq hmt) freed
  | removeMicroTimers owner => exact Moves.removeMicroTimers h
  | registerTimerCallback nbr cb =>
      obtain rfl := Option.some.inj h
      exact Moves.registerTimerCallback s nbr cb
  | unregisterTimersCallback =>
      obtain rfl := Option.some.inj h
      exact Moves.unregisterTimersCallback s
  | refreshTimersCallback => exact Moves.refreshTimersCallback h
  | destroyTimer => exact Moves.destroyTimer h
  | scanSecondsTimer =>
      obtain rfl := Option.some.inj h
      exact Moves.setStack s _
  | scanMicrosecondsTimer =>
      obtain rfl := Option.some.inj h
      exact Moves.setStack s _

theorem Moves.step {c : Process.Choice} (h : s.step c = some s') : Moves s s' := by
  cases c with
  | call c =>
      change (if s.outside then s.call c else none) = some s' at h
      by_cases ho : s.outside
      · rw [if_pos ho] at h
        exact Moves.call h
      · rw [if_neg ho] at h
        cases h
  | ret v => exact Moves.ret h
  | turn => exact Moves.turn h

theorem Moves.run {choices : List Process.Choice} (h : s.run choices = some s') : Moves s s' :=
  Moves.foldlM (fun _ _ _ => Moves.step) h

theorem linked_setupTimer (stale : Fin 5 → Int) (sec usec : Int) :
    Linked (Process.setupTimer stale sec usec) (fun _ => []) [] where
  seconds := shape_setup stale sec
  micro := ⟨List.nodup_singleton _, List.isChain_cons_cons.mpr ⟨⟨rfl, rfl⟩, .singleton _⟩⟩
  alloc := by simp [Process.setupTimer]
  fresh := by simp

theorem sound_setupTimer (stale : Fin 5 → Int) (sec usec : Int) :
    Sound maxTimerType (Process.setupTimer stale sec usec).registry where
  zero := rfl
  inTable := by
    intro id e he
    cases id with
    | second t => cases he
    | micro t => cases he
  gone := fun _ hm => absurd hm List.not_mem_nil
  never := fun before after i h => absurd h (by simp [Process.registry, Process.setupTimer])

/-- In every state that is reached the links stand for lists, and what was removed stays removed. -/
theorem run_sound {stale : Fin 5 → Int} {sec usec : Int} {choices : List Process.Choice}
    (h : (Process.setupTimer stale sec usec).run choices = some s) :
    (∃ L M, Linked s L M) ∧ Sound maxTimerType s.registry := by
  obtain ⟨hl, hs⟩ := Moves.run h _ _ (linked_setupTimer stale sec usec)
  exact ⟨hl, (sound_setupTimer stale sec usec).steps (Nat.zero_lt_succ _) hs⟩

end Taomee.Timer
