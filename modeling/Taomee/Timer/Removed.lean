import Taomee.Timer.Lemmas.Refresh

/-!
# Removed timers stay removed

The index 0 stands for no callback: nothing is registered under it, and it is the index that removing
a timer leaves behind. So a refresh that comes to a removed timer, still in its list, gives it no callback.
-/

namespace Taomee.Timer

open Registry

/-- Nothing is registered under the index 0, no timer is called after it was removed, and a refresh would
end and leave every timer in the lists with the callback that is registered for its index, or none. -/
structure NeverRevived (s : Process) : Prop where
  zero : s.tcfs 0 = none
  never : ∀ before after id, s.marks = before ++ .removed id :: after → .called id ∉ after
  refreshed : ∃ s' L M, s.refreshTimersCallback = some s' ∧ s'.tcfs = s.tcfs ∧ Linked s' L M ∧
    (∀ i, ∀ t ∈ L i, ∃ ts, s'.seconds.timers t = some ts ∧ ts.function = s'.tcfs ts.funcIndx) ∧
    (∀ t ∈ M, ∃ mt, s'.microTimers t = some mt ∧ mt.function = s'.tcfs mt.funcIndx)

variable {s s' : Process} {L : Fin 5 → List Nat} {M : List Nat}

theorem Process.UpToDate.second {t : Nat} (h : s.UpToDate (.second t)) (hl : Linked s L M) {i : Fin 5} (ht : t ∈ L i) :
    ∃ ts, s.seconds.timers t = some ts ∧ ts.function = s.tcfs ts.funcIndx := by
  obtain ⟨ts, hts⟩ := Option.ne_none_iff_exists'.mp ((hl.seconds.alloc t).mpr ⟨i, ht⟩)
  exact ⟨ts, hts, h ts.entry (entries_second hts)⟩

theorem Process.UpToDate.micro {t : Nat} (h : s.UpToDate (.micro t)) (hl : Linked s L M) (ht : t ∈ M) :
    ∃ mt, s.microTimers t = some mt ∧ mt.function = s.tcfs mt.funcIndx := by
  obtain ⟨mt, hmt⟩ := Option.ne_none_iff_exists'.mp ((hl.alloc t).mpr ht)
  exact ⟨mt, hmt, h mt.entry (entries_micro hmt)⟩

/-! ## Calls that return -/

/-- The timer that a call is given is there. -/
def Process.ApiCall.TimerThere (s : Process) : Process.ApiCall → Prop
  | .modExpireTime t _ => s.seconds.timers t ≠ none
  | .doRemoveTimer t _ => s.seconds.timers t ≠ none
  | .removeMicroTimer t _ => s.microTimers t ≠ none
  | _ => True

/-- A call returns unless it is given a timer that was freed: the loops have turns enough. -/
theorem call_returns {stale : Fin 5 → Int} {sec usec : Int} {choices : List Process.Choice}
    (h : (Process.setupTimer stale sec usec).run choices = some s) {c : Process.ApiCall} (hc : c.TimerThere s) :
    ∃ s', s.call c = some s' := by
  obtain ⟨⟨L, M, hl⟩, hsound⟩ := run_sound h
  cases c with
  | modExpireTime t expiretime =>
      obtain ⟨ts, hts⟩ := Option.ne_none_iff_exists'.mp hc
      exact ⟨_, congrArg (Option.map _) hts⟩
  | doRemoveTimer t freed =>
      obtain ⟨ts, hts⟩ := Option.ne_none_iff_exists'.mp hc
      exact ⟨_, congrArg (Option.map _) hts⟩
  | removeMicroTimer t freed =>
      obtain ⟨mt, hmt⟩ := Option.ne_none_iff_exists'.mp hc
      exact ⟨_, congrArg (Option.map _) hmt⟩
  | removeMicroTimers owner =>
      obtain ⟨s', hs', -⟩ := hl.removeMicroTimers owner
      exact ⟨s', hs'⟩
  | refreshTimersCallback =>
      obtain ⟨s', hs', -⟩ := hl.refreshTimersCallback hsound.inTable
      exact ⟨s', hs'⟩
  | destroyTimer =>
      obtain ⟨s', -, hs', -⟩ := hl.destroyTimer
      exact ⟨s', hs'⟩
  | _ => exact ⟨_, rfl⟩

/-! ## Every run -/

/-- Removed timers are not revived, in whatever order timers are added, removed and scanned and callbacks
are registered, forgotten and looked up again, by the program or by callbacks. -/
theorem removed_neverRevived {stale : Fin 5 → Int} {sec usec : Int} {choices : List Process.Choice}
    (h : (Process.setupTimer stale sec usec).run choices = some s) : NeverRevived s := by
  obtain ⟨⟨L, M, hl⟩, hsound⟩ := run_sound h
  obtain ⟨s', hs', hl', ht, hup⟩ := hl.refreshTimersCallback hsound.inTable
  refine ⟨hsound.zero, hsound.never, s', L, M, hs', ht, hl', fun i t htm => ?_, fun t htm => ?_⟩
  · exact (hup (.second t)).second hl' htm
  · exact (hup (.micro t)).micro hl' htm

def index7 : Fin maxTimerType := ⟨7, by decide⟩

/-- Two timers with one index are added and one of them is removed. The callbacks are exchanged, and a
scan calls the other one, which comes to its end. -/
def reloadChoices : List Process.Choice :=
  [.call (.registerTimerCallback 7 (some 70)), .call (.addEventEx 0 index7 0 0 3 .timerAddNewTimer),
    .call (.addEventEx 0 index7 0 0 3 .timerAddNewTimer), .call (.addMicroEventEx index7 2 0 1 0),
    .call (.doRemoveTimer 0 false), .call (.removeMicroTimers 1), .call .unregisterTimersCallback,
    .call .refreshTimersCallback, .call (.registerTimerCallback 7 (some 71)), .call .refreshTimersCallback,
    .call (.renewNow 4 0), .call .scanSecondsTimer, .turn, .turn, .ret 0, .turn, .turn, .turn, .turn, .turn,
    .turn, .turn, .turn, .turn, .turn, .call .scanMicrosecondsTimer, .turn, .turn]

theorem removed_neverRevived_reload : ∃ s, (Process.setupTimer (fun _ => 0) 1 0).run reloadChoices = some s ∧
    s.marks = [.removed (.second 0), .removed (.micro 0), .removed (.second 0), .called (.second 1),
      .removed (.second 1), .removed (.micro 0)] ∧ NeverRevived s := by
  have hmarks : ((Process.setupTimer (fun _ => 0) 1 0).run reloadChoices).map Process.marks =
      some [.removed (.second 0), .removed (.micro 0), .removed (.second 0), .called (.second 1),
        .removed (.second 1), .removed (.micro 0)] := by
    decide +kernel
  obtain ⟨s, hs, hm⟩ := Option.map_eq_some_iff.mp hmarks
  exact ⟨s, hs, hm, removed_neverRevived hs⟩

end Taomee.Timer
