import Taomee.Timer.Lemmas.Loop

/-!
# The saved successor

The loop over `vec[0]` keeps a pointer to the next timer while a callback runs. The header forbids a
callback only to change the expire time of its own timer; one that changes the expire time of the next
timer moves it away under the loop, which then runs through another list and takes its head for a timer.
-/

namespace Taomee.Timer

/-- What the header asks of the callbacks that the loop calls: they use timers that are there, and leave the
expire time of their own alone. -/
def Lawful (cb : Timers.Callback) (s₀ : Timers) : Prop :=
  ∀ s t, Calls cb s₀ s t → Avoids t (called cb s t) (cb s t).1 ∧ ∃ s', (called cb s t).runOps (cb s t).1 = .ok s'

/-- The loop over `vec[0]` in `scan_seconds_timer`. -/
def vecLoop (cb : Timers.Callback) (fuel : Nat) (s : Timers) : Except Stop Timers :=
  Timers.scanLoop cb fuel s (s.links.next (.head 0)) (s.links.next (s.links.next (.head 0)))

/-- The loop takes nothing but timers for timers, and ends. Each timer of `vec[0]` that was due is then called,
if it has not been removed or armed for a later time. -/
structure SafeScan (cb : Timers.Callback) (s : Timers) (L : Fin 5 → List Nat) : Prop where
  timers : ∀ fuel, vecLoop cb fuel s ≠ .error .notTimer
  ends : ∃ fuel s' ev, vecLoop cb fuel s = .ok s' ∧ s'.log = s.log ++ ev ∧
    ∀ t ∈ L 0, Due s t → Settled s.now ev t

variable {s s' s₀ : Timers} {L : Fin 5 → List Nat} {t : Nat} {todo : List Nat} {cb : Timers.Callback} {l p : Ptr}

/-! ## The end of the loop -/

/-- The timers still to come and those that may still be put behind them are turns enough. -/
theorem At.ends (hg : Guarded cb s₀) (hlaw : Lawful cb s₀) {n : Nat}
    (hfin : ∀ s l p, Turns cb s₀ s l p → (linked s.log).length ≤ n) : ∀ {k : Nat} {s : Timers}
    {L : Fin 5 → List Nat} {todo : List Nat}, At cb s₀ s L todo → todo.length + (n - (linked s.log).length) < k →
    ∃ s', Timers.scanLoop cb k s (ptrAt 0 todo) (s.links.next (ptrAt 0 todo)) = .ok s' := by
  intro k
  induction k with
  | zero => exact fun _ hk => absurd hk (Nat.not_lt_zero _)
  | succ k ih =>
      intro s L todo h hk
      cases todo with
      | nil => exact ⟨s, rfl⟩
      | cons t todo =>
          obtain ⟨ts, ht, hnext, hturn⟩ := h.turn hg
          obtain ⟨s1, hs1⟩ := @handleTimer_ok (s.emit (.visit t)) t cb ts fun hf hdue =>
            (hlaw _ t ⟨s, _, ts, h.turns, ht, hf, hdue, rfl⟩).2
          obtain ⟨L1, ev, todo1, hat, hptr, hl, -, hlen, -⟩ := hturn s1 hs1
          have hn := hfin s1 _ _ hat.turns
          rw [hl.keeps.log, linked_append, List.length_append] at hn
          obtain ⟨s', hs'⟩ := ih hat (by
            rw [hl.keeps.log, linked_append, List.length_append]
            simp only [List.length_cons] at hk
            omega)
          refine ⟨s', ?_⟩
          change Timers.scanLoop cb (k + 1) s (.entry t) (s.links.next (.entry t)) = .ok s'
          rw [hnext]
          unfold Timers.scanLoop
          simp only [reduceCtorEq, ↓reduceIte, ht, hs1]
          rw [← hptr]
          exact hs'

/-- The loop is safe when each callback that it calls leaves the next timer in its place, and callbacks put only
so many timers into `vec[0]`. -/
theorem safeScan_of_nextStays (cb : Timers.Callback) (s : Timers) (L : Fin 5 → List Nat) (hs : Shape s L)
    (hlaw : Lawful cb s) (hnext : ∀ s' t, Calls cb s s' t → NextStays cb s' t)
    (hfin : ∃ n, ∀ s' l p, Turns cb s s' l p → (linked s'.log).length ≤ n) : SafeScan cb s L := by
  have hg : Guarded cb s := fun s' t hc => ⟨(hlaw s' t hc).1, hnext s' t hc⟩
  have hat := @at_start s L cb hs
  have hloop : ∀ fuel, vecLoop cb fuel s = Timers.scanLoop cb fuel s (ptrAt 0 (L 0)) (s.links.next (ptrAt 0 (L 0))) := by
    intro fuel
    unfold vecLoop
    rw [next_head hs 0]
  obtain ⟨n, hn⟩ := hfin
  obtain ⟨s', hs'⟩ := hat.ends hg hlaw hn (Nat.lt_succ_self _)
  obtain ⟨L', ev, hl, hsettled⟩ := (scanLoop_leads hg _ hat rfl).2 s' hs'
  refine ⟨fun fuel => ?_, _, s', ev, (hloop _).trans hs', hl.keeps.log, hsettled⟩
  rw [hloop]
  exact (scanLoop_leads hg fuel hat rfl).1

/-! ## Two timers -/

/-- Timers that are due at the time 1, one behind the other in `vec[0]`. -/
def dueTimers : Timers :=
  let s := (Timers.boot fun _ => 0).setupTimer 0
  let s := (s.newTimer 0 7 0 0 1).1
  { (s.newTimer 0 8 0 0 1).1 with now := 1 }

theorem shape_dueTimers : Shape dueTimers fun i => if i = 0 then [0, 1] else [] := by
  have h := (((shape_setup (fun _ => 0) 0).newTimer 0 7 0 0 1).newTimer 0 8 0 0 1).setNow 1
  refine Eq.mp (congrArg (Shape dueTimers) ?_) h
  funext i
  revert i
  decide

/-- The callback of the first timer makes the call `op`, as long as the second one is there. -/
def firstCalls (op : Timers.TimerOp) : Timers.Callback := fun s t =>
  (if t = 0 ∧ (s.timers 1).isSome then [op] else [], 1)

theorem lawful_firstCalls {op : Timers.TimerOp} (hc : ∀ s, TimerOp.changes s op ≠ some 0)
    (hrun : ∀ s : Timers, (s.timers 1).isSome → ∃ s', s.runOp op = .ok s') : Lawful (firstCalls op) s₀ := by
  intro s t _
  unfold firstCalls
  by_cases h : t = 0 ∧ (s.timers 1).isSome
  · rw [if_pos h]
    obtain ⟨rfl, hs⟩ := h
    obtain ⟨s1, hs1⟩ := hrun (called (firstCalls op) s 0) hs
    exact ⟨⟨hc _, fun _ _ => trivial⟩, s1, bind_ok.mpr ⟨s1, hs1, rfl⟩⟩
  · rw [if_neg h]
    exact ⟨trivial, _, rfl⟩

theorem runOps_linked : ∀ {ops : List Timers.TimerOp} {s s' : Timers}, (∀ op ∈ ops, ∃ t, op = .removeTimer t) →
    s.runOps ops = .ok s' → linked s'.log = linked s.log
  | [], s, s', _, hrun => by
      obtain rfl := Except.ok.inj hrun
      rfl
  | op :: ops, s, s', hops, hrun => by
      obtain ⟨s1, hop, hrest⟩ := bind_ok.mp hrun
      obtain ⟨t, rfl⟩ := hops op List.mem_cons_self
      rw [runOps_linked (fun op hm => hops op (List.mem_cons_of_mem _ hm)) hrest]
      change (if (s.timers t).isSome then _ else _) = _ at hop
      split at hop
      · obtain rfl := Except.ok.inj hop
        exact (linked_append s.log [.remove t]).trans (List.append_nil _)
      · cases hop

/-- Callbacks that only mark timers as removed put none into `vec[0]`. -/
theorem Turns.linked (hops : ∀ s t, ∀ op ∈ (cb s t).1, ∃ t', op = .removeTimer t') (h : Turns cb s₀ s l p) :
    linked s.log = linked s₀.log := by
  induction h with
  | start => rfl
  | @turn s s' t ts p _ ht hhandle ih =>
      refine Eq.trans ?_ ih
      have hv : Timer.linked (s.emit (.visit t)).log = Timer.linked s.log :=
        (linked_append s.log [.visit t]).trans (List.append_nil _)
      rw [← hv]
      unfold Timers.handleTimer at hhandle
      split at hhandle
      · obtain rfl := Except.ok.inj hhandle
        rfl
      split at hhandle
      · obtain ⟨s1, hrun, hend⟩ := bind_ok.mp hhandle
        have h1 := (runOps_linked (hops _ t) hrun).trans
          ((linked_append (s.emit (.visit t)).log [.call t _ _]).trans (List.append_nil _))
        split at hend
        · obtain rfl := Except.ok.inj hend
          exact h1
        · obtain rfl := Except.ok.inj hend
          exact h1
      · obtain rfl := Except.ok.inj hhandle
        rfl

/-- The callback of the first timer marks the next one as removed. -/
theorem safeScan_of_nextStays_removeTimer :
    SafeScan (firstCalls (.removeTimer 1)) dueTimers fun i => if i = 0 then [0, 1] else [] := by
  have hops : ∀ s t, ∀ op ∈ (firstCalls (.removeTimer 1) s t).1, ∃ t', op = .removeTimer t' := by
    intro s t op hm
    unfold firstCalls at hm
    split at hm
    · exact ⟨1, List.mem_singleton.mp hm⟩
    · cases hm
  refine safeScan_of_nextStays _ _ _ shape_dueTimers (lawful_firstCalls (fun _ h => nomatch h) fun s hs => ?_)
    (fun s t _ => nextStays_of_avoids fun x _ => ?_) ⟨_, fun s l p h => (congrArg List.length (h.linked hops)).le⟩
  · exact ⟨_, if_pos hs⟩
  · unfold firstCalls
    split
    · exact ⟨(fun h => nomatch h), fun _ _ => trivial⟩
    · trivial

/-- What the header asks of callbacks is not enough: here the callback of the first timer changes the expire time
of the next one. -/
theorem not_safeScan : ¬ ∀ (cb : Timers.Callback) (s : Timers) (L : Fin 5 → List Nat), Shape s L → Lawful cb s →
    SafeScan cb s L := by
  intro h
  have hlaw : Lawful (firstCalls (.modExpireTime 1 100)) dueTimers :=
    lawful_firstCalls (fun _ h => nomatch h) fun s hs => ⟨_, if_pos hs⟩
  exact (h _ dueTimers _ shape_dueTimers hlaw).timers 5 rfl

end Taomee.Timer
