import Taomee.Timer.Lemmas.Ends

/-!
# Timers fire on time

From the time on that a timer is armed it is never called early; it is called by the second scan that
starts at its time or later, and at its time when every second is scanned. A timer is not called after it
was removed or after its callback returned 0. The scans come to their end.
-/

namespace Taomee.Timer

/-- Each scan comes at a later time than the one before. -/
def Increasing (log : List Event) : Prop :=
  (log.filterMap fun e => match e with
    | .scan n => some n
    | _ => none).Pairwise (· < ·)

/-- Every scan has come to its end. -/
def BetweenScans (log : List Event) : Prop :=
  ∀ (p : List Event) (n : Int) (q : List Event), log = p ++ .scan n :: q → .scanEnd ∈ q

/-- No timer is called after it was removed or returned 0. A timer that is armed for the time `E`, and not armed
anew while `l₂` happens, is not called before `E`; it is called or removed by the end of the second scan at `E` or
later; armed between scans for a time to come it is called first at the scan at `E`, if every second is scanned. -/
structure OnTime (log : List Event) : Prop where
  ended : BetweenScans log
  live : ∀ (l : List Event) (t : Nat) (n v : Int) (l' : List Event), log = l ++ .call t n v :: l' → ¬ Gone l t
  early : ∀ (l₁ : List Event) (t : Nat) (E a : Int) (i : Fin 5) (l₂ l₃ : List Event),
    log = l₁ ++ .arm t E a i :: (l₂ ++ l₃) → Unarmed l₂ t →
    ∀ n v, .call t n v ∈ l₂ → E ≤ n
  late : ∀ (l₁ : List Event) (t : Nat) (E a : Int) (i : Fin 5) (l₂ l₃ : List Event),
    log = l₁ ++ .arm t E a i :: (l₂ ++ l₃) → Unarmed l₂ t → ¬ Gone l₁ t →
    ∀ (m₁ : List Event) (n₁ : Int) (m₂ : List Event) (n₂ : Int) (m₃ m₄ : List Event),
    l₂ = m₁ ++ .scan n₁ :: (m₂ ++ .scan n₂ :: (m₃ ++ .scanEnd :: m₄)) → E ≤ n₁ → E ≤ n₂ →
    Dropped (m₁ ++ .scan n₁ :: (m₂ ++ .scan n₂ :: m₃)) t
  punctual : ∀ (l₁ : List Event) (t : Nat) (E a : Int) (i : Fin 5) (l₂ l₃ : List Event),
    log = l₁ ++ .arm t E a i :: (l₂ ++ l₃) → Unarmed l₂ t → ¬ Gone l₁ t →
    BetweenScans l₁ → a < E → (∀ n, a < n → n ≤ E → .scan n ∈ l₂) →
    ∀ m₁ m₂ m₃ : List Event, l₂ = m₁ ++ .scan E :: (m₂ ++ .scanEnd :: m₃) →
    (∀ n v, .call t n v ∉ m₁) ∧ (.remove t ∈ m₁ ++ m₂ ∨ ∃ v, .call t E v ∈ m₂)

variable {s s' : Timers} {L L' : Fin 5 → List Nat} {t : Nat} {log ev ev' p q r c : List Event} {e E a n n' : Int} {i : Fin 5}
variable {x : Event}

/-! ## Places in the log -/

theorem Unarmed.mono (h : Unarmed ev t) (hsub : ev' ⊆ ev) : Unarmed ev' t := fun e he => h e (hsub he)

theorem Dropped.mono (h : Dropped ev t) (hsub : ev ⊆ ev') : Dropped ev' t :=
  h.imp (fun hr => hsub hr) fun ⟨n, v, hc⟩ => ⟨n, v, hsub hc⟩

theorem Increasing.lt (h : Increasing (p ++ q)) (ha : .scan a ∈ p) (hn : .scan n ∈ q) : a < n := by
  unfold Increasing at h
  rw [List.filterMap_append, List.pairwise_append] at h
  exact h.2.2 a (List.mem_filterMap.mpr ⟨_, ha, rfl⟩) n (List.mem_filterMap.mpr ⟨_, hn, rfl⟩)

theorem lastArm_append (h : Unarmed q t) : lastArm (p ++ q) t = lastArm p t := by
  induction q using List.reverseRecOn with
  | nil => rw [List.append_nil]
  | append_singleton q e ih =>
      rw [← List.append_assoc, lastArm_concat, h e (by simp), Option.none_or]
      exact ih fun x hx => h x (List.mem_append_left _ hx)

/-- A part that the event `x` does not belong to ends in front of it. -/
theorem split_of_notMem (h : p ++ x :: q = r ++ c) (hx : x ∉ r) : ∃ p', p = r ++ p' ∧ c = p' ++ x :: q := by
  rcases List.append_eq_append_iff.mp h with ⟨as, hr, hc⟩ | ⟨bs, hp, hc⟩
  · cases as with
    | nil => exact ⟨[], by rw [hr, List.append_nil, List.append_nil], hc.symm⟩
    | cons y as =>
        refine absurd ?_ hx
        rw [hr, (List.cons.inj hc).1]
        simp
  · exact ⟨bs, hp, hc⟩

theorem History.live (h : History none s) (harm : lastArm s.log t = some e) (hg : ¬ Gone s.log t) : Live s t e := by
  cases ht : s.timers t with
  | none => exact absurd (h.freed t e harm ht) hg
  | some ts =>
      refine ⟨ts, ht, fun hf => hg (h.removed t ts ht hf), ?_⟩
      exact Option.some.inj ((h.expire t ts ht).symm.trans harm)

/-- After the action in which it is armed, the timer is live, or it was removed or called meanwhile. -/
theorem live_of_arm (h : History none s) (hlog : s.log = p ++ .arm t E a i :: r) (hun : Unarmed r t) (hg : ¬ Gone p t) :
    Dropped r t ∨ Live s t E := by
  by_cases hd : Dropped r t
  · exact .inl hd
  refine .inr (h.live ?_ ?_)
  · rw [hlog, List.append_cons, lastArm_append hun, lastArm_concat]
    simp [Event.armed]
  · rw [hlog]
    rintro (hr | ⟨n, hc⟩)
    · rcases List.mem_append.mp hr with hr | hr
      · exact hg (.inl hr)
      · exact hd (.inl ((List.mem_cons.mp hr).resolve_left (by simp)))
    · rcases List.mem_append.mp hc with hc | hc
      · exact hg (.inr ⟨n, hc⟩)
      · exact hd (.inr ⟨n, 0, (List.mem_cons.mp hc).resolve_left (by simp)⟩)

theorem eq_of_append_cons_eq_singleton {y : Event} (h : p ++ y :: r = [x]) : p = [] ∧ y = x ∧ r = [] := by
  cases p with
  | nil => exact ⟨rfl, List.cons.inj h⟩
  | cons z p => exact absurd (List.cons.inj h).2 (by simp)

theorem ActionStep.arm (hs : Shape s L) (h : ActionStep s L s' L' (p ++ .arm t E a i :: r)) :
    (∀ n, .scan n ∉ r) ∧ ∀ q, BetweenScans (q ++ p) → r = [] ∧ (E = a + 1 → t ∈ L' 0) := by
  generalize hev : p ++ .arm t E a i :: r = ev at h
  cases h with
  | quiet => exact absurd hev (by simp)
  | op ev c hk hop =>
      rcases hop.events hs hk.log with rfl | ⟨t', rfl⟩ | ⟨t', e, i', rfl, hnear⟩
      · exact absurd hev (by simp)
      · cases (eq_of_append_cons_eq_singleton hev).2.1
      · obtain ⟨-, heq, rfl⟩ := eq_of_append_cons_eq_singleton hev
        cases heq
        exact ⟨fun n => List.not_mem_nil, fun q _ => ⟨rfl, hnear⟩⟩
  | scan ev hs =>
      cases p with
      | nil => cases (List.cons.inj hev).1
      | cons x p =>
          obtain ⟨hx, hrest⟩ := List.cons.inj hev
          subst hx
          refine ⟨fun n hm => ?_, fun q hq => ?_⟩
          · have hm : .scan n ∈ ev ++ [.scanEnd] := by
              rw [← hrest]
              exact List.mem_append_right _ (List.mem_cons_of_mem _ hm)
            rcases List.mem_append.mp hm with hm | hm
            · exact hs.about _ hm
            · exact absurd (List.mem_singleton.mp hm) (fun h => nomatch h)
          · -- the timer is armed within the scan
            have hend : .scanEnd ∈ p := hq q s.now p rfl
            rcases List.append_eq_append_iff.mp hrest with ⟨as, rfl, -⟩ | ⟨bs, -, hbs⟩
            · exact (hs.about _ (List.mem_append_left _ hend)).elim
            · cases (eq_of_append_cons_eq_singleton hbs.symm).2.1

/-! ## Waiting for a scan -/

/-- After a scan less than two seconds ahead of its time the timer stands in `vec[0]`. -/
theorem Trace.placed (h : Trace s L p s' L') (hpos : Positive s'.log) (hl : Live s t E) (hun : Unarmed p t)
    (hnear : t ∈ L 0 ∨ ∃ k, .scan k ∈ p ∧ E - k < 2) : Dropped p t ∨ (Live s' t E ∧ t ∈ L' 0) := by
  rcases hnear with hm | ⟨k, hk, hnear⟩
  · exact (h.stays t E hl hun).imp_right fun ⟨hl', hm'⟩ => ⟨hl', hm' hm⟩
  · obtain ⟨u, w, rfl⟩ := List.append_of_mem hk
    obtain ⟨s₁, L₁, s₂, L₂, ev, w', ht₁, rfl, hs, rfl, ht₂⟩ := h.scan
    rcases ht₁.stays t E hl (hun.mono (by simp)) with hd | ⟨hl₁, -⟩
    · exact .inl (hd.mono (by simp))
    obtain ⟨i, hi⟩ := ht₁.finish.shape.mem_of_live hl₁
    have hpos₂ : Positive s₂.log := by
      rw [ht₂.log] at hpos
      exact hpos.of_append
    rcases hs.stay t E i hl₁ hi (hun.mono fun x hx => by simp [hx]) with ho | ⟨hl₂, hm₂⟩
    · exact .inl (ho.dropped.mono fun x hx => by simp [hx])
    · rcases ht₂.stays t E hl₂ (hun.mono fun x hx => by simp [hx]) with hd | ⟨hl', hm'⟩
      · exact .inl (hd.mono fun x hx => by simp [hx])
      · exact .inr ⟨hl', hm' (hm₂ (.inr ⟨hpos₂, hnear⟩))⟩

/-- The next scan at its time or later settles it. -/
theorem Trace.settled (h : Trace s L (p ++ .scan n :: (q ++ .scanEnd :: r)) s' L') (hpos : Positive s'.log)
    (hl : Live s t E) (hun : Unarmed (p ++ .scan n :: q) t) (hnear : t ∈ L 0 ∨ ∃ k, .scan k ∈ p ∧ E - k < 2)
    (hle : E ≤ n) : Dropped p t ∨ Out n q t := by
  have hlog := h.log
  obtain ⟨s₁, L₁, s₂, L₂, ev, q', ht₁, rfl, hs, hq, ht₂⟩ := h.scan
  have hnot : .scanEnd ∉ ev := fun hm => hs.about _ hm
  obtain ⟨q₂, rfl, -⟩ := split_of_notMem hq hnot
  have hpos₁ : Positive s₁.log := by
    rw [ht₂.log, hs.log, List.append_assoc] at hpos
    exact hpos.of_append
  rcases ht₁.placed hpos₁ hl (hun.mono (by simp)) hnear with hd | ⟨hl₁, hm₁⟩
  · exact .inl hd
  · refine .inr ((hs.handled t hm₁ E hl₁ hle (hun.mono fun x hx => by simp [hx])).left)

/-! ## Runs -/

theorem Trace.arm (h : Trace s L (p ++ .arm t E a i :: q) s' L') (h0 : s.log = []) :
    ∃ s₁ L₁ r c, q = r ++ c ∧ Trace s₁ L₁ c s' L' ∧ s₁.log = p ++ .arm t E a i :: r ∧ (∀ n, .scan n ∉ r) ∧
      (BetweenScans p → r = [] ∧ (E = a + 1 → t ∈ L₁ 0)) := by
  obtain ⟨s₁, L₁, s₂, L₂, p₁, m₁, m₂, q₂, rfl, rfl, ht₁, hst, ht₂⟩ := h.locate rfl
  obtain ⟨hscan, hbetween⟩ := hst.arm ht₁.finish.shape
  refine ⟨s₂, L₂, m₂, q₂, rfl, ht₂, ?_, hscan, hbetween p₁⟩
  rw [hst.log, ht₁.log, h0, List.nil_append, List.append_assoc]

/-- A timer that is live when it is armed is settled by the first scan at its time or later that comes after one at
most a second ahead. -/
theorem Trace.fires {m q₁ q₂ l₃ : List Event} (h : Trace s L (p ++ .arm t E a i :: ((m ++ .scan n :: (q₁ ++ .scanEnd :: q₂)) ++ l₃)) s' L')
    (h0 : s.log = []) (hpos : Positive s'.log) (hun : Unarmed (m ++ .scan n :: (q₁ ++ .scanEnd :: q₂)) t) (hlive : ¬ Gone p t)
    (hnear : (BetweenScans p ∧ E = a + 1) ∨ ∃ k, .scan k ∈ m ∧ E - k < 2) (hle : E ≤ n) :
    Dropped m t ∨ Out n q₁ t := by
  obtain ⟨s₁, L₁, r, c, hq, htr, hlog, hscan, hbetween⟩ := h.arm h0
  simp only [List.append_assoc, List.cons_append] at hq
  obtain ⟨m', rfl, rfl⟩ := split_of_notMem hq (hscan n)
  rcases live_of_arm htr.start.history hlog (hun.mono fun x hx => by simp [hx]) hlive with hd | hl
  · exact .inl (hd.mono (by simp))
  have hplace : t ∈ L₁ 0 ∨ ∃ k, .scan k ∈ m' ∧ E - k < 2 := by
    rcases hnear with ⟨hb, he⟩ | ⟨k, hk, hd⟩
    · exact .inl ((hbetween hb).2 he)
    · exact .inr ⟨k, (List.mem_append.mp hk).resolve_left (hscan k), hd⟩
  have hun' : Unarmed (m' ++ .scan n :: q₁) t := hun.mono fun x hx => by
    simp only [List.mem_append, List.mem_cons] at hx ⊢
    grind
  rcases htr.settled hpos hl hun' hplace hle with hd | ho
  · exact .inl (hd.mono (by simp))
  · exact .inr ho

theorem Trace.early {l₁ l₂ l₃ : List Event} {v : Int} (h : Trace s L (l₁ ++ .arm t E a i :: (l₂ ++ l₃)) s' L') (h0 : s.log = [])
    (hun : Unarmed l₂ t) (hc : .call t n v ∈ l₂) : E ≤ n := by
  obtain ⟨u, w, rfl⟩ := List.append_of_mem hc
  have hlog : s'.log = (l₁ ++ .arm t E a i :: u) ++ .call t n v :: (w ++ l₃) := by
    rw [h.log, h0]
    simp
  obtain ⟨⟨e, he, hle⟩, -⟩ := h.finish.history.calls _ _ _ hlog
  rw [List.append_cons, lastArm_append (hun.mono (by simp)), lastArm_concat] at he
  obtain rfl : E = e := by simpa [Event.armed] using he
  exact hle

/-- With scans at increasing times it is not called before the scan at its time. -/
theorem Trace.notCalled {l₁ m₁ m₂ l₃ : List Event} {v : Int} (h : Trace s L (l₁ ++ .arm t E a i :: ((m₁ ++ .scan E :: m₂) ++ l₃)) s' L')
    (h0 : s.log = []) (hinc : Increasing (l₁ ++ .arm t E a i :: ((m₁ ++ .scan E :: m₂) ++ l₃)))
    (hun : Unarmed (m₁ ++ .scan E :: m₂) t) : .call t n v ∉ m₁ := by
  intro hc
  have hle := h.early h0 hun (List.mem_append_left _ hc)
  obtain ⟨u, w, rfl⟩ := List.append_of_mem hc
  have hassoc : l₁ ++ .arm t E a i :: (((u ++ .call t n v :: w) ++ .scan E :: m₂) ++ l₃) =
      (l₁ ++ .arm t E a i :: u) ++ .call t n v :: (w ++ .scan E :: (m₂ ++ l₃)) := by
    simp
  rw [hassoc] at h hinc
  have hlt := hinc.lt h.call (List.mem_cons_of_mem _ (List.mem_append_right w List.mem_cons_self))
  omega

theorem Increasing.mem_left (h : Increasing (p ++ .scan E :: q)) (hm : .scan n ∈ p ++ .scan E :: q) (hlt : n < E) : .scan n ∈ p := by
  rcases List.mem_append.mp hm with hm | hm
  · exact hm
  rcases List.mem_cons.mp hm with heq | hm
  · have := Event.scan.inj heq
    omega
  · rw [List.append_cons] at h
    have := h.lt (List.mem_append_right p (List.mem_singleton_self _)) hm
    omega

theorem Increasing.mid (h : Increasing (p ++ (q ++ r))) : Increasing q := by
  unfold Increasing at h ⊢
  rw [List.filterMap_append, List.filterMap_append, List.pairwise_append, List.pairwise_append] at h
  exact h.2.1.1

theorem good_setup (stale : Fin 5 → Int) (now : Int) : Good none ((Timers.boot stale).setupTimer now) fun _ => [] :=
  ⟨shape_setup stale now, history_setup stale now, fun _ _ _ _ hm => absurd hm List.not_mem_nil⟩

theorem Trace.onTime (htr : Trace s L s'.log s' L') (h0 : s.log = []) (hpos : Positive s'.log)
    (hinc : Increasing s'.log) : OnTime s'.log := by
  refine ⟨fun p n q hlog => ?_, fun l t n v l' hlog => (htr.finish.history.calls l _ l' hlog).2, ?_, ?_, ?_⟩
  · rw [hlog] at htr
    obtain ⟨s₁, L₁, s₂, L₂, ev, q', -, -, -, rfl, -⟩ := htr.scan
    exact List.mem_append_right _ List.mem_cons_self
  · intro l₁ t E a i l₂ l₃ hlog hun n v hc
    rw [hlog] at htr
    exact htr.early h0 hun hc
  · intro l₁ t E a i l₂ l₃ hlog hun hlive m₁ n₁ m₂ n₂ m₃ m₄ hl₂ h₁ h₂
    have hassoc : l₂ = (m₁ ++ .scan n₁ :: m₂) ++ .scan n₂ :: (m₃ ++ .scanEnd :: m₄) := by
      rw [hl₂]
      simp
    rw [hassoc] at hlog hun
    rw [hlog] at htr
    rcases htr.fires h0 hpos hun hlive (.inr ⟨n₁, by simp, by omega⟩) h₂ with hd | ho
    · exact hd.mono fun x hx => by
        simp only [List.mem_append, List.mem_cons] at hx ⊢
        grind
    · exact ho.dropped.mono fun x hx => by simp [hx]
  · intro l₁ t E a i l₂ l₃ hlog hun hlive hbetween hlt hevery m₁ m₂ m₃ hl₂
    rw [hl₂] at hlog hun hevery
    rw [hlog] at htr hinc
    have hnone : ∀ n v, .call t n v ∉ m₁ := fun n v => htr.notCalled h0 hinc hun
    -- a second before its time the timer comes to `vec[0]`, if it is not there at once
    have hnear : (BetweenScans l₁ ∧ E = a + 1) ∨ ∃ k, .scan k ∈ m₁ ∧ E - k < 2 := by
      by_cases hnext : E = a + 1
      · exact .inl ⟨hbetween, hnext⟩
      · have hsub := @Increasing.mid (l₁ ++ [.arm t E a i]) (m₁ ++ .scan E :: (m₂ ++ .scanEnd :: m₃)) l₃ (by simpa using hinc)
        exact .inr ⟨E - 1, hsub.mem_left (hevery (E - 1) (by omega) (by omega)) (by omega), by omega⟩
    refine ⟨hnone, ?_⟩
    rcases htr.fires h0 hpos hun hlive hnear (Int.le_refl E) with hd | ho
    · rcases hd with hr | ⟨n, v, hc⟩
      · exact .inl (List.mem_append_left _ hr)
      · exact absurd hc (hnone n v)
    · exact ho.imp (List.mem_append_right _) id

/-- In every run from `setup_timer`, with scans at increasing times and positive expire times, and callbacks that
only add and remove timers, the timers fire on time. With enough turns the run comes to its end, if all calls on
the way use timers that are there, and the callbacks of each scan add only so many due timers. -/
theorem run_onTime (stale : Fin 5 → Int) (now : Int) (actions : List Timers.Action)
    (hplain : ∀ a ∈ actions, PlainAction a) :
    (∀ s, ((Timers.boot stale).setupTimer now).run actions = .ok s → Positive s.log → Increasing s.log →
      OnTime s.log) ∧
    (Along FewDueAction ((Timers.boot stale).setupTimer now) actions →
      Along SucceedsAction ((Timers.boot stale).setupTimer now) actions →
      ∃ n s, ∀ turns, n ≤ turns →
        ((Timers.boot stale).setupTimer now).run (actions.map (withTurns turns)) = .ok s) := by
  constructor
  · intro s hrun hpos hinc
    obtain ⟨L, ev, htr⟩ := run_trace (good_setup stale now) hplain hrun
    obtain rfl : s.log = ev := htr.log
    exact htr.onTime rfl hpos hinc
  · intro hfew hsucc
    obtain ⟨s, n, hn⟩ := run_ends (good_setup stale now) hplain hfew hsucc
    exact ⟨n, s, hn⟩

/-! ## Two runs -/

theorem exists_of_log {x : Except Stop Timers} (h : x.map Timers.log = .ok log) : ∃ s, x = .ok s ∧ s.log = log := by
  cases x with
  | error e => cases h
  | ok s => exact ⟨s, rfl, Except.ok.inj h⟩

/-- A callback that starts another timer. -/
def restarts : Timers.Callback := fun s _ => ([.addEvent 0 7 0 0 (s.now + 5) .timerAddNewTimer], 0)

/-- A timer is scanned a second before its time and at its time, and the one that it starts as well. -/
def restartActions : List Timers.Action :=
  [.op (.addEvent 0 7 0 0 3 .timerAddNewTimer), .renewNow 2, .scan 5 restarts, .renewNow 3, .scan 5 restarts,
    .renewNow 7, .scan 5 restarts, .renewNow 8, .scan 5 restarts]

/-- The second timer starts in another list, and is moved to `vec[0]`. -/
def restartLog : List Event :=
  [.arm 0 3 1 0, .scan 2, .visit 0, .scanEnd, .scan 3, .visit 0, .call 0 3 0, .arm 1 8 3 1, .scanEnd, .scan 7, .scanEnd,
    .scan 8, .visit 1, .call 1 8 0, .arm 2 13 8 1, .scanEnd]

theorem dueEnds_restarts (s₀ : Timers) : DueEnds restarts s₀ 0 := by
  intro s t _ _ op hm
  obtain rfl := List.mem_singleton.mp hm
  show ¬ s.now + 5 ≤ s.now
  omega

theorem succeeds_restarts (s₀ : Timers) : Succeeds restarts s₀ := fun _ _ _ => ⟨_, rfl⟩

/-- Each timer is called at its time, and starts another one. -/
theorem run_onTime_restarts :
    (∃ s, ((Timers.boot fun _ => 0).setupTimer 1).run restartActions = .ok s ∧ s.log = restartLog ∧ OnTime s.log) ∧
    ∃ n s, ∀ turns, n ≤ turns →
      ((Timers.boot fun _ => 0).setupTimer 1).run (restartActions.map (withTurns turns)) = .ok s := by
  have hplain : ∀ a ∈ restartActions, PlainAction a := by
    simp [restartActions, PlainAction, AddsAndRemoves, restarts, TimerOp.changes]
  have hfew : ∀ a ∈ restartActions, ∀ s, FewDueAction s a := by
    have hscan : ∀ s₀, ∃ n, DueEnds restarts s₀ n := fun s₀ => ⟨0, dueEnds_restarts s₀⟩
    simp [restartActions, FewDueAction, hscan]
  have hsucc : ∀ a ∈ restartActions, ∀ s, SucceedsAction s a := by
    simp [restartActions, SucceedsAction, succeeds_restarts, Timers.runOp]
  obtain ⟨honTime, hends⟩ := run_onTime (fun _ => 0) 1 restartActions hplain
  obtain ⟨s, hrun, hlog⟩ := @exists_of_log restartLog (((Timers.boot fun _ => 0).setupTimer 1).run restartActions)
    (by decide +kernel)
  have hpos : Positive s.log := by
    intro t e n i hm
    rw [hlog] at hm
    simp only [restartLog, List.mem_cons, Event.arm.injEq, reduceCtorEq, false_or, List.not_mem_nil, or_false] at hm
    omega
  have hinc : Increasing s.log := by
    rw [hlog]
    unfold Increasing
    decide
  exact ⟨⟨s, hrun, hlog, honTime s hrun hpos hinc⟩, hends (along_of_forall hfew _) (along_of_forall hsucc _)⟩

/-- A timer is called at its time and then armed for a later one. -/
def laterActions : List Timers.Action :=
  [.op (.addEvent 0 7 0 0 3 .timerAddNewTimer), .renewNow 3, .scan 5 fun _ _ => ([], 1), .op (.modExpireTime 0 20)]

/-- A timer may have been called before the time that it was armed for last. -/
theorem not_early_of_lastArm : ¬ ∀ (stale : Fin 5 → Int) (now : Int) (actions : List Timers.Action) (s : Timers),
    (∀ a ∈ actions, PlainAction a) → ((Timers.boot stale).setupTimer now).run actions = .ok s → Positive s.log →
    Increasing s.log → ∀ t E, lastArm s.log t = some E → ∀ n v, .call t n v ∈ s.log → E ≤ n := by
  intro h
  obtain ⟨s, hrun, hlog⟩ := @exists_of_log [.arm 0 3 1 0, .scan 3, .visit 0, .call 0 3 1, .scanEnd, .arm 0 20 3 3]
    (((Timers.boot fun _ => 0).setupTimer 1).run laterActions) (by decide +kernel)
  have hplain : ∀ a ∈ laterActions, PlainAction a := by
    simp [laterActions, PlainAction, AddsAndRemoves]
  have hpos : Positive s.log := by
    intro t e n i hm
    rw [hlog] at hm
    simp only [List.mem_cons, Event.arm.injEq, reduceCtorEq, false_or, List.not_mem_nil, or_false] at hm
    omega
  have hinc : Increasing s.log := by
    rw [hlog]
    unfold Increasing
    decide
  have := h (fun _ => 0) 1 laterActions s hplain hrun hpos hinc 0 20 (by rw [hlog]; rfl) 3 1 (by rw [hlog]; simp)
  exact absurd this (by decide)

end Taomee.Timer
