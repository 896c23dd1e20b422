import Taomee.Timer.Lemmas.Sort

/-!
# Scans and runs

A scan moves every timer with at most a second to go to `vec[0]`, and handles what stood there. A
run notes what each of its actions does, one after the other; so a place in its log is a place in
one of its actions.
-/

namespace Taomee.Timer

variable {s s' s'' : Timers} {L L' : Fin 5 → List Nat} {t : Nat} {ev ev' : List Event}

/-! ## A scan -/

theorem scanLists_good (fuel : Nat) : ∀ {is : List (Fin 5)} {s : Timers} {L : Fin 5 → List Nat},
    (∀ i ∈ is, i ≠ 0) → Good none s L →
    s.scanLists fuel is ≠ .error .notTimer ∧ ∀ s', s.scanLists fuel is = .ok s' →
      ∃ L', Good none s' L' ∧ s'.now = s.now ∧ s'.log = s.log ∧ ∀ t e i, Live s t e → t ∈ L i →
        Live s' t e ∧ (i = 0 ∨ (Positive s.log ∧ e - s.now < 2 ∧ i ∈ is) → t ∈ L' 0)
  | [], s, L, _, h => by
      refine ⟨by simp [Timers.scanLists], fun s' hs' => ?_⟩
      obtain rfl := Except.ok.inj hs'
      refine ⟨L, h, rfl, rfl, fun t e i hl hm => ⟨hl, ?_⟩⟩
      rintro (rfl | ⟨-, -, hi⟩)
      · exact hm
      · exact absurd hi List.not_mem_nil
  | idx :: is, s, L, his, h => by
      have hidx := his idx List.mem_cons_self
      have his' : ∀ i ∈ is, i ≠ 0 := fun i hi => his i (List.mem_cons_of_mem _ hi)
      unfold Timers.scanLists
      by_cases hmin : s.minExpiringTime idx - s.now < 2
      · -- the list is scanned
        rw [if_pos hmin]
        obtain ⟨hsafe, hok⟩ := @scanTimerList_good _ _ idx h fuel
        refine ⟨fun he => ?_, fun s' hs' => ?_⟩
        · rcases bind_error.mp he with he | ⟨s1, h1, he⟩
          · exact hsafe he
          · obtain ⟨L1, hg1, -, -⟩ := hok s1 h1
            exact (scanLists_good fuel his' hg1).1 he
        · obtain ⟨s1, h1, hrest⟩ := bind_ok.mp hs'
          obtain ⟨L1, hg1, hs1, hplace⟩ := hok s1 h1
          obtain ⟨L', hg', hnow, hlog, hstay⟩ := (scanLists_good fuel his' hg1).2 s' hrest
          refine ⟨L', hg', hnow.trans hs1.now, hlog.trans hs1.log, fun t e i hl hm => ?_⟩
          obtain ⟨hl1, hm1⟩ := hs1.live t e i hl hm
          have hnear : Positive s.log ∧ e - s.now < 2 ∧ i = idx → t ∈ L1 0 := by
            rintro ⟨-, hd, rfl⟩
            have := hplace t hm e hl
            rwa [findMinIdx_zero h.shape (by omega)] at this
          rcases hm1 with hm1 | ⟨rfl, hm1⟩
          · obtain ⟨hl', hm'⟩ := hstay t e i hl1 hm1
            refine ⟨hl', fun hor => ?_⟩
            rcases hor with hi | ⟨hpos, hd, hi⟩
            · exact hm' (.inl hi)
            · rcases List.mem_cons.mp hi with hi | hi
              · exact (hstay t e 0 hl1 (hnear ⟨hpos, hd, hi⟩)).2 (.inl rfl)
              · exact hm' (.inr ⟨hs1.log ▸ hpos, hs1.now ▸ hd, hi⟩)
          · obtain ⟨hl', -⟩ := hstay t e _ hl1 hm1
            refine ⟨hl', fun hor => ?_⟩
            rcases hor with hi | ⟨hpos, hd, -⟩
            · exact absurd hi hidx
            · exact (hstay t e 0 hl1 (hnear ⟨hpos, hd, rfl⟩)).2 (.inl rfl)
      · -- no timer of the list is near
        rw [if_neg hmin]
        obtain ⟨hsafe, hok⟩ := scanLists_good fuel his' h
        refine ⟨hsafe, fun s' hs' => ?_⟩
        obtain ⟨L', hg', hnow, hlog, hstay⟩ := hok s' hs'
        refine ⟨L', hg', hnow, hlog, fun t e i hl hm => ?_⟩
        obtain ⟨hl', hm'⟩ := hstay t e i hl hm
        refine ⟨hl', fun hor => hm' (hor.imp_right fun ⟨hpos, hd, hi⟩ => ⟨hpos, hd, ?_⟩)⟩
        rcases List.mem_cons.mp hi with rfl | hi
        · have := h.minima hpos i hidx t hm e hl
          omega
        · exact hi

/-- What a scan at the time `s.now` does, with `ev` between its start and its end. -/
structure Scanned (ev : List Event) (s : Timers) (L : Fin 5 → List Nat) (s' : Timers)
    (L' : Fin 5 → List Nat) : Prop where
  log : s'.log = s.log ++ .scan s.now :: (ev ++ [.scanEnd])
  about : ∀ e ∈ ev, e.Within s.now
  stay : ∀ t e i, Live s t e → t ∈ L i → Unarmed ev t → Out s.now ev t ∨ (Live s' t e ∧
    (i = 0 ∨ (Positive s'.log ∧ e - s.now < 2) → t ∈ L' 0))
  handled : ∀ t ∈ L 0, ∀ e, Live s t e → e ≤ s.now → Unarmed ev t → Out s.now ev t

theorem good_scan {e : Event} (h : Good none s L) (he : e = .scan s.now ∨ e = .scanEnd) :
    Good none (s.emit e) L := by
  rcases he with rfl | rfl
  · exact h.note (fun _ => rfl) (fun _ => ⟨by simp, by simp⟩) trivial fun t' ht' => by cases ht'
  · exact h.note (fun _ => rfl) (fun _ => ⟨by simp, by simp⟩) trivial fun t' ht' => by cases ht'

theorem scanSecondsTimer_good {cb : Timers.Callback} (hg : Guarded cb (s.emit (.scan s.now))) (h : Good none s L)
    (fuel : Nat) : s.scanSecondsTimer fuel cb ≠ .error .notTimer ∧
      ∀ s', s.scanSecondsTimer fuel cb = .ok s' →
        ∃ L' ev, Good none s' L' ∧ Scanned ev s L s' L' := by
  have hstart := good_scan h (.inl rfl)
  have hnext : (s.emit (.scan s.now)).links.next (.head 0) = ptrAt 0 (L 0) := next_head h.shape 0
  have hne : ∀ i ∈ ([1, 2, 3, 4] : List (Fin 5)), i ≠ 0 := by decide
  have hall : ∀ i : Fin 5, i = 0 ∨ i ∈ ([1, 2, 3, 4] : List (Fin 5)) := by decide
  obtain ⟨hsafe, hok⟩ := scanLoop_leads hg fuel (at_start hstart.shape) rfl
  unfold Timers.scanSecondsTimer
  simp only [hnext]
  refine ⟨fun he => ?_, fun s' hs' => ?_⟩
  · rcases bind_error.mp he with he | ⟨s1, h1, he⟩
    · exact hsafe he
    · obtain ⟨L1, ev, hl1, -⟩ := hok s1 h1
      rcases bind_error.mp he with he | ⟨s2, -, he⟩
      · exact (scanLists_good fuel hne (hl1.good hstart)).1 he
      · cases he
  · obtain ⟨s1, h1, hs'⟩ := bind_ok.mp hs'
    obtain ⟨s2, h2, hs'⟩ := bind_ok.mp hs'
    obtain rfl := Except.ok.inj hs'
    obtain ⟨L1, ev, hl1, hsettled⟩ := hok s1 h1
    have hk := hl1.keeps
    obtain ⟨L2, hg2, hnow2, hlog2, hstay⟩ := (scanLists_good fuel hne (hl1.good hstart)).2 s2 h2
    have hlog : s1.log = s.log ++ .scan s.now :: ev := by
      rw [hk.log]
      simp [Timers.emit]
    refine ⟨L2, ev, good_scan hg2 (.inr rfl), ?_, hk.about, fun t e i hl hm hun => ?_,
      fun t ht e hl hle hun => (hsettled t ht ⟨e, hl, hle⟩).out hun⟩
    · simp [Timers.emit, hlog2, hlog]
    · refine (hk.stay t e i hl hm hun).imp_right fun h1 => ?_
      obtain ⟨hl1, hm1⟩ := h1
      obtain ⟨hl2, hm2⟩ := hstay t e i hl1 hm1
      refine ⟨hl2, fun hor => hm2 ?_⟩
      rcases hor with hi | ⟨hpos, hd⟩
      · exact .inl hi
      · refine (hall i).imp_right fun hi => ⟨?_, hk.now ▸ hd, hi⟩
        rw [← hlog2]
        exact hpos.of_append

/-! ## Actions -/

/-- The timer `t` is removed or called. -/
def Dropped (ev : List Event) (t : Nat) : Prop := .remove t ∈ ev ∨ ∃ n v, .call t n v ∈ ev

/-- A live timer stays live until it is armed, removed or called, and stays in `vec[0]`. -/
def Stays (ev : List Event) (s : Timers) (L : Fin 5 → List Nat) (s' : Timers)
    (L' : Fin 5 → List Nat) : Prop :=
  ∀ t e, Live s t e → Unarmed ev t → Dropped ev t ∨ (Live s' t e ∧ (t ∈ L 0 → t ∈ L' 0))

theorem Out.dropped {n : Int} (h : Out n ev t) : Dropped ev t :=
  h.imp_right fun ⟨v, hv⟩ => ⟨n, v, hv⟩

theorem Dropped.left (h : Dropped ev t) : Dropped (ev ++ ev') t :=
  h.imp (List.mem_append_left _) fun ⟨n, v, hv⟩ => ⟨n, v, List.mem_append_left _ hv⟩

theorem Dropped.right (h : Dropped ev' t) : Dropped (ev ++ ev') t :=
  h.imp (List.mem_append_right _) fun ⟨n, v, hv⟩ => ⟨n, v, List.mem_append_right _ hv⟩

theorem Shape.mem_of_live (h : Shape s L) {e : Int} (hl : Live s t e) : ∃ i, t ∈ L i := by
  obtain ⟨ts, ht, -⟩ := hl
  exact (h.alloc t).mp (by rw [ht]; exact Option.some_ne_none _)

/-- What an action does: something between scans, or a scan. -/
inductive ActionStep (s : Timers) (L : Fin 5 → List Nat) (s' : Timers) (L' : Fin 5 → List Nat) :
    List Event → Prop
  | quiet : s'.log = s.log → s'.timers = s.timers → L' = L → ActionStep s L s' L' []
  | op (ev : List Event) (c : Option Nat) : Keeps ev s L s' L' → OpStep s L s' c L' →
      ActionStep s L s' L' ev
  | scan (ev : List Event) : Scanned ev s L s' L' →
      ActionStep s L s' L' (.scan s.now :: (ev ++ [.scanEnd]))

theorem ActionStep.log (h : ActionStep s L s' L' ev) : s'.log = s.log ++ ev := by
  cases h with
  | quiet hlog _ _ => rw [hlog, List.append_nil]
  | op ev c hk _ => exact hk.log
  | scan ev hs => exact hs.log

theorem ActionStep.stays (hs : Shape s L) (h : ActionStep s L s' L' ev) : Stays ev s L s' L' := by
  intro t e hl hun
  obtain ⟨i, hi⟩ := hs.mem_of_live hl
  cases h with
  | quiet hlog htimers hL =>
      refine .inr ⟨?_, fun hm => hL ▸ hm⟩
      unfold Live
      rw [htimers]
      exact hl
  | op ev c hk _ =>
      refine (hk.stay t e i hl hi hun).imp Out.dropped fun ⟨hl', hm'⟩ => ⟨hl', fun hm => ?_⟩
      obtain rfl := hs.unique hi hm
      exact hm'
  | scan ev hsc =>
      have hun' : Unarmed ev t := fun x hx => hun x (by simp [hx])
      rcases hsc.stay t e i hl hi hun' with ho | ⟨hl', hm'⟩
      · exact .inl (@Dropped.right _ [.scan s.now] _ ho.dropped.left)
      · exact .inr ⟨hl', fun hm => hm' (.inl (hs.unique hi hm))⟩

/-- Callbacks add new timers and mark timers as removed. -/
def AddsAndRemoves (cb : Timers.Callback) : Prop :=
  ∀ s t, ∀ op ∈ (cb s t).1, ∀ s', TimerOp.changes s' op = none

/-- What callbacks may do in a run. -/
def PlainAction : Timers.Action → Prop
  | .scan _ cb => AddsAndRemoves cb
  | _ => True

theorem avoids_of_plain {x : Nat} : ∀ {ops : List Timers.TimerOp} {s : Timers},
    (∀ op ∈ ops, ∀ s', TimerOp.changes s' op = none) → Avoids x s ops
  | [], _, _ => trivial
  | op :: ops, s, h => by
      refine ⟨fun hc => ?_, fun s' _ => avoids_of_plain fun op hm => h op (List.mem_cons_of_mem _ hm)⟩
      rw [h op List.mem_cons_self] at hc
      cases hc

theorem AddsAndRemoves.guarded {cb : Timers.Callback} (h : AddsAndRemoves cb) (s₀ : Timers) : Guarded cb s₀ :=
  fun s t _ => ⟨avoids_of_plain (h s t), nextStays_of_avoids fun _ _ => avoids_of_plain (h s t)⟩

theorem runAction_good {a : Timers.Action} (h : Good none s L) (ha : PlainAction a) (hrun : s.runAction a = .ok s') :
    ∃ L' ev, Good none s' L' ∧ ActionStep s L s' L' ev := by
  cases a with
  | renewNow now =>
      obtain rfl := Except.ok.inj hrun
      exact ⟨L, [], ⟨h.shape.setNow now, h.history.congr rfl rfl rfl, h.minima⟩, .quiet rfl rfl rfl⟩
  | op op =>
      obtain ⟨L', ev, hl, hst⟩ := runOp_leads h.shape hrun
      exact ⟨L', ev, (hl none).good h, .op ev _ (hl none).keeps hst⟩
  | scan fuel cb =>
      obtain ⟨L', ev, hg, hs⟩ := (scanSecondsTimer_good (ha.guarded _) h fuel).2 s' hrun
      exact ⟨L', _, hg, .scan ev hs⟩

/-! ## Runs -/

/-- Actions that note `ev` one after the other. -/
inductive Trace : Timers → (Fin 5 → List Nat) → List Event → Timers → (Fin 5 → List Nat) → Prop
  | refl {s : Timers} {L : Fin 5 → List Nat} : Good none s L → Trace s L [] s L
  | step {s s₁ s' : Timers} {L L₁ L' : Fin 5 → List Nat} {ev ev' : List Event} : Good none s L →
      ActionStep s L s₁ L₁ ev → Trace s₁ L₁ ev' s' L' → Trace s L (ev ++ ev') s' L'

theorem run_trace : ∀ {actions : List Timers.Action} {s s' : Timers} {L : Fin 5 → List Nat}, Good none s L →
    (∀ a ∈ actions, PlainAction a) → s.run actions = .ok s' → ∃ L' ev, Trace s L ev s' L'
  | [], s, s', L, h, _, hrun => by
      obtain rfl := Except.ok.inj hrun
      exact ⟨L, [], .refl h⟩
  | a :: actions, s, s', L, h, ha, hrun => by
      obtain ⟨s₁, haction, hrest⟩ := bind_ok.mp hrun
      obtain ⟨L₁, ev, hg, hst⟩ := runAction_good h (ha a List.mem_cons_self) haction
      obtain ⟨L', ev', htr⟩ := run_trace hg (fun a hm => ha a (List.mem_cons_of_mem _ hm)) hrest
      exact ⟨L', ev ++ ev', .step h hst htr⟩

variable {p q r : List Event} {e : Event} {n : Int}

theorem Trace.start (h : Trace s L ev s' L') : Good none s L := by
  cases h with
  | refl hg => exact hg
  | step hg => exact hg

theorem Trace.finish (h : Trace s L ev s' L') : Good none s' L' := by
  induction h with
  | refl hg => exact hg
  | step _ _ _ ih => exact ih

theorem Trace.log (h : Trace s L ev s' L') : s'.log = s.log ++ ev := by
  induction h with
  | refl => rw [List.append_nil]
  | step _ hst _ ih => rw [ih, hst.log, List.append_assoc]

theorem Trace.stays (h : Trace s L ev s' L') : Stays ev s L s' L' := by
  induction h with
  | refl => exact fun t e hl _ => .inr ⟨hl, id⟩
  | step hg hst _ ih =>
      intro t e hl hun
      obtain ⟨hu, hu'⟩ := Unarmed.append.mp hun
      rcases hst.stays hg.shape t e hl hu with hd | ⟨hl₁, hm₁⟩
      · exact .inl hd.left
      · exact (ih t e hl₁ hu').imp Dropped.right fun ⟨hl', hm'⟩ => ⟨hl', hm' ∘ hm₁⟩

/-- An event of the log stands in one action. -/
theorem Trace.locate (h : Trace s L ev s' L') : ∀ {p : List Event}, ev = p ++ e :: q →
    ∃ s₁ L₁ s₂ L₂ p₁ m₁ m₂ q₂, p = p₁ ++ m₁ ∧ q = m₂ ++ q₂ ∧ Trace s L p₁ s₁ L₁ ∧
      ActionStep s₁ L₁ s₂ L₂ (m₁ ++ e :: m₂) ∧ Trace s₂ L₂ q₂ s' L' := by
  induction h with
  | refl => exact fun heq => absurd heq (by simp)
  | @step s s₁ s' L L₁ L' ev ev' hg hst htr ih =>
      intro p heq
      -- it comes later
      have hlater : ∀ {as : List Event}, p = ev ++ as → ev' = as ++ e :: q →
          ∃ s₁ L₁ s₂ L₂ p₁ m₁ m₂ q₂, p = p₁ ++ m₁ ∧ q = m₂ ++ q₂ ∧ Trace s L p₁ s₁ L₁ ∧
            ActionStep s₁ L₁ s₂ L₂ (m₁ ++ e :: m₂) ∧ Trace s₂ L₂ q₂ s' L' := by
        intro as hp hev'
        obtain ⟨s₂, L₂, s₃, L₃, p₁, m₁, m₂, q₂, has, hq, ht₁, hst', ht₂⟩ := ih hev'
        exact ⟨s₂, L₂, s₃, L₃, ev ++ p₁, m₁, m₂, q₂, by rw [hp, has, List.append_assoc], hq, .step hg hst ht₁, hst', ht₂⟩
      rcases List.append_eq_append_iff.mp heq with ⟨as, hp, hev'⟩ | ⟨bs, hev, hrest⟩
      · exact hlater hp hev'
      · cases bs with
        | nil => exact @hlater [] (by rw [hev, List.append_nil, List.append_nil]) hrest.symm
        | cons b bs =>
            obtain ⟨rfl, hq⟩ := List.cons.inj hrest
            exact ⟨s, L, s₁, L₁, [], p, bs, ev', rfl, hq, .refl hg, hev ▸ hst, htr⟩

/-- What a call of the interface notes. A timer whose time is the next second goes to `vec[0]`. -/
theorem OpStep.events {c : Option Nat} (hs : Shape s L) (h : OpStep s L s' c L') (hlog : s'.log = s.log ++ ev) :
    ev = [] ∨ (∃ t, ev = [.remove t]) ∨ ∃ t e i, ev = [.arm t e s.now i] ∧ (e = s.now + 1 → t ∈ L' 0) := by
  have hev : ∀ {ev'}, s'.log = s.log ++ ev' → ev = ev' := fun hlog' => List.append_cancel_left (hlog.symm.trans hlog')
  cases h with
  | skip c heq => exact .inl (hev (by rw [heq, List.append_nil]))
  | add ts i hf hi htimers hfresh hnow hlog' =>
      refine .inr (.inr ⟨_, _, i, hev hlog', fun he => mem_appended.mpr (.inr ⟨rfl, ?_⟩)⟩)
      have hdiff : toI32 (ts.expire - s.now) ≤ 4 := by
        rw [he, show s.now + 1 - s.now = 1 by omega]
        decide
      rw [hi, hs.vecIdx_zero hdiff]
  | change t ts e i hts hi htimers hfresh hnow hlog' =>
      refine .inr (.inr ⟨_, _, i, hev hlog', fun he => mem_appended.mpr (.inr ⟨rfl, ?_⟩)⟩)
      rw [hi, hs.vecIdx_zero (by omega)]
  | mark t ts hts htimers hfresh hnow hlog' => exact .inr (.inl ⟨t, hev hlog'⟩)

/-- Within an action only its first event is the start of a scan. -/
theorem ActionStep.first (h : ActionStep s L s' L' (p ++ .scan n :: q)) :
    p = [] ∧ s.now = n ∧ ∃ ev, Scanned ev s L s' L' ∧ q = ev ++ [.scanEnd] := by
  generalize hev : p ++ .scan n :: q = ev at h
  cases h with
  | quiet => exact absurd hev (by simp)
  | op ev c hk => exact (hk.about (.scan n) (by rw [← hev]; simp)).elim
  | scan ev hs =>
      cases p with
      | nil =>
          obtain ⟨hn, hq⟩ := List.cons.inj hev
          exact ⟨rfl, (Event.scan.inj hn).symm, ev, hs, hq⟩
      | cons x p =>
          have hm : .scan n ∈ ev ++ [.scanEnd] := by
            rw [← (List.cons.inj hev).2]
            simp
          rcases List.mem_append.mp hm with hm | hm
          · exact (hs.about _ hm).elim
          · exact absurd (List.mem_singleton.mp hm) (fun h => nomatch h)

theorem Trace.scan (h : Trace s L (p ++ .scan n :: q) s' L') :
    ∃ s₁ L₁ s₂ L₂ ev q', Trace s L p s₁ L₁ ∧ s₁.now = n ∧ Scanned ev s₁ L₁ s₂ L₂ ∧ q = ev ++ .scanEnd :: q' ∧
      Trace s₂ L₂ q' s' L' := by
  obtain ⟨s₁, L₁, s₂, L₂, p₁, m₁, m₂, q₂, hp, hq, ht₁, hst, ht₂⟩ := h.locate rfl
  obtain ⟨rfl, hn, ev, hs, rfl⟩ := hst.first
  rw [List.append_nil] at hp
  exact ⟨s₁, L₁, s₂, L₂, ev, q₂, hp ▸ ht₁, hn, hs, by rw [hq, List.append_assoc]; rfl, ht₂⟩

/-- A call stands behind the start of its scan. -/
theorem Trace.call {v : Int} (h : Trace s L (p ++ .call t n v :: q) s' L') : .scan n ∈ p := by
  obtain ⟨s₁, L₁, s₂, L₂, p₁, m₁, m₂, q₂, hp, -, ht₁, hst, -⟩ := h.locate rfl
  rw [hp]
  refine List.mem_append_right _ ?_
  generalize hev : m₁ ++ .call t n v :: m₂ = ev at hst
  have hm : .call t n v ∈ ev := by
    rw [← hev]
    simp
  have hg := ht₁.finish
  cases hst with
  | quiet => exact absurd hm List.not_mem_nil
  | op ev c hk hop =>
      rcases hop.events hg.shape hk.log with rfl | ⟨t', rfl⟩ | ⟨t', e, i, rfl, -⟩
      · exact absurd hm List.not_mem_nil
      · exact absurd (List.mem_singleton.mp hm) (fun h => nomatch h)
      · exact absurd (List.mem_singleton.mp hm) (fun h => nomatch h)
  | scan ev hs =>
      cases m₁ with
      | nil => exact absurd (List.cons.inj hev).1 (fun h => nomatch h)
      | cons x m₁ =>
          have hn : n = s₁.now := by
            rcases List.mem_cons.mp hm with h | h
            · cases h
            · rcases List.mem_append.mp h with h | h
              · exact hs.about _ h
              · exact absurd (List.mem_singleton.mp h) (fun h => nomatch h)
          rw [(List.cons.inj hev).1, hn]
          exact List.mem_cons_self

end Taomee.Timer
