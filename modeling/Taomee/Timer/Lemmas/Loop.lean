import Taomee.Timer.Lemmas.Minima

/-!
# The loop over vec[0]

The loop saves the successor of the timer whose callback it calls. It stays in its list, and comes to
every timer that is due, as long as the successor is still in `vec[0]` when the callback returns, in
front of the due timers that followed it.
-/

namespace Taomee.Timer

variable {s s' s'' s₀ : Timers} {L L' L'' : Fin 5 → List Nat} {t : Nat} {c : Option Nat}
variable {ev ev' : List Event} {todo todo' : List Nat} {cb : Timers.Callback}

/-! ## What callbacks may not do -/

/-- The calls do not change the expire time of the timer `x`. -/
def Avoids (x : Nat) : Timers → List Timers.TimerOp → Prop
  | _, [] => True
  | s, op :: ops =>
      TimerOp.changes s op ≠ some x ∧ ∀ s', s.runOp op = .ok s' → Avoids x s' ops

/-- The state in which the callback of `t` makes its calls. -/
def called (cb : Timers.Callback) (s : Timers) (t : Nat) : Timers :=
  s.emit (.call t s.now (cb s t).2)

/-- When the callback of `t` returns, the timer that is saved as the next one is still in `vec[0]`, and the due
timers that followed it there follow it still. -/
def NextStays (cb : Timers.Callback) (s : Timers) (t : Nat) : Prop :=
  ∀ L x s' L', Shape s L → t ∈ L 0 → s.links.next (.entry t) = .entry x →
    (called cb s t).runOps (cb s t).1 = .ok s' → Shape s' L' →
    x ∈ L' 0 ∧ ∀ y, Behind (L 0) x y → y ∈ L' 0 → Due s' y → Behind (L' 0) x y

/-- The loop over `vec[0]` that starts in `s₀` comes to `l`, with `p` saved, in the state `s`. -/
inductive Turns (cb : Timers.Callback) (s₀ : Timers) : Timers → Ptr → Ptr → Prop
  | start : Turns cb s₀ s₀ (s₀.links.next (.head 0)) (s₀.links.next (s₀.links.next (.head 0)))
  | turn {s s' : Timers} {t : Nat} {ts : TimerStruct} {p : Ptr} : Turns cb s₀ s (.entry t) p →
      s.timers t = some ts → (s.emit (.visit t)).handleTimer cb t ts = .ok s' →
      Turns cb s₀ s' p (s'.links.next p)

/-- The loop that starts in `s₀` calls the callback of `t` in the state `s`. -/
def Calls (cb : Timers.Callback) (s₀ s : Timers) (t : Nat) : Prop :=
  ∃ s₁ p ts, Turns cb s₀ s₁ (.entry t) p ∧ s₁.timers t = some ts ∧ ts.function ≠ none ∧ ts.expire ≤ s₁.now ∧
    s = s₁.emit (.visit t)

/-- Each callback that the loop calls leaves the expire time of its own timer alone, and the next timer in place. -/
def Guarded (cb : Timers.Callback) (s₀ : Timers) : Prop :=
  ∀ s t, Calls cb s₀ s t → Avoids t (called cb s t) (cb s t).1 ∧ NextStays cb s t

/-! ## The next timer -/

/-- The pointer to the first of the timers that follow in the list `i`, or to its head. -/
def ptrAt (i : Fin 5) (todo : List Nat) : Ptr := (todo.map Ptr.entry).headD (.head i)

theorem next_entry (h : Shape s L) {i : Fin 5} {done : List Nat} (h0 : L i = done ++ t :: todo) :
    s.links.next (.entry t) = ptrAt i todo := by
  have hr := h.rings.ring i
  rw [h0, List.map_append, List.map_cons] at hr
  exact hr.next

theorem next_head (h : Shape s L) (i : Fin 5) : s.links.next (.head i) = ptrAt i (L i) :=
  (h.rings.ring i).next_head

/-! ## A callback -/

/-- What holds between turns: the lists, the log and the minima agree. -/
structure Good (busy : Option Nat) (s : Timers) (L : Fin 5 → List Nat) : Prop where
  shape : Shape s L
  history : History busy s
  minima : Minima s L

/-- What happens, `ev`, leaves lists behind, and everything in agreement if it was before. -/
structure Leads (busy busy' : Option Nat) (ev : List Event) (s : Timers) (L : Fin 5 → List Nat) (s' : Timers)
    (L' : Fin 5 → List Nat) : Prop where
  shape : Shape s' L'
  keeps : Keeps ev s L s' L'
  good : Good busy s L → Good busy' s' L'

theorem Leads.refl {busy : Option Nat} (h : Shape s L) : Leads busy busy [] s L s L :=
  ⟨h, Keeps.refl s L, id⟩

theorem Leads.trans {b b' b'' : Option Nat} (h : Leads b b' ev s L s' L') (h' : Leads b' b'' ev' s' L' s'' L'') :
    Leads b b'' (ev ++ ev') s L s'' L'' :=
  ⟨h'.shape, h.keeps.trans h'.keeps, h'.good ∘ h.good⟩

theorem bind_ok {α β : Type} {x : Except Stop α} {f : α → Except Stop β} {b : β} :
    (x >>= f) = .ok b ↔ ∃ a, x = .ok a ∧ f a = .ok b := by
  cases x with
  | error e =>
      constructor
      · intro h
        cases h
      · rintro ⟨a, ha, -⟩
        cases ha
  | ok a =>
      constructor
      · exact fun h => ⟨a, rfl, h⟩
      · rintro ⟨a', ha, h⟩
        cases ha
        exact h

theorem bind_error {α β : Type} {x : Except Stop α} {f : α → Except Stop β} {e : Stop} :
    (x >>= f) = .error e ↔ x = .error e ∨ ∃ a, x = .ok a ∧ f a = .error e := by
  cases x with
  | error e' =>
      constructor
      · intro h
        cases h
        exact .inl rfl
      · rintro (h | ⟨a, ha, -⟩)
        · cases h
          rfl
        · cases ha
  | ok a =>
      constructor
      · exact fun h => .inr ⟨a, rfl, h⟩
      · rintro (h | ⟨a', ha, h⟩)
        · cases h
        · cases ha
          exact h

/-- A timer that a call does not change stays in its list. -/
theorem OpStep.mem (hst : OpStep s L s' c L') (hc : c ≠ some t) {i : Fin 5} (hm : t ∈ L i) : t ∈ L' i := by
  cases hst with
  | skip => exact hm
  | add => exact mem_appended.mpr (.inl hm)
  | change t0 =>
      have hne : t ≠ t0 := fun he => hc (by rw [he])
      exact mem_appended.mpr (.inl (mem_without.mpr ⟨hm, hne⟩))
  | mark => exact hm

theorem runOp_leads (h : Shape s L) {op : Timers.TimerOp} (hrun : s.runOp op = .ok s') :
    ∃ L' ev, (∀ busy, Leads busy busy ev s L s' L') ∧ OpStep s L s' (TimerOp.changes s op) L' := by
  obtain ⟨L', hs', hst⟩ := runOp_step h hrun
  obtain ⟨ev, hk⟩ := hst.keeps h
  exact ⟨L', ev, fun busy => ⟨hs', hk, fun hg => ⟨hs', hg.history.step hst, hg.minima.step h hst⟩⟩, hst⟩

theorem runOps_leads : ∀ {ops : List Timers.TimerOp} {s s' : Timers} {L : Fin 5 → List Nat}, Shape s L →
    Avoids t s ops → s.runOps ops = .ok s' →
    ∃ L' ev, (∀ busy, Leads busy busy ev s L s' L') ∧ ∀ i, t ∈ L i → t ∈ L' i
  | [], s, s', L, h, _, hrun => by
      obtain rfl := Except.ok.inj hrun
      exact ⟨L, [], fun _ => Leads.refl h, fun _ hm => hm⟩
  | op :: ops, s, s', L, h, ha, hrun => by
      obtain ⟨s1, hop, hrest⟩ := bind_ok.mp hrun
      obtain ⟨L1, ev, hl, hst⟩ := runOp_leads h hop
      obtain ⟨L', ev', hl', hmem⟩ := runOps_leads (hl none).shape (ha.2 s1 hop) hrest
      exact ⟨L', ev ++ ev', fun busy => (hl busy).trans (hl' busy), fun i hm => hmem i (hst.mem ha.1 hm)⟩

/-- What a call leaves behind a timer whose expire time it does not change. -/
theorem OpStep.behind (hst : OpStep s L s' c L') {x y : Nat} (hc : c ≠ some x) (hx : x ∈ L 0)
    (hb : y ∈ L 0 → Behind (L 0) x y) (hy : y ∈ L' 0) : Behind (L' 0) x y := by
  have htail : ∀ {l : List Nat}, x ∈ l → Behind (l ++ [y]) x y := fun hm =>
    (List.singleton_sublist.mpr hm).append (List.Sublist.refl [y])
  cases hst with
  | skip => exact hb hy
  | mark => exact hb hy
  | add ts i =>
      rcases mem_appended.mp hy with hm | ⟨rfl, rfl⟩
      · by_cases h0 : i = 0
        · subst h0
          rw [appended_self]
          exact (hb hm).trans (List.sublist_append_left _ _)
        · rw [appended_of_ne (Ne.symm h0)]
          exact hb hm
      · rw [appended_self]
        exact htail hx
  | change t0 ts e i =>
      have hx0 : x ≠ t0 := fun he => hc (by rw [he])
      rcases mem_appended.mp hy with hm | ⟨rfl, rfl⟩
      · obtain ⟨hm, hy0⟩ := mem_without.mp hm
        have hwithout : Behind (without L t0 0) x y := by
          have := (hb hm).filter fun t' => decide (t' ≠ t0)
          rwa [List.filter_eq_self.mpr (by simp [hx0, hy0])] at this
        by_cases h0 : i = 0
        · subst h0
          rw [appended_self]
          exact hwithout.trans (List.sublist_append_left _ _)
        · rw [appended_of_ne (Ne.symm h0)]
          exact hwithout
      · rw [appended_self]
        exact htail (mem_without.mpr ⟨hx, hx0⟩)

theorem runOps_behind {x y : Nat} : ∀ {ops : List Timers.TimerOp} {s s' : Timers} {L : Fin 5 → List Nat}, Shape s L →
    Avoids x s ops → s.runOps ops = .ok s' → x ∈ L 0 → (y ∈ L 0 → Behind (L 0) x y) →
    ∃ L', Shape s' L' ∧ x ∈ L' 0 ∧ (y ∈ L' 0 → Behind (L' 0) x y)
  | [], s, s', L, h, _, hrun, hx, hb => by
      obtain rfl := Except.ok.inj hrun
      exact ⟨L, h, hx, hb⟩
  | op :: ops, s, s', L, h, ha, hrun, hx, hb => by
      obtain ⟨s1, hop, hrest⟩ := bind_ok.mp hrun
      obtain ⟨L1, hs1, hst⟩ := runOp_step h hop
      exact runOps_behind hs1 (ha.2 s1 hop) hrest (hst.mem ha.1 hx) (hst.behind ha.1 hx hb)

/-- A callback that does not change the expire time of the next timer leaves it in place. -/
theorem nextStays_of_avoids (h : ∀ x, s.links.next (.entry t) = .entry x → Avoids x (called cb s t) (cb s t).1) :
    NextStays cb s t := by
  intro L x s' L' hs ht hnext hrun hs'
  obtain ⟨done, todo, h0⟩ := List.append_of_mem ht
  have hx : x ∈ L 0 := by
    rw [next_entry hs h0] at hnext
    cases todo with
    | nil => cases hnext
    | cons y todo =>
        obtain rfl := Ptr.entry.inj hnext
        rw [h0]
        simp
  have hbehind : ∀ y, (y ∈ L 0 → Behind (L 0) x y) → x ∈ L' 0 ∧ (y ∈ L' 0 → Behind (L' 0) x y) := by
    intro y hy
    obtain ⟨L1, hs1, hx1, hb1⟩ := runOps_behind (hs.emit _) (h x hnext) hrun hx hy
    rw [hs1.unique_lists hs' rfl]
    exact ⟨hx1, hb1⟩
  refine ⟨(hbehind s.fresh fun hm => absurd hm (hs.notMem_fresh 0)).1, fun y hb hy _ => ?_⟩
  exact (hbehind y fun _ => hb).2 hy

theorem runOps_error : ∀ {ops : List Timers.TimerOp} {s : Timers} {e : Stop},
    s.runOps ops = .error e → e = .badTimer
  | [], _, _, h => by cases h
  | op :: ops, s, e, h => by
      rcases bind_error.mp h with h | ⟨s1, -, h⟩
      · exact runOp_error h
      · exact runOps_error h

/-! ## A turn of the loop -/

theorem handleTimer_error {ts : TimerStruct} {e : Stop} (h : s.handleTimer cb t ts = .error e) : e = .badTimer := by
  unfold Timers.handleTimer at h
  split at h
  · cases h
  split at h
  · rcases bind_error.mp h with h | ⟨s1, -, h⟩
    · exact runOps_error h
    · split at h <;> cases h
  · cases h

theorem handleTimer_ok {ts : TimerStruct} (h : ts.function ≠ none → ts.expire ≤ s.now →
    ∃ s', (called cb s t).runOps (cb s t).1 = .ok s') : ∃ s', s.handleTimer cb t ts = .ok s' := by
  unfold Timers.handleTimer
  by_cases hf : ts.function = none
  · rw [if_pos hf]
    exact ⟨_, rfl⟩
  rw [if_neg hf]
  by_cases hdue : ts.expire ≤ s.now
  · rw [if_pos hdue]
    obtain ⟨s1, hs1⟩ := h hf hdue
    unfold called at hs1
    generalize cb s t = calls at hs1 ⊢
    obtain ⟨ops, ret⟩ := calls
    dsimp only at hs1 ⊢
    rw [hs1]
    change ∃ s', (if ret = 0 then Except.ok (s1.doRemoveTimer t true) else Except.ok s1) = .ok s'
    by_cases hret : ret = 0
    · rw [if_pos hret]
      exact ⟨_, rfl⟩
    · rw [if_neg hret]
      exact ⟨_, rfl⟩
  · rw [if_neg hdue]
    exact ⟨_, rfl⟩

theorem Minima.emit (h : Minima s L) (e : Event) : Minima (s.emit e) L :=
  fun hpos => h hpos.of_append

theorem Good.note {busy : Option Nat} (h : Good busy s L) {e : Event} (harm : ∀ t, e.armed t = none)
    (hgone : ∀ t, e ≠ .remove t ∧ ∀ n, e ≠ .call t n 0) (hcall : CallOk s.log e)
    (hknown : ∀ t, e.timer = some t → t < s.fresh) : Good busy (s.emit e) L :=
  ⟨h.shape.emit e, h.history.note harm hgone hcall hknown, h.minima.emit e⟩

theorem free_timers (s : Timers) (t : Nat) :
    (s.doRemoveTimer t true).timers = Function.update s.timers t none := rfl

theorem free_live {t' : Nat} {e : Int} (hl : Live (s.doRemoveTimer t true) t' e) : Live s t' e := by
  obtain ⟨ts, ht, hf, he⟩ := hl
  rw [free_timers, Function.update_apply] at ht
  split at ht
  · cases ht
  · exact ⟨ts, ht, hf, he⟩

theorem live_free {t' : Nat} {e : Int} (hl : Live s t' e) (hne : t' ≠ t) :
    Live (s.doRemoveTimer t true) t' e := by
  obtain ⟨ts, ht, hf, he⟩ := hl
  exact ⟨ts, by rw [free_timers, Function.update_of_ne hne]; exact ht, hf, he⟩

theorem Good.free {busy : Option Nat} (h : Good busy s L) (ht : s.timers t ≠ none)
    (hg : Gone s.log t) (hb : busy = none ∨ busy = some t) :
    Good none (s.doRemoveTimer t true) (without L t) where
  shape := h.shape.freeTimer ht
  history := h.history.free hg hb
  minima := fun hpos i hi t' ht' e hl => h.minima hpos i hi t' (mem_without.mp ht').1 e (free_live hl)

theorem without_split (h : Shape s L) {i : Fin 5} {done : List Nat} (h0 : L i = done ++ t :: todo) :
    without L t i = done ++ todo := by
  have hnd := h.nodup i
  rw [h0, List.nodup_append, List.nodup_cons] at hnd
  unfold without
  rw [h0, List.filter_append, List.filter_cons_of_neg (by simp)]
  congr 1
  · exact List.filter_eq_self.mpr fun a ha => by
      simpa using fun he : a = t => hnd.2.2 a ha t List.mem_cons_self he
  · exact List.filter_eq_self.mpr fun a ha => by
      simpa using fun he : a = t => hnd.2.1.1 (he ▸ ha)

/-! ## What the body of the loop does -/

theorem keeps_emit (s : Timers) (L : Fin 5 → List Nat) {e : Event} (hw : e.Within s.now) :
    Keeps [e] s L (s.emit e) L where
  now := rfl
  log := rfl
  about := fun x hx => by
    rw [List.mem_singleton.mp hx]
    exact hw
  stay := fun _ _ _ h hm _ => .inr ⟨h, hm⟩
  due := fun _ h hm => .inr ⟨h, hm⟩
  behind := fun _ _ hb => .inr hb

/-- A timer that was not live, or is called, is freed. -/
theorem Keeps.free (h : Keeps ev s L s' L') (hcall : ∀ e, Live s t e → ∃ v, .call t s.now v ∈ ev) :
    Keeps ev s L (s'.doRemoveTimer t true) (without L' t) where
  now := h.now
  log := h.log
  about := h.about
  stay := by
    intro t' e i hl hm hun
    by_cases hne : t' = t
    · subst hne
      exact .inl (.inr (hcall e hl))
    · exact (h.stay t' e i hl hm hun).imp_right fun ⟨hl', hm'⟩ => ⟨live_free hl' hne, mem_without.mpr ⟨hm', hne⟩⟩
  due := by
    intro t' hd hm
    by_cases hne : t' = t
    · subst hne
      obtain ⟨e, hl, -⟩ := hd
      exact .inl (.inl (hcall e hl))
    · refine (h.due t' hd hm).imp_right fun ⟨hd', hm'⟩ => ⟨?_, mem_without.mpr ⟨hm', hne⟩⟩
      exact hd'.of_live (show (s'.doRemoveTimer t true).now = s'.now from rfl) fun e hl => live_free hl hne
  behind := fun x t' hb => h.behind x t' (hb.trans List.filter_sublist)

theorem Leads.free {busy : Option Nat} (h : Leads none busy ev s L s' L') (ht : s'.timers t ≠ none)
    (hcall : ∀ e, Live s t e → ∃ v, .call t s.now v ∈ ev) (hgone : History busy s' → Gone s'.log t)
    (hb : busy = none ∨ busy = some t) : Leads none none ev s L (s'.doRemoveTimer t true) (without L' t) :=
  ⟨h.shape.freeTimer ht, h.keeps.free hcall, fun hg => (h.good hg).free ht (hgone (h.good hg).history) hb⟩

/-- The loop goes on with the timers `todo'` of the list `l` where it would have gone on with `todo`. -/
structure Onward (todo : List Nat) (ev : List Event) (s' : Timers) (l todo' : List Nat) : Prop where
  split : ∃ done, l = done ++ todo'
  next : ptrAt 0 todo' = ptrAt 0 todo
  due : ∀ x ∈ todo, x ∈ l → Due s' x → x ∈ todo'
  sub : todo' ⊆ linked ev ++ todo
  length : todo'.length ≤ todo.length + (linked ev).length

theorem Onward.refl {done l : List Nat} (h : l = done ++ todo) : Onward todo ev s' l todo :=
  ⟨⟨done, h⟩, rfl, fun _ hx _ _ => hx, fun _ hx => List.mem_append_right _ hx, Nat.le_add_right _ _⟩

/-- After a callback the loop goes on at the timer that was saved. -/
theorem Keeps.onward (hk : Keeps ev s L s' L') (h : Shape s L) (h' : Shape s' L') {done : List Nat}
    (h0 : L 0 = done ++ t :: todo) (hnext : ∀ x, todo.head? = some x → x ∈ L' 0 ∧
      ∀ y, Behind (L 0) x y → y ∈ L' 0 → Due s' y → Behind (L' 0) x y) :
    ∃ todo', Onward todo ev s' (L' 0) todo' := by
  cases todo with
  | nil =>
      exact ⟨[], ⟨_, (List.append_nil _).symm⟩, rfl, (fun x hx => absurd hx List.not_mem_nil), List.nil_subset _,
        Nat.zero_le _⟩
  | cons x todo =>
      obtain ⟨hx, hstay⟩ := hnext x rfl
      obtain ⟨done', todo', h1⟩ := List.append_of_mem hx
      have hnd := h.nodup 0
      have hnd' := h'.nodup 0
      rw [h1] at hnd'
      have h0' : L 0 = (done ++ [t]) ++ x :: todo := by
        rw [h0]
        simp
      rw [h0'] at hnd
      rw [h0', h1] at hstay
      -- what follows now followed before, or was put at the tail
      have hsub : todo' ⊆ linked ev ++ todo := by
        intro y hy
        have hb := (behind_iff hnd').mpr hy
        rw [← h1] at hb
        refine List.mem_append.mpr ((hk.behind x y hb).imp_right fun hb => ?_)
        rw [h0'] at hb
        exact (behind_iff hnd).mp hb
      refine ⟨x :: todo', ⟨done', h1⟩, rfl, fun y hy hm hd => ?_, fun y hy => ?_, ?_⟩
      · rcases List.mem_cons.mp hy with rfl | hy
        · exact List.mem_cons_self
        · have hb := hstay y ((behind_iff hnd).mpr hy) (h1 ▸ hm) hd
          exact List.mem_cons_of_mem _ ((behind_iff hnd').mp hb)
      · rcases List.mem_cons.mp hy with rfl | hy
        · exact List.mem_append_right _ List.mem_cons_self
        · exact (List.mem_append.mp (hsub hy)).elim (List.mem_append_left _) fun hm =>
            List.mem_append_right _ (List.mem_cons_of_mem _ hm)
      · have hnt : todo'.Nodup := (List.nodup_cons.mp (List.nodup_append.mp hnd').2.1).2
        have := (List.subperm_of_subset hnt hsub).length_le
        rw [List.length_append] at this
        simp only [List.length_cons]
        omega

theorem Onward.free (h : Onward todo ev s (L 0) todo') (ht : t ∉ todo) :
    Onward todo ev (s.doRemoveTimer t true) (without L t 0) (todo'.filter (· ≠ t)) where
  split := by
    obtain ⟨done, hl⟩ := h.split
    refine ⟨done.filter (· ≠ t), ?_⟩
    unfold without
    rw [hl, List.filter_append]
  next := by
    have hnext := h.next
    rw [← hnext]
    cases todo' with
    | nil => rfl
    | cons x todo' =>
        have hx : x ≠ t := by
          rintro rfl
          cases todo with
          | nil => cases hnext
          | cons y todo => exact ht (Ptr.entry.inj hnext ▸ List.mem_cons_self)
        rw [List.filter_cons_of_pos (by simpa using hx)]
        rfl
  due := by
    intro x hx hm hd
    obtain ⟨hm, hne⟩ := mem_without.mp hm
    exact List.mem_filter.mpr ⟨h.due x hx hm (hd.of_live (show s.now = (s.doRemoveTimer t true).now from rfl) fun e => free_live), by simpa using hne⟩
  sub := fun _ hx => h.sub (List.mem_filter.mp hx).1
  length := (List.length_filter_le _ _).trans h.length

theorem handleTimer_leads {ts : TimerStruct} {done : List Nat} (h : Shape s L) (h0 : L 0 = done ++ t :: todo)
    (ht : s.timers t = some ts) (hcb : ts.function ≠ none → ts.expire ≤ s.now →
      Avoids t (called cb s t) (cb s t).1 ∧ NextStays cb s t) (hrun : s.handleTimer cb t ts = .ok s') :
    ∃ L' ev todo', Leads none none ev s L s' L' ∧ Onward todo ev s' (L' 0) todo' ∧
      (Due s t → ∃ v, .call t s.now v ∈ ev) := by
  have hthere : s.timers t ≠ none := by
    rw [ht]
    exact Option.some_ne_none _
  have hlive : ∀ e, Live s t e → ts.function ≠ none ∧ ts.expire = e := by
    rintro e ⟨ts', ht', hf, he⟩
    obtain rfl := Option.some.inj (ht.symm.trans ht')
    exact ⟨hf, he⟩
  unfold Timers.handleTimer at hrun
  split at hrun
  · -- a removed timer is freed
    rename_i hf
    obtain rfl := Except.ok.inj hrun
    refine ⟨without L t, [], todo, (Leads.refl h).free hthere (fun e hl => absurd hf (hlive e hl).1)
      (fun hh => hh.removed t ts ht hf) (.inl rfl), Onward.refl (without_split h h0), ?_⟩
    rintro ⟨e, hl, -⟩
    exact absurd hf (hlive e hl).1
  rename_i hf
  split at hrun
  · -- the callback is called
    rename_i hdue
    obtain ⟨s1, hops, hend⟩ := bind_ok.mp hrun
    obtain ⟨hown, hnext⟩ := hcb hf hdue
    have hcall : Leads none (if (cb s t).2 = 0 then some t else none) [.call t s.now (cb s t).2] s L (called cb s t) L :=
      ⟨h.emit _, keeps_emit s L rfl, fun hg =>
        ⟨hg.shape.emit _, hg.history.call ht hf hdue _, hg.minima.emit _⟩⟩
    obtain ⟨L1, ev, hl1, hmem⟩ := runOps_leads hcall.shape hown hops
    have hl := hcall.trans (hl1 _)
    have hself : ∃ v, .call t s.now v ∈ [.call t s.now (cb s t).2] ++ ev := ⟨_, List.mem_cons_self⟩
    obtain ⟨todo1, hon⟩ := hl.keeps.onward h hl.shape h0 fun x hx => by
      refine hnext L x s1 L1 h (by rw [h0]; simp) ?_ hops hl.shape
      rw [next_entry h h0]
      cases todo with
      | nil => cases hx
      | cons y todo => rw [← Option.some.inj hx]; rfl
    have hmt : t ∈ L1 0 := hmem 0 (by rw [h0]; simp)
    have hthere1 : s1.timers t ≠ none := (hl.shape.alloc t).mpr ⟨0, hmt⟩
    split at hend
    · rename_i hret
      obtain rfl := Except.ok.inj hend
      have hnt : t ∉ todo := by
        have hnd := h.nodup 0
        rw [h0, List.nodup_append] at hnd
        exact (List.nodup_cons.mp hnd.2.1).1
      have hgone : Gone s1.log t := .inr ⟨s.now, by rw [hl.keeps.log, hret]; simp⟩
      exact ⟨without L1 t, _, _, hl.free hthere1 (fun _ _ => hself) (fun _ => hgone) (.inr (if_pos hret)),
        hon.free hnt, fun _ => hself⟩
    · rename_i hret
      obtain rfl := Except.ok.inj hend
      rw [if_neg hret] at hl
      exact ⟨L1, _, todo1, hl, hon, fun _ => hself⟩
  · -- the timer is not due
    rename_i hdue
    obtain rfl := Except.ok.inj hrun
    refine ⟨L, [], todo, Leads.refl h, @Onward.refl _ _ _ (done ++ [t]) _ (by rw [h0]; simp), ?_⟩
    rintro ⟨e, hl, hle⟩
    exact absurd ((hlive e hl).2 ▸ hle) hdue

/-! ## The loop -/

theorem good_visit (h : Good none s L) {ts : TimerStruct} (ht : s.timers t = some ts) :
    Good none (s.emit (.visit t)) L :=
  h.note (fun _ => rfl) (fun _ => ⟨by simp, by simp⟩) trivial fun t' ht' =>
    Option.some.inj ht' ▸ h.history.lt_fresh ht

theorem leads_visit (h : Shape s L) {ts : TimerStruct} (ht : s.timers t = some ts) :
    Leads none none [.visit t] s L (s.emit (.visit t)) L :=
  ⟨h.emit _, keeps_emit s L trivial, fun hg => good_visit hg ht⟩

/-- The loop is about to go on with the timers `todo`. -/
structure At (cb : Timers.Callback) (s₀ s : Timers) (L : Fin 5 → List Nat) (todo : List Nat) : Prop where
  turns : Turns cb s₀ s (ptrAt 0 todo) (s.links.next (ptrAt 0 todo))
  shape : Shape s L
  split : ∃ done, L 0 = done ++ todo

theorem at_start (h : Shape s L) : At cb s s L (L 0) := by
  refine ⟨?_, h, [], rfl⟩
  rw [← next_head h 0]
  exact .start

theorem At.turn (h : At cb s₀ s L (t :: todo)) (hg : Guarded cb s₀) :
    ∃ ts, s.timers t = some ts ∧ s.links.next (.entry t) = ptrAt 0 todo ∧
      ∀ s', (s.emit (.visit t)).handleTimer cb t ts = .ok s' → ∃ L' ev todo', At cb s₀ s' L' todo' ∧
        ptrAt 0 todo' = ptrAt 0 todo ∧ Leads none none ev s L s' L' ∧
        (∀ x ∈ todo, x ∈ L' 0 → Due s' x → x ∈ todo') ∧ todo'.length ≤ todo.length + (linked ev).length ∧
        (Due s t → ∃ v, .call t s.now v ∈ ev) ∧ todo' ⊆ linked ev ++ todo := by
  obtain ⟨done, h0⟩ := h.split
  have hthere : s.timers t ≠ none := (h.shape.alloc t).mpr ⟨0, by rw [h0]; simp⟩
  obtain ⟨ts, ht⟩ := Option.ne_none_iff_exists'.mp hthere
  refine ⟨ts, ht, next_entry h.shape h0, fun s' hhandle => ?_⟩
  have hv := leads_visit h.shape ht
  have hcalls : ts.function ≠ none → ts.expire ≤ s.now → Calls cb s₀ (s.emit (.visit t)) t := fun hf hdue =>
    ⟨s, _, ts, h.turns, ht, hf, hdue, rfl⟩
  obtain ⟨L', ev, todo', hl, hon, hcalled⟩ :=
    handleTimer_leads hv.shape h0 ht (fun hf hdue => hg _ t (hcalls hf hdue)) hhandle
  have hturns : Turns cb s₀ s' (ptrAt 0 todo') (s'.links.next (ptrAt 0 todo')) := by
    rw [hon.next, ← next_entry h.shape h0]
    exact .turn h.turns ht hhandle
  refine ⟨L', [.visit t] ++ ev, todo', ⟨hturns, hl.shape, hon.split⟩, hon.next, hv.trans hl, hon.due, ?_,
    fun hd => ?_, ?_⟩
  · rw [linked_append]
    exact hon.length.trans (by simp)
  · obtain ⟨v, hv⟩ := hcalled hd
    exact ⟨v, List.mem_append_right _ hv⟩
  · rw [linked_append]
    exact hon.sub

/-- The loop comes to timers only, and settles all those that are due. -/
theorem scanLoop_leads (hg : Guarded cb s₀) (fuel : Nat) : ∀ {s : Timers} {L : Fin 5 → List Nat} {todo : List Nat}
    {r : Except Stop Timers}, At cb s₀ s L todo →
    Timers.scanLoop cb fuel s (ptrAt 0 todo) (s.links.next (ptrAt 0 todo)) = r →
    r ≠ .error .notTimer ∧ ∀ s', r = .ok s' → ∃ L' ev, Leads none none ev s L s' L' ∧
      ∀ x ∈ todo, Due s x → Settled s.now ev x := by
  induction fuel with
  | zero =>
      rintro s L todo r - rfl
      exact ⟨(fun h => nomatch h), fun s' h => nomatch h⟩
  | succ fuel ih =>
      intro s L todo r h hrun
      cases todo with
      | nil =>
          obtain rfl : Except.ok s = r := hrun
          refine ⟨(fun h => nomatch h), fun s' hs' => ?_⟩
          obtain rfl := Except.ok.inj hs'
          exact ⟨L, [], Leads.refl h.shape, fun x hx => absurd hx List.not_mem_nil⟩
      | cons t todo =>
          obtain ⟨ts, ht, hnext, hturn⟩ := h.turn hg
          obtain ⟨done, h0⟩ := h.split
          change Timers.scanLoop cb (fuel + 1) s (.entry t) (s.links.next (.entry t)) = r at hrun
          rw [hnext] at hrun
          unfold Timers.scanLoop at hrun
          simp only [reduceCtorEq, ↓reduceIte, ht] at hrun
          cases hhandle : (s.emit (.visit t)).handleTimer cb t ts with
          | error e =>
              rw [hhandle] at hrun
              obtain rfl : Except.error e = r := hrun
              refine ⟨fun he => ?_, fun s' h => nomatch h⟩
              rw [Except.error.inj he] at hhandle
              cases handleTimer_error hhandle
          | ok s1 =>
              rw [hhandle] at hrun
              obtain ⟨L1, ev1, todo1, hat, hptr, hl1, hdue, -, hcalled, -⟩ := hturn s1 hhandle
              rw [← hptr] at hrun
              obtain ⟨hsafe, hok⟩ := ih hat hrun
              refine ⟨hsafe, fun s' hs' => ?_⟩
              obtain ⟨L', ev2, hl2, hsettled⟩ := hok s' hs'
              refine ⟨L', _, hl1.trans hl2, fun x hx hd => ?_⟩
              rcases List.mem_cons.mp hx with rfl | hx
              · exact Settled.left (.inl (hcalled hd))
              · rcases hl1.keeps.due x hd (by rw [h0]; simp [hx]) with ho | ⟨hd1, hm1⟩
                · exact ho.left
                · exact (hl1.keeps.now ▸ hsettled x (hdue x hx hm1 hd1) hd1).right

end Taomee.Timer
