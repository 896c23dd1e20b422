import Taomee.Timer.Lemmas.History

/-!
# What stays of a timer

A timer that is live stays in its list until it is armed anew, removed or called, and no cached
minimum gets later than it. This holds for calls of the interface, and what holds for them holds
for a callback.
-/

namespace Taomee.Timer

variable {s s' s'' : Timers} {L L' L'' : Fin 5 → List Nat} {t : Nat} {c : Option Nat}
variable {ev ev' : List Event}

/-! ## Cached minima -/

/-- All expire times are positive. -/
def Positive (log : List Event) : Prop := ∀ t e n i, .arm t e n i ∈ log → 0 < e

/-- The timer is there, has its function and the expire time `e`. -/
def Live (s : Timers) (t : Nat) (e : Int) : Prop :=
  ∃ ts, s.timers t = some ts ∧ ts.function ≠ none ∧ ts.expire = e

/-- `m` is no later than any live timer of the list; 0 stands for none. -/
def MinAt (m : Int) (s : Timers) (l : List Nat) : Prop :=
  ∀ t ∈ l, ∀ e, Live s t e → m ≠ 0 ∧ m ≤ e

/-- The cached minima of the lists that are not scanned every second. -/
def Minima (s : Timers) (L : Fin 5 → List Nat) : Prop :=
  Positive s.log → ∀ i, i ≠ 0 → MinAt (s.minExpiringTime i) s (L i)

theorem Positive.of_append {log : List Event} (h : Positive (log ++ ev)) : Positive log :=
  fun t e n i hm => h t e n i (List.mem_append_left _ hm)

theorem minAfter_self (min : Fin 5 → Int) {e : Int} (he : 0 < e) (i : Fin 5) :
    minAfter min e i i ≠ 0 ∧ minAfter min e i i ≤ e := by
  unfold minAfter
  split
  · rw [Function.update_self]
    omega
  · omega

theorem minAfter_keep {min : Fin 5 → Int} {e x : Int} (he : 0 < e) (i : Fin 5) {j : Fin 5}
    (h : min j ≠ 0 ∧ min j ≤ x) : minAfter min e i j ≠ 0 ∧ minAfter min e i j ≤ x := by
  unfold minAfter
  split
  · rw [Function.update_apply]
    split
    · rename_i hji
      subst hji
      omega
    · exact h
  · exact h

theorem live_update {ts : TimerStruct} {e : Int} {t' : Nat}
    (h : s'.timers = Function.update s.timers t (some ts)) (hl : Live s' t' e) :
    (t' = t ∧ ts.function ≠ none ∧ ts.expire = e) ∨ (t' ≠ t ∧ Live s t' e) := by
  obtain ⟨ts', ht', hf, he⟩ := hl
  rw [h, Function.update_apply] at ht'
  split at ht'
  · rename_i heq
    rw [← Option.some.inj ht'] at hf he
    exact .inl ⟨heq, hf, he⟩
  · rename_i hne
    exact .inr ⟨hne, ts', ht', hf, he⟩

theorem live_of_ne {ts : TimerStruct} {e : Int} {t' : Nat}
    (h : s'.timers = Function.update s.timers t (some ts)) (hne : t' ≠ t) (hl : Live s t' e) :
    Live s' t' e := by
  obtain ⟨ts', ht', hf, he⟩ := hl
  exact ⟨ts', by rw [h, Function.update_of_ne hne]; exact ht', hf, he⟩

/-- A timer armed at the tail of a list, with the minimum of that list lowered. -/
theorem Minima.armed (h : Minima s L) {ts : TimerStruct} {i : Fin 5} {n : Int} {L' : Fin 5 → List Nat}
    (htimers : s'.timers = Function.update s.timers t (some ts))
    (hlog : s'.log = s.log ++ [.arm t ts.expire n i])
    (hmin : s'.minExpiringTime = minAfter s.minExpiringTime ts.expire i)
    (hL : ∀ t' j, t' ∈ L' j → t' ∈ L j ∨ (t' = t ∧ j = i)) (hother : ∀ j, t ∈ L' j → j = i) :
    Minima s' L' := by
  intro hpos j hj t' ht' e hl
  have he : 0 < ts.expire := hpos t ts.expire n i (by rw [hlog]; simp)
  have hpos' : Positive s.log := by
    rw [hlog] at hpos
    exact hpos.of_append
  rw [hmin]
  rcases live_update htimers hl with ⟨rfl, -, rfl⟩ | ⟨hne, hl⟩
  · obtain rfl := hother j ht'
    exact minAfter_self _ he j
  · rcases hL t' j ht' with ht' | ⟨heq, -⟩
    · exact minAfter_keep he i (h hpos' j hj t' ht' e hl)
    · exact absurd heq hne

theorem Minima.step (h : Minima s L) (hs : Shape s L) (hst : OpStep s L s' c L') : Minima s' L' := by
  cases hst with
  | skip c heq => exact heq ▸ h
  | add ts i hf hi htimers hfresh hnow hlog hmin =>
      refine h.armed htimers hlog hmin (fun t' j ht' => mem_appended.mp ht') fun j hj => ?_
      exact (mem_appended.mp hj).elim (fun hm => absurd hm (hs.notMem_fresh j)) And.right
  | change t ts e i hts hi htimers hfresh hnow hlog hmin =>
      refine @Minima.armed _ _ _ _ h { ts with expire := e } _ _ _ htimers hlog hmin (fun t' j ht' => ?_) fun j hj => ?_
      · exact (mem_appended.mp ht').imp_left fun hm => (mem_without.mp hm).1
      · exact (mem_appended.mp hj).elim (fun hm => absurd rfl (mem_without.mp hm).2) And.right
  | mark t ts hts htimers hfresh hnow hlog hmin =>
      intro hpos j hj t' ht' e hl
      rw [hmin]
      rw [hlog] at hpos
      rcases live_update htimers hl with ⟨-, hf, -⟩ | ⟨-, hl⟩
      · exact absurd rfl hf
      · exact h hpos.of_append j hj t' ht' e hl

/-! ## Timers stay -/

/-- The events do not arm the timer `t`. -/
def Unarmed (ev : List Event) (t : Nat) : Prop := ∀ e ∈ ev, e.armed t = none

/-- The timer `t` is removed, or called at the time `n`. -/
def Out (n : Int) (ev : List Event) (t : Nat) : Prop := .remove t ∈ ev ∨ ∃ v, .call t n v ∈ ev

/-- What happens within a scan or between scans, at the time `n`. -/
def Event.Within (n : Int) : Event → Prop
  | .scan _ => False
  | .scanEnd => False
  | .call _ n' _ => n' = n
  | _ => True

/-- The timer is live and its time has come. -/
def Due (s : Timers) (t : Nat) : Prop := ∃ e, Live s t e ∧ e ≤ s.now

/-- The timer `t` is called at the time `n`, or removed, or armed for a later time. -/
def Settled (n : Int) (ev : List Event) (t : Nat) : Prop :=
  (∃ v, .call t n v ∈ ev) ∨ .remove t ∈ ev ∨ ∃ e i, n < e ∧ .arm t e n i ∈ ev

/-- The timers that are put at the tail of `vec[0]`. -/
def linked (ev : List Event) : List Nat :=
  ev.filterMap fun e => match e with
    | .arm t _ _ i => if i = 0 then some t else none
    | _ => none

/-- What happens, `ev`, leaves each live timer in its list, until it is armed, removed or called. The order
of `vec[0]` stays but for the timers that are put at its tail. -/
structure Keeps (ev : List Event) (s : Timers) (L : Fin 5 → List Nat) (s' : Timers)
    (L' : Fin 5 → List Nat) : Prop where
  now : s'.now = s.now
  log : s'.log = s.log ++ ev
  about : ∀ e ∈ ev, e.Within s.now
  stay : ∀ t e i, Live s t e → t ∈ L i → Unarmed ev t → Out s.now ev t ∨ (Live s' t e ∧ t ∈ L' i)
  due : ∀ t, Due s t → t ∈ L 0 → Settled s.now ev t ∨ (Due s' t ∧ t ∈ L' 0)
  behind : ∀ x t, Behind (L' 0) x t → t ∈ linked ev ∨ Behind (L 0) x t

theorem Unarmed.append : Unarmed (ev ++ ev') t ↔ Unarmed ev t ∧ Unarmed ev' t := by
  unfold Unarmed
  simp [or_imp, forall_and]

theorem Out.left {n : Int} (h : Out n ev t) : Out n (ev ++ ev') t :=
  h.imp (List.mem_append_left _) fun ⟨v, hv⟩ => ⟨v, List.mem_append_left _ hv⟩

theorem Out.right {n : Int} (h : Out n ev' t) : Out n (ev ++ ev') t :=
  h.imp (List.mem_append_right _) fun ⟨v, hv⟩ => ⟨v, List.mem_append_right _ hv⟩

theorem Settled.left {n : Int} (h : Settled n ev t) : Settled n (ev ++ ev') t := by
  rcases h with ⟨v, hv⟩ | hr | ⟨e, i, hn, hm⟩
  · exact .inl ⟨v, List.mem_append_left _ hv⟩
  · exact .inr (.inl (List.mem_append_left _ hr))
  · exact .inr (.inr ⟨e, i, hn, List.mem_append_left _ hm⟩)

theorem Settled.right {n : Int} (h : Settled n ev' t) : Settled n (ev ++ ev') t := by
  rcases h with ⟨v, hv⟩ | hr | ⟨e, i, hn, hm⟩
  · exact .inl ⟨v, List.mem_append_right _ hv⟩
  · exact .inr (.inl (List.mem_append_right _ hr))
  · exact .inr (.inr ⟨e, i, hn, List.mem_append_right _ hm⟩)

/-- A timer that is not armed is settled by a call or by its removal. -/
theorem Settled.out {n : Int} (h : Settled n ev t) (hun : Unarmed ev t) : Out n ev t := by
  rcases h with hc | hr | ⟨e, i, -, hm⟩
  · exact .inr hc
  · exact .inl hr
  · have := hun _ hm
    simp [Event.armed] at this

theorem linked_append (ev ev' : List Event) : linked (ev ++ ev') = linked ev ++ linked ev' :=
  List.filterMap_append

theorem Due.of_live (hnow : s'.now = s.now) (hl : ∀ e, Live s t e → Live s' t e) (h : Due s t) : Due s' t := by
  obtain ⟨e, he, hle⟩ := h
  exact ⟨e, hl e he, hnow ▸ hle⟩

theorem Keeps.refl (s : Timers) (L : Fin 5 → List Nat) : Keeps [] s L s L :=
  ⟨rfl, by simp, by simp, fun _ _ _ hl hm _ => .inr ⟨hl, hm⟩, fun _ hd hm => .inr ⟨hd, hm⟩, fun _ _ hb => .inr hb⟩

theorem Keeps.trans (h : Keeps ev s L s' L') (h' : Keeps ev' s' L' s'' L'') :
    Keeps (ev ++ ev') s L s'' L'' where
  now := h'.now.trans h.now
  log := by rw [h'.log, h.log, List.append_assoc]
  about := fun e he => (List.mem_append.mp he).elim (h.about e) fun he => h.now ▸ h'.about e he
  stay := by
    intro t e i hl hm hun
    obtain ⟨hu, hu'⟩ := Unarmed.append.mp hun
    rcases h.stay t e i hl hm hu with ho | ⟨hl', hm'⟩
    · exact .inl ho.left
    · exact (h'.stay t e i hl' hm' hu').imp_left fun ho => (h.now ▸ ho).right
  due := by
    intro t hd hm
    rcases h.due t hd hm with ho | ⟨hd', hm'⟩
    · exact .inl ho.left
    · exact (h'.due t hd' hm').imp_left fun ho => (h.now ▸ ho).right
  behind := by
    intro x t hb
    rw [linked_append]
    rcases h'.behind x t hb with hl | hb
    · exact .inl (List.mem_append_right _ hl)
    · exact (h.behind x t hb).imp_left (List.mem_append_left _)

theorem OpStep.keeps (hs : Shape s L) (hst : OpStep s L s' c L') : ∃ ev, Keeps ev s L s' L' := by
  cases hst with
  | skip c heq => exact ⟨[], heq ▸ Keeps.refl s L⟩
  | add ts i hf hi htimers hfresh hnow hlog hmin =>
      have hne : ∀ t j, t ∈ L j → t ≠ s.fresh := fun t j hm he => hs.notMem_fresh j (he ▸ hm)
      refine ⟨_, hnow, hlog, by simp [Event.Within], fun t e j hl hm _ => .inr ⟨live_of_ne htimers (hne t j hm) hl, ?_⟩,
        fun t hd hm => .inr ⟨hd.of_live hnow fun e => live_of_ne htimers (hne t 0 hm), ?_⟩, fun x t hb => ?_⟩
      · exact mem_appended.mpr (.inl hm)
      · exact mem_appended.mpr (.inl hm)
      · by_cases h0 : i = 0
        · subst h0
          rw [appended_self] at hb
          exact hb.of_concat.imp_left fun he => by simp [linked, he]
        · rw [appended_of_ne (Ne.symm h0)] at hb
          exact .inr hb
  | change t0 ts e0 i hts hi htimers hfresh hnow hlog hmin =>
      refine ⟨_, hnow, hlog, by simp [Event.Within], fun t e j hl hm hun => ?_, fun t hd hm => ?_, fun x t hb => ?_⟩
      · have hne : t ≠ t0 := by
          rintro rfl
          have := hun _ (List.mem_singleton_self _)
          simp [Event.armed] at this
        exact .inr ⟨live_of_ne htimers hne hl, mem_appended.mpr (.inl (mem_without.mpr ⟨hm, hne⟩))⟩
      · by_cases hne : t = t0
        · subst hne
          by_cases hle : e0 ≤ s.now
          · -- it is put at the tail of the same list
            obtain ⟨e, ⟨ts', hts', hf, -⟩, -⟩ := hd
            obtain rfl := Option.some.inj (hts.symm.trans hts')
            have hi0 : i = 0 := hi.trans (hs.vecIdx_zero (by omega))
            refine .inr ⟨⟨e0, ⟨{ ts with expire := e0 }, ?_, hf, rfl⟩, hnow ▸ hle⟩, mem_appended.mpr (.inr ⟨rfl, hi0.symm⟩)⟩
            rw [htimers, Function.update_self]
          · exact .inl (.inr (.inr ⟨e0, i, Int.not_le.mp hle, List.mem_singleton_self _⟩))
        · exact .inr ⟨hd.of_live hnow fun e => live_of_ne htimers hne, mem_appended.mpr (.inl (mem_without.mpr ⟨hm, hne⟩))⟩
      · by_cases h0 : i = 0
        · subst h0
          rw [appended_self] at hb
          rcases hb.of_concat with he | hb
          · exact .inl (by simp [linked, he])
          · exact .inr (hb.trans List.filter_sublist)
        · rw [appended_of_ne (Ne.symm h0)] at hb
          exact .inr (hb.trans List.filter_sublist)
  | mark t0 ts hts htimers hfresh hnow hlog hmin =>
      refine ⟨_, hnow, hlog, by simp [Event.Within], fun t e j hl hm hun => ?_, fun t hd hm => ?_, fun x t hb => .inr hb⟩
      · by_cases hne : t = t0
        · exact .inl (.inl (by simp [hne]))
        · exact .inr ⟨live_of_ne htimers hne hl, hm⟩
      · by_cases hne : t = t0
        · exact .inl (.inr (.inl (by simp [hne])))
        · exact .inr ⟨hd.of_live hnow fun e => live_of_ne htimers hne, hm⟩

end Taomee.Timer
