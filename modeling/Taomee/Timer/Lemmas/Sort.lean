import Taomee.Timer.Lemmas.Loop

/-!
# The lists behind vec[0]

A scan of a list frees the removed timers, moves those that have come closer to the list of their
remaining time, and caches the minimum of the rest. A timer with at most a second to go is moved to
`vec[0]`.
-/

namespace Taomee.Timer

variable {s s' s'' : Timers} {L L' : Fin 5 → List Nat} {t : Nat} {idx : Fin 5} {todo : List Nat}

/-! ## The list of a remaining time -/

theorem findMinIdx_congr (h : s'.vecExpire = s.vecExpire) (diff : Int) : ∀ k hk,
    s'.findMinIdx diff k hk = s.findMinIdx diff k hk
  | 0, _ => rfl
  | k + 1, hk => by
      unfold Timers.findMinIdx
      rw [h, findMinIdx_congr h diff k]

theorem findMinIdx_zero (h : Shape s L) {diff : Int} (hd : diff ≤ 4) : ∀ k hk,
    s.findMinIdx diff k hk = 0
  | 0, _ => rfl
  | k + 1, hk => by
      unfold Timers.findMinIdx
      have hpow : (4 : Int) ≤ 2 ^ (k + 2) := by
        have := Nat.pow_le_pow_right (show 0 < 2 by decide) (Nat.le_add_left 2 k)
        exact_mod_cast this
      have hge : s.vecExpire ⟨k, Nat.lt_of_succ_lt hk⟩ ≥ diff := by
        rw [h.vec]
        exact hd.trans hpow
      rw [if_pos hge]
      exact findMinIdx_zero h hd k _

/-! ## One timer -/

/-- What a scan of the list `idx` does to live timers: each stays in its list, but those of the list
`idx` may go to the list of their remaining time. -/
structure Sorted (idx : Fin 5) (s : Timers) (L : Fin 5 → List Nat) (s' : Timers)
    (L' : Fin 5 → List Nat) : Prop where
  now : s'.now = s.now
  log : s'.log = s.log
  vec : s'.vecExpire = s.vecExpire
  live : ∀ t e i, Live s t e → t ∈ L i → Live s' t e ∧
    (t ∈ L' i ∨ (i = idx ∧ t ∈ L' (s.findMinIdx (e - s.now) idx.val idx.isLt)))

theorem Sorted.refl (idx : Fin 5) (s : Timers) (L : Fin 5 → List Nat) : Sorted idx s L s L :=
  ⟨rfl, rfl, rfl, fun _ _ _ hl hm => ⟨hl, .inl hm⟩⟩

theorem Sorted.trans (h : Sorted idx s L s' L') {L'' : Fin 5 → List Nat}
    (h' : Sorted idx s' L' s'' L'') : Sorted idx s L s'' L'' where
  now := h'.now.trans h.now
  log := h'.log.trans h.log
  vec := h'.vec.trans h.vec
  live := by
    intro t e i hl hm
    obtain ⟨hl', hm'⟩ := h.live t e i hl hm
    have hf := findMinIdx_congr h.vec (e - s.now) idx.val idx.isLt
    rcases hm' with hm' | ⟨hi, hm'⟩
    · obtain ⟨hl'', hm''⟩ := h'.live t e i hl' hm'
      rw [h.now, hf] at hm''
      exact ⟨hl'', hm''⟩
    · obtain ⟨hl'', hm''⟩ := h'.live t e _ hl' hm'
      rw [h.now, hf] at hm''
      exact ⟨hl'', .inr ⟨hi, hm''.elim id And.right⟩⟩

/-- The minima while the list `idx` is scanned: `m` is that of the timers `kept`. -/
def SortMin (idx : Fin 5) (s : Timers) (L : Fin 5 → List Nat) (kept : List Nat) (m : Int) : Prop :=
  Positive s.log → (∀ i, i ≠ 0 → i ≠ idx → MinAt (s.minExpiringTime i) s (L i)) ∧ MinAt m s kept

/-- What holds while the list `idx` is scanned, with the timers `todo` still to come. -/
structure Sorting (idx : Fin 5) (s : Timers) (L : Fin 5 → List Nat) (kept todo : List Nat) (m : Int) :
    Prop where
  shape : Shape s L
  history : History none s
  split : L idx = kept ++ todo
  min : SortMin idx s L kept m

/-- What a turn of the scan does to its timer `t` and to the others. -/
structure SortTurn (idx : Fin 5) (s : Timers) (L : Fin 5 → List Nat) (t : Nat) (todo : List Nat) (s' : Timers) (m' : Int)
    (L' : Fin 5 → List Nat) (kept' : List Nat) : Prop where
  sorting : Sorting idx s' L' kept' todo m'
  sorted : Sorted idx s L s' L'
  own : ∀ e, Live s t e → t ∈ L' (s.findMinIdx (e - s.now) idx.val idx.isLt)

section Turn

variable {kept : List Nat} {m : Int} {ts : TimerStruct}

theorem live_eq (ht : s.timers t = some ts) {e : Int} (hl : Live s t e) : ts.function ≠ none ∧ ts.expire = e := by
  obtain ⟨ts', ht', hf, he⟩ := hl
  obtain rfl := Option.some.inj (ht.symm.trans ht')
  exact ⟨hf, he⟩

/-- A timer that is there has been armed for its time. -/
theorem Sorting.expire_pos (h : Sorting idx s L kept (t :: todo) m) (ht : s.timers t = some ts) (hpos : Positive s.log) :
    0 < ts.expire := by
  obtain ⟨n, j, hm⟩ := lastArm_mem (h.history.expire t ts ht)
  exact hpos t ts.expire n j hm

/-- A removed timer is freed. -/
theorem Sorting.freed (h : Sorting idx s L kept (t :: todo) m) (ht : s.timers t = some ts) (hf : ts.function = none) :
    ∃ L' kept', SortTurn idx s L t todo (s.doRemoveTimer t true) m L' kept' := by
  have hthere : s.timers t ≠ none := by
    rw [ht]
    exact Option.some_ne_none _
  have hg := h.history.removed t ts ht hf
  refine ⟨without L t, kept, ⟨h.shape.freeTimer hthere, h.history.free hg (.inl rfl), without_split h.shape h.split, ?_⟩,
    ⟨rfl, rfl, rfl, fun t' e i hl hm => ?_⟩, fun e hl => absurd hf (live_eq ht hl).1⟩
  · intro hpos
    obtain ⟨h1, h2⟩ := h.min hpos
    exact ⟨fun i hi hii t' ht' e hl => h1 i hi hii t' (mem_without.mp ht').1 e (free_live hl),
      fun t' ht' e hl => h2 t' ht' e (free_live hl)⟩
  · have hne : t' ≠ t := fun he => (live_eq ht (he ▸ hl)).1 hf
    exact ⟨live_free hl hne, .inl (mem_without.mpr ⟨hm, hne⟩)⟩

/-- The timer stays, and counts for the minimum. -/
theorem Sorting.stays (h : Sorting idx s L kept (t :: todo) m) (ht : s.timers t = some ts)
    (hi : s.findMinIdx (ts.expire - s.now) idx.val idx.isLt = idx) {m' : Int}
    (hm' : (m' = ts.expire ∧ (m = 0 ∨ ts.expire < m)) ∨ (m' = m ∧ m ≠ 0 ∧ m ≤ ts.expire)) :
    ∃ L' kept', SortTurn idx s L t todo s m' L' kept' := by
  have hsplit : L idx = (kept ++ [t]) ++ todo := by
    rw [h.split]
    simp
  refine ⟨L, kept ++ [t], ⟨h.shape, h.history, hsplit, fun hpos => ⟨(h.min hpos).1, fun t' ht' e hl => ?_⟩⟩,
    .refl idx s L, fun e hl => ?_⟩
  · have he := h.expire_pos ht hpos
    rcases List.mem_append.mp ht' with ht' | ht'
    · have := (h.min hpos).2 t' ht' e hl
      omega
    · rw [List.mem_singleton.mp ht'] at hl
      have := (live_eq ht hl).2
      omega
  · rw [← (live_eq ht hl).2, hi, h.split]
    simp

/-- The timer is moved to another list. -/
theorem Sorting.moved (h : Sorting idx s L kept (t :: todo) m) (ht : s.timers t = some ts) {i : Fin 5}
    (hi : s.findMinIdx (ts.expire - s.now) idx.val idx.isLt = i) (hii : i ≠ idx) :
    ∃ L' kept', SortTurn idx s L t todo (((s.listDel t).listAddTail t i).setMinExptm ts.expire i) m L' kept' := by
  have hthere : s.timers t ≠ none := by
    rw [ht]
    exact Option.some_ne_none _
  have hmt : t ∈ L idx := by
    rw [h.split]
    simp
  have hshape := (h.shape.moveTimer ht i).setMinExptm ts.expire i
  obtain ⟨htimers, hfresh, hnow, hlog⟩ := setMinExptm_other ((s.listDel t).listAddTail t i) ts.expire i
  have hmin := setMinExptm_min ((s.listDel t).listAddTail t i) ts.expire i
  have hvec : (((s.listDel t).listAddTail t i).setMinExptm ts.expire i).vecExpire = s.vecExpire := by
    unfold Timers.setMinExptm
    split <;> rfl
  generalize ((s.listDel t).listAddTail t i).setMinExptm ts.expire i = s1 at *
  have hlive : ∀ t' e, Live s1 t' e ↔ Live s t' e := by
    intro t' e
    unfold Live
    rw [htimers]
    rfl
  refine ⟨appended (without L t) t i, kept, ⟨hshape, h.history.congr htimers hlog hfresh, ?_, ?_⟩,
    ⟨hnow, hlog, hvec, fun t' e j hl hm => ⟨(hlive t' e).mpr hl, ?_⟩⟩, fun e hl => ?_⟩
  · rw [appended_of_ne (Ne.symm hii), without_split h.shape h.split]
  · intro hpos
    have hpos : Positive s.log := hlog ▸ hpos
    have he := h.expire_pos ht hpos
    obtain ⟨h1, h2⟩ := h.min hpos
    refine ⟨fun j hj hji t' ht' e hl => ?_, fun t' ht' e hl => h2 t' ht' e ((hlive t' e).mp hl)⟩
    rw [hmin]
    rw [hlive] at hl
    rcases mem_appended.mp ht' with ht' | ⟨rfl, rfl⟩
    · exact minAfter_keep he i (h1 j hj hji t' (mem_without.mp ht').1 e hl)
    · rw [← (live_eq ht hl).2]
      exact minAfter_self _ he j
  · by_cases hne : t' = t
    · subst hne
      refine .inr ⟨h.shape.unique hm hmt, ?_⟩
      rw [← (live_eq ht hl).2, hi]
      exact mem_appended.mpr (.inr ⟨rfl, rfl⟩)
    · exact .inl (mem_appended.mpr (.inl (mem_without.mpr ⟨hm, hne⟩)))
  · rw [← (live_eq ht hl).2, hi]
    exact mem_appended.mpr (.inr ⟨rfl, rfl⟩)

theorem sortTimer_sorting (h : Sorting idx s L kept (t :: todo) m) (ht : s.timers t = some ts) :
    ∃ L' kept', SortTurn idx s L t todo (s.sortTimer idx t ts m).1 (s.sortTimer idx t ts m).2 L' kept' := by
  unfold Timers.sortTimer
  by_cases hf : ts.function = none
  · rw [if_pos hf]
    exact h.freed ht hf
  rw [if_neg hf]
  generalize hi : s.findMinIdx (ts.expire - s.now) idx.val idx.isLt = i
  by_cases hii : i = idx
  · rw [if_neg (not_not_intro hii)]
    split
    · exact h.stays ht (hi.trans hii) (.inl ⟨rfl, by omega⟩)
    · exact h.stays ht (hi.trans hii) (.inr ⟨rfl, by omega, by omega⟩)
  · rw [if_pos hii]
    exact h.moved ht hi hii

end Turn

/-! ## A list -/

theorem sortLoop_sorting (fuel : Nat) : ∀ {s : Timers} {L : Fin 5 → List Nat} {kept todo : List Nat}
    {m : Int} {r : Except Stop (Timers × Int)}, Sorting idx s L kept todo m →
    Timers.sortLoop idx fuel s (ptrAt idx todo) (s.links.next (ptrAt idx todo)) m = r →
    r ≠ .error .notTimer ∧ ∀ s' m', r = .ok (s', m') →
      ∃ L' kept', Sorting idx s' L' kept' [] m' ∧ Sorted idx s L s' L' ∧
        ∀ t ∈ todo, ∀ e, Live s t e → t ∈ L' (s.findMinIdx (e - s.now) idx.val idx.isLt) := by
  induction fuel with
  | zero =>
      rintro s L kept todo m r h rfl
      exact ⟨by simp [Timers.sortLoop], fun s' m' hr => by cases hr⟩
  | succ fuel ih =>
      rintro s L kept todo m r h hrun
      cases todo with
      | nil =>
          obtain rfl : Except.ok (s, m) = r := by simpa [Timers.sortLoop, ptrAt] using hrun
          refine ⟨by simp, fun s' m' hr => ?_⟩
          cases hr
          exact ⟨L, kept, h, Sorted.refl idx s L, fun t ht => absurd ht List.not_mem_nil⟩
      | cons t todo =>
          have hthere : s.timers t ≠ none := (h.shape.alloc t).mpr ⟨idx, by rw [h.split]; simp⟩
          obtain ⟨ts, ht⟩ := Option.ne_none_iff_exists'.mp hthere
          obtain ⟨L1, kept1, h1, hs1, hplace⟩ := sortTimer_sorting h ht
          have hnext : s.links.next (ptrAt idx (t :: todo)) = ptrAt idx todo :=
            next_entry h.shape h.split
          rw [hnext] at hrun
          unfold Timers.sortLoop ptrAt at hrun
          simp only [List.map_cons, List.headD_cons, reduceCtorEq, ↓reduceIte, ht] at hrun
          obtain ⟨hsafe, hok⟩ := ih h1 hrun
          refine ⟨hsafe, fun s' m' hr => ?_⟩
          obtain ⟨L', kept', h', hs', hplace'⟩ := hok s' m' hr
          refine ⟨L', kept', h', hs1.trans hs', fun t' ht' e hl => ?_⟩
          have hf := findMinIdx_congr hs1.vec (e - s.now) idx.val idx.isLt
          rcases List.mem_cons.mp ht' with rfl | ht'
          · have hl1 := (hs1.live t' e idx hl (by rw [h.split]; simp)).1
            have := (hs'.live t' e _ hl1 (hplace e hl)).2
            rw [hs1.now, hf] at this
            exact this.elim id And.right
          · have hl1 := (hs1.live t' e idx hl (by rw [h.split]; simp [ht'])).1
            have := hplace' t' ht' e hl1
            rwa [hs1.now, hf] at this

theorem scanTimerList_good (h : Good none s L) {fuel : Nat} :
    s.scanTimerList fuel idx ≠ .error .notTimer ∧ ∀ s', s.scanTimerList fuel idx = .ok s' →
      ∃ L', Good none s' L' ∧ Sorted idx s L s' L' ∧
        ∀ t ∈ L idx, ∀ e, Live s t e → t ∈ L' (s.findMinIdx (e - s.now) idx.val idx.isLt) := by
  have hnext : s.links.next (.head idx) = ptrAt idx (L idx) := next_head h.shape idx
  have hstart : Sorting idx s L [] (L idx) 0 :=
    ⟨h.shape, h.history, rfl, fun hpos => ⟨fun i hi _ => h.minima hpos i hi,
      fun _ ht => absurd ht List.not_mem_nil⟩⟩
  obtain ⟨hsafe, hok⟩ := sortLoop_sorting fuel hstart rfl
  unfold Timers.scanTimerList
  simp only [hnext]
  refine ⟨fun he => ?_, fun s' hs' => ?_⟩
  · rcases bind_error.mp he with he | ⟨a, -, he⟩
    · exact hsafe he
    · cases he
  · obtain ⟨⟨s1, m⟩, hloop, hend⟩ := bind_ok.mp hs'
    obtain rfl := Except.ok.inj hend
    obtain ⟨L', kept', h', hsorted, hplace⟩ := hok s1 m hloop
    refine ⟨L', ⟨⟨h'.shape.rings, h'.shape.alloc, h'.shape.fresh, h'.shape.sprites, h'.shape.vec⟩,
      h'.history.congr rfl rfl rfl, fun hpos i hi => ?_⟩,
      ⟨hsorted.now, hsorted.log, hsorted.vec, hsorted.live⟩, hplace⟩
    have hsplit : L' idx = kept' := by simpa using h'.split
    by_cases hii : i = idx
    · subst hii
      rw [hsplit]
      show MinAt (Function.update s1.minExpiringTime i m i) _ _
      rw [Function.update_self]
      exact (h'.min hpos).2
    · show MinAt (Function.update s1.minExpiringTime idx m i) _ _
      rw [Function.update_of_ne hii]
      exact (h'.min hpos).1 i hi hii

end Taomee.Timer
