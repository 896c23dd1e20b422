import Taomee.Timer.Lemmas.Turns

/-!
# Loops over all timers end

While the links stand for lists and the indices are in the table, the loops that go over all timers
come to their ends. After a refresh every timer has the callback that is registered for its index.
-/

namespace Taomee.Timer

open Registry

variable {s s' : Process} {L : Fin 5 → List Nat} {M : List Nat} {t : Nat} {i : Fin 5}

/-- The callback of a timer is the one that is registered for its index, or none where none is. -/
def Process.UpToDate (s : Process) (id : TimerId) : Prop :=
  ∀ e, s.registry.entries id = some e → e.callback = s.tcfs e.index

/-- The state of a refresh that has come to the timers `done`. -/
structure Refreshing (tcfs : Nat → Option Nat) (L : Fin 5 → List Nat) (M : List Nat) (done : TimerId → Prop)
    (s : Process) : Prop where
  linked : Linked s L M
  table : s.tcfs = tcfs
  inTable : ∀ id e, s.registry.entries id = some e → e.index < maxTimerType
  upToDate : ∀ id, done id → s.UpToDate id

variable {tcfs : Nat → Option Nat} {done done' : TimerId → Prop}

theorem Refreshing.mono (h : Refreshing tcfs L M done s) (hd : ∀ id, done' id → done id) :
    Refreshing tcfs L M done' s := ⟨h.linked, h.table, h.inTable, fun id hid => h.upToDate id (hd id hid)⟩

/-! ## Turns -/

theorem length_lt_of_fresh {l : List Nat} {n : Nat} (hnd : l.Nodup) (h : ∀ t ∈ l, t < n) : l.length < n + 1 := by
  have hsub : l ⊆ List.range n := fun t ht => List.mem_range.mpr (h t ht)
  have hle := (List.subperm_of_subset hnd hsub).length_le
  rw [List.length_range] at hle
  exact Nat.lt_succ_of_le hle

theorem Linked.length_lt_turns (h : Linked s L M) (i : Fin 5) : (L i).length < s.turns :=
  length_lt_of_fresh (h.seconds.nodup i) fun t ht => h.seconds.fresh t ((h.seconds.alloc t).mpr ⟨i, ht⟩)

theorem Linked.length_lt_microTurns (h : Linked s L M) : M.length < s.microTurns :=
  length_lt_of_fresh h.nodup h.fresh

theorem Linked.microNext (h : Linked s L M) {front as : List Nat} (hM : M = front ++ t :: as) :
    s.microLinks.next (.entry t) = ListLoop.nodeAt Process.microList MicroPtr.entry as := by
  have hr := h.micro
  rw [hM, List.map_append, List.map_cons] at hr
  exact hr.next

/-! ## A refresh -/

/-- One timer is looked up again. -/
theorem Refreshing.reload (h : Refreshing tcfs L M done s) {id : TimerId} {e : Entry Nat}
    (he : s.registry.entries id = some e) (hl : Linked s' L M) (ht : s'.tcfs = s.tcfs)
    (hs' : s'.registry.entries =
      Function.update s.registry.entries id (some { e with callback := s.tcfs e.index })) :
    Refreshing tcfs L M (fun id' => done id' ∨ id' = id) s' where
  linked := hl
  table := ht.trans h.table
  inTable := by
    intro id' e' he'
    rw [hs', Function.update_apply] at he'
    by_cases hid : id' = id
    · rw [if_pos hid] at he'
      rw [← Option.some.inj he']
      exact h.inTable id e he
    · rw [if_neg hid] at he'
      exact h.inTable id' e' he'
  upToDate := by
    intro id' hid' e' he'
    rw [hs', Function.update_apply] at he'
    rw [ht]
    by_cases hid : id' = id
    · rw [if_pos hid] at he'
      rw [← Option.some.inj he']
    · rw [if_neg hid] at he'
      exact h.upToDate id' (hid'.resolve_right hid) e' he'

theorem Refreshing.refreshTimer (h : Refreshing tcfs L M done s) (ht : t ∈ L i) :
    ∃ s', s.refreshTimer t = some s' ∧ Refreshing tcfs L M (fun id => done id ∨ id = .second t) s' := by
  have hne := (h.linked.seconds.alloc t).mpr ⟨i, ht⟩
  obtain ⟨ts, hts⟩ := Option.ne_none_iff_exists'.mp hne
  have hindex : ts.funcIndx < maxTimerType := h.inTable _ _ (entries_second hts)
  refine ⟨s.setTimer t { ts with function := s.tcfs ts.funcIndx }, ?_, ?_⟩
  · rw [Process.refreshTimer, hts, Option.bind_some, if_pos hindex]
  · exact h.reload (entries_second hts) (h.linked.setTimer hne _) rfl (registry_setTimer s t _)

theorem Refreshing.refreshMicroTimer (h : Refreshing tcfs L M done s) (ht : t ∈ M) :
    ∃ s', s.refreshMicroTimer t = some s' ∧ Refreshing tcfs L M (fun id => done id ∨ id = .micro t) s' := by
  have hne := (h.linked.alloc t).mpr ht
  obtain ⟨mt, hmt⟩ := Option.ne_none_iff_exists'.mp hne
  have hindex : mt.funcIndx < maxTimerType := h.inTable _ _ (entries_micro hmt)
  refine ⟨s.setMicroTimer t (some { mt with function := s.tcfs mt.funcIndx }), ?_, ?_⟩
  · rw [Process.refreshMicroTimer, hmt, Option.bind_some, if_pos hindex]
  · exact h.reload (entries_micro hmt) (h.linked.setMicroTimer hne _) rfl (registry_setMicroTimer s t _)

/-- A loop over timers of one kind, `name`, that stand in the list `as`. -/
theorem Refreshing.loop {P : Type} [DecidableEq P] {c : ListLoop.Cursor Process P Nat} (node : Nat → P)
    {body : Process → Nat → Option Process} {name : Nat → TimerId} {as : List Nat} {turns : Nat}
    (hentry : ∀ t, c.entryOf (node t) = some t) (hhead : ∀ t, node t ≠ c.head)
    (hbody : ∀ s t done, t ∈ as → Refreshing tcfs L M done s →
      ∃ s', body s t = some s' ∧ Refreshing tcfs L M (fun id => done id ∨ id = name t) s')
    (hnext : ∀ s t front rest, Linked s L M → as = front ++ t :: rest →
      c.next s (node t) = ListLoop.nodeAt c node rest)
    (hfirst : c.next s c.head = ListLoop.nodeAt c node as) (hlt : as.length < turns)
    (h : Refreshing tcfs L M done s) : ∃ s', ListLoop.forEach c body turns s = some s' ∧
      Refreshing tcfs L M (fun id => done id ∨ ∃ t ∈ as, id = name t) s' := by
  -- the timers in front of those that are ahead are done
  let I : List Nat → Process → Prop := fun ahead s =>
    ∃ front, as = front ++ ahead ∧ Refreshing tcfs L M (fun id => done id ∨ ∃ t ∈ front, id = name t) s
  have hturn : ∀ t rest s, I (t :: rest) s →
      ∃ s', body s t = some s' ∧ I rest s' ∧ c.next s' (node t) = ListLoop.nodeAt c node rest := by
    rintro t rest s ⟨front, hfront, hI⟩
    obtain ⟨s', hs', hI'⟩ := hbody s t _ (by rw [hfront]; simp) hI
    refine ⟨s', hs', ⟨front ++ [t], by rw [hfront]; simp, hI'.mono fun id hid => ?_⟩, hnext s' t front rest hI'.linked hfront⟩
    rcases hid with hid | ⟨t', ht', rfl⟩
    · exact .inl (.inl hid)
    · rcases List.mem_append.mp ht' with ht' | ht'
      · exact .inl (.inr ⟨t', ht', rfl⟩)
      · exact .inr (congrArg name (List.mem_singleton.mp ht'))
  have hstart : I as s := ⟨[], rfl, h.mono (by simp)⟩
  obtain ⟨s', hs', front, hfront, hI⟩ := ListLoop.forEach_ends c node hentry hhead hturn hstart hfirst hlt
  rw [List.append_nil] at hfront
  subst hfront
  exact ⟨s', hs', hI⟩

theorem Refreshing.vecLoop (h : Refreshing tcfs L M done s) (i : Fin 5) :
    ∃ s', ListLoop.forEach (Process.vecList i) Process.refreshTimer s.turns s = some s' ∧
      Refreshing tcfs L M (fun id => done id ∨ ∃ t ∈ L i, id = .second t) s' :=
  h.loop Ptr.entry (fun _ => rfl) (fun _ => nofun) (fun _ _ _ ht h => h.refreshTimer ht)
    (fun _ _ _ _ hl has => next_entry hl.seconds has) (next_head h.linked.seconds i) (h.linked.length_lt_turns i)

theorem Refreshing.microLoop (h : Refreshing tcfs L M done s) :
    ∃ s', ListLoop.forEach Process.microList Process.refreshMicroTimer s.microTurns s = some s' ∧
      Refreshing tcfs L M (fun id => done id ∨ ∃ t ∈ M, id = .micro t) s' :=
  h.loop MicroPtr.entry (fun _ => rfl) (fun _ => nofun) (fun _ _ _ ht h => h.refreshMicroTimer ht)
    (fun _ _ _ _ hl has => hl.microNext has) h.linked.micro.next_head h.linked.length_lt_microTurns

/-- A refresh ends, and leaves every timer that is there up to date. -/
theorem Linked.refreshTimersCallback (h : Linked s L M)
    (hindex : ∀ id e, s.registry.entries id = some e → e.index < maxTimerType) :
    ∃ s', s.refreshTimersCallback = some s' ∧ Linked s' L M ∧ s'.tcfs = s.tcfs ∧ ∀ id, s'.UpToDate id := by
  let I : List (Fin 5) → Process → Prop := fun ahead s' =>
    Refreshing s.tcfs L M (fun id => ∃ i ∉ ahead, ∃ t ∈ L i, id = .second t) s'
  have hlist : ∀ i ahead s', I (i :: ahead) s' → ∃ s'',
      ListLoop.forEach (Process.vecList i) Process.refreshTimer s'.turns s' = some s'' ∧ I ahead s'' := by
    intro i ahead s' hI
    obtain ⟨s'', hs'', hI'⟩ := hI.vecLoop i
    refine ⟨s'', hs'', hI'.mono fun id ⟨j, hj, t, ht, hid⟩ => ?_⟩
    by_cases hji : j = i
    · exact .inr ⟨t, hji ▸ ht, hid⟩
    · exact .inl ⟨j, by simp [hji, hj], t, ht, hid⟩
  have hstart : I (List.finRange 5) s := ⟨h, rfl, hindex, fun id ⟨i, hi, _⟩ => absurd (List.mem_finRange i) hi⟩
  obtain ⟨s₁, hs₁, hI₁⟩ := ListLoop.foldlM_ends I hlist hstart
  obtain ⟨s', hs', hI'⟩ := Refreshing.microLoop hI₁
  refine ⟨s', Option.bind_eq_some_iff.mpr ⟨s₁, hs₁, hs'⟩, hI'.linked, hI'.table, fun id e he => ?_⟩
  refine hI'.upToDate id ?_ e he
  cases id with
  | second t =>
      have hne : s'.seconds.timers t ≠ none := fun hn => by simp [Process.registry, hn] at he
      obtain ⟨i, hi⟩ := (hI'.linked.seconds.alloc t).mp hne
      exact .inl ⟨i, List.not_mem_nil, t, hi, rfl⟩
  | micro t =>
      have hne : s'.microTimers t ≠ none := fun hn => by simp [Process.registry, hn] at he
      exact .inr ⟨t, (hI'.linked.alloc t).mp hne, rfl⟩

/-! ## Removing many timers -/

/-- Removing the microsecond timers of an owner ends. -/
theorem Linked.removeMicroTimers (h : Linked s L M) (owner : Nat) :
    ∃ s', s.removeMicroTimers owner = some s' ∧ Linked s' L M := by
  let I : List Nat → Process → Prop := fun ahead s => (∃ front, M = front ++ ahead) ∧ Linked s L M
  have hnext : ∀ t rest s, I (t :: rest) s →
      s.microLinks.next (.entry t) = ListLoop.nodeAt Process.microList MicroPtr.entry rest :=
    fun t rest s ⟨⟨front, hfront⟩, hl⟩ => hl.microNext hfront
  have hbody : ∀ t rest s, I (t :: rest) s → ∃ s', s.removeIfOwned owner t = some s' ∧ I rest s' := by
    rintro t rest s ⟨⟨front, hfront⟩, hl⟩
    obtain ⟨mt, hmt⟩ := Option.ne_none_iff_exists'.mp ((hl.alloc t).mpr (by rw [hfront]; simp))
    refine ⟨_, congrArg (Option.map _) hmt, ⟨front ++ [t], by rw [hfront]; simp⟩, ?_⟩
    dsimp only
    by_cases ho : mt.owner = owner
    · rw [if_pos ho]
      exact hl.markMicro t
    · rw [if_neg ho]
      exact hl
  have hstart : I M s := ⟨⟨[], rfl⟩, h⟩
  obtain ⟨s', hs', hI⟩ := ListLoop.forEachSafe_ends Process.microList MicroPtr.entry (fun _ => rfl) (fun _ => nofun)
    hnext hbody hstart h.micro.next_head h.length_lt_microTurns
  exact ⟨s', hs', hI.2⟩

/-- The loop that frees the timers of one of the lists `vec`: the list that is left becomes shorter. -/
theorem Linked.destroyVec (h : Linked s L M) (i : Fin 5) :
    ∃ s' L', ListLoop.forEachSafe (Process.vecList i) Process.destroyEntry s.turns s = some s' ∧ Linked s' L' M := by
  let I : List Nat → Process → Prop := fun ahead s => ∃ L, Linked s L M ∧ L i = ahead
  have hnext : ∀ t rest s, I (t :: rest) s →
      s.seconds.links.next (.entry t) = ListLoop.nodeAt (Process.vecList i) Ptr.entry rest := by
    rintro t rest s ⟨L, hl, hL⟩
    exact @next_entry s.seconds L t rest hl.seconds i [] hL
  have hbody : ∀ t rest s, I (t :: rest) s → ∃ s', s.destroyEntry t = some s' ∧ I rest s' := by
    rintro t rest s ⟨L, hl, hL⟩
    have hne := (hl.seconds.alloc t).mpr ⟨i, by rw [hL]; exact List.mem_cons_self⟩
    obtain ⟨ts, hts⟩ := Option.ne_none_iff_exists'.mp hne
    refine ⟨_, congrArg (Option.map _) hts, without L t,
      hl.setSeconds ⟨rfl, rfl, rfl, rfl⟩ (hl.seconds.freeTimer hne), ?_⟩
    have hnd := hl.seconds.nodup i
    rw [hL] at hnd
    rw [without, hL]
    exact @filter_ne_of_nodup _ _ [] _ _ hnd
  obtain ⟨s', hs', L', hl', -⟩ := ListLoop.forEachSafe_ends (Process.vecList i) Ptr.entry (fun _ => rfl)
    (fun _ => Ptr.noConfusion) hnext hbody ⟨L, h, rfl⟩ (next_head h.seconds i) (h.length_lt_turns i)
  exact ⟨s', L', hs', hl'⟩

theorem Linked.destroyMicro (h : Linked s L M) :
    ∃ s', ListLoop.forEachSafe Process.microList Process.destroyMicroEntry s.microTurns s = some s' ∧ Linked s' L [] := by
  let I : List Nat → Process → Prop := fun ahead s => Linked s L ahead
  have hnext : ∀ t rest s, I (t :: rest) s →
      s.microLinks.next (.entry t) = ListLoop.nodeAt Process.microList MicroPtr.entry rest :=
    fun t rest s hl => @Linked.microNext s L _ t hl [] rest rfl
  have hbody : ∀ t rest s, I (t :: rest) s → ∃ s', s.destroyMicroEntry t = some s' ∧ I rest s' := by
    intro t rest s hl
    have hne := (hl.alloc t).mpr List.mem_cons_self
    obtain ⟨mt, hmt⟩ := Option.ne_none_iff_exists'.mp hne
    refine ⟨_, congrArg (Option.map _) hmt, ?_⟩
    have hfree := hl.freeMicro hne
    have hfilter : (t :: rest).filter (· ≠ t) = rest := @filter_ne_of_nodup _ _ [] _ _ hl.nodup
    rw [hfilter] at hfree
    exact hfree
  exact ListLoop.forEachSafe_ends Process.microList MicroPtr.entry (fun _ => rfl) (fun _ => nofun) hnext hbody h
    h.micro.next_head h.length_lt_microTurns

/-- Taking everything down ends. -/
theorem Linked.destroyTimer (h : Linked s L M) : ∃ s' L', s.destroyTimer = some s' ∧ Linked s' L' [] := by
  have hlist : ∀ (i : Fin 5) (rest : List (Fin 5)) s, (∃ L, Linked s L M) →
      ∃ s', ListLoop.forEachSafe (Process.vecList i) Process.destroyEntry s.turns s = some s' ∧
        ∃ L, Linked s' L M := by
    rintro i - s ⟨L, h⟩
    obtain ⟨s', L', hs', hl'⟩ := h.destroyVec i
    exact ⟨s', hs', L', hl'⟩
  obtain ⟨s₁, hs₁, L', h₁⟩ := ListLoop.foldlM_ends (fun _ s => ∃ L, Linked s L M) hlist ⟨L, h⟩
  obtain ⟨s', hs', hl'⟩ := h₁.destroyMicro
  exact ⟨s', L', Option.bind_eq_some_iff.mpr ⟨s₁, hs₁, hs'⟩, hl'⟩

end Taomee.Timer
