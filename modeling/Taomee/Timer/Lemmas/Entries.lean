import Taomee.Timer.Lemmas.Loop
import Taomee.Timer.Reload

/-!
# The timers as entries whose callbacks are looked up again

The timers of both kinds are the entries of a registry, named by their kinds and numbers. A second
timer is listed where it is in the list of an owner; a microsecond timer never is. Every function
moves the registry by its steps, and keeps the lists that the links stand for.
-/

namespace Taomee.Timer

open Registry Relation

def TimerStruct.entry (ts : TimerStruct) : Entry Nat := ⟨ts.function, ts.funcIndx⟩

def MicroTimerStruct.entry (mt : MicroTimerStruct) : Entry Nat := ⟨mt.function, mt.funcIndx⟩

/-- The registry that the timers and the table form. -/
def Process.registry (s : Process) : Registry TimerId Nat where
  entries := fun id => match id with
    | .second t => (s.seconds.timers t).map TimerStruct.entry
    | .micro t => (s.microTimers t).map MicroTimerStruct.entry
  issued := fun id => match id with
    | .second t => t < s.seconds.fresh
    | .micro t => t < s.microFresh
  listed := fun id => match id with
    | .second t => ∃ head, t ∈ s.seconds.spriteLists head
    | .micro _ => False
  table := s.tcfs
  marks := s.marks

/-- The links stand for the lists `L` of second timers and the list `M` of microsecond timers, and the
timers that are there are those in the lists. -/
structure Linked (s : Process) (L : Fin 5 → List Nat) (M : List Nat) : Prop where
  seconds : Shape s.seconds L
  micro : s.microLinks.Ring .head (M.map .entry)
  alloc : ∀ t, s.microTimers t ≠ none ↔ t ∈ M
  fresh : ∀ t ∈ M, t < s.microFresh

/-- What happens keeps the lists, and moves the registry by its steps. -/
def Moves (s s' : Process) : Prop :=
  ∀ L M, Linked s L M →
    (∃ L' M', Linked s' L' M') ∧ ReflTransGen (Registry.Step maxTimerType) s.registry s'.registry

variable {s s' s'' : Process} {L L' : Fin 5 → List Nat} {M M' : List Nat} {t : Nat}

theorem Moves.refl (s : Process) : Moves s s := fun L M h => ⟨⟨L, M, h⟩, .refl⟩

theorem Moves.trans (h : Moves s s') (h' : Moves s' s'') : Moves s s'' := by
  intro L M hl
  obtain ⟨⟨L', M', hl'⟩, hs⟩ := h L M hl
  obtain ⟨hl'', hs'⟩ := h' L' M' hl'
  exact ⟨hl'', hs.trans hs'⟩

/-- One step of the registry. -/
theorem Moves.single (h : ∀ L M, Linked s L M →
    (∃ L' M', Linked s' L' M') ∧ Registry.Step maxTimerType s.registry s'.registry) : Moves s s' := by
  intro L M hl
  obtain ⟨hl', hs⟩ := h L M hl
  exact ⟨hl', .single hs⟩

/-! ## Parts of the state -/

/-- What second timers have nothing to do with is as before. -/
structure SameMicro (s s' : Process) : Prop where
  links : s'.microLinks = s.microLinks
  timers : s'.microTimers = s.microTimers
  fresh : s'.microFresh = s.microFresh
  tcfs : s'.tcfs = s.tcfs

theorem Linked.setSeconds (h : Linked s L M) (hm : SameMicro s s') (hs : Shape s'.seconds L') :
    Linked s' L' M where
  seconds := hs
  micro := by rw [hm.links]; exact h.micro
  alloc := by rw [hm.timers]; exact h.alloc
  fresh := by rw [hm.fresh]; exact h.fresh

/-- The microsecond timers change, or none of the timers. -/
theorem Linked.setMicro (h : Linked s L M) (hs : s'.seconds = s.seconds)
    (hr : s'.microLinks.Ring .head (M'.map .entry)) (ha : ∀ t, s'.microTimers t ≠ none ↔ t ∈ M')
    (hf : ∀ t ∈ M', t < s'.microFresh) : Linked s' L M' where
  seconds := by rw [hs]; exact h.seconds
  micro := hr
  alloc := ha
  fresh := hf

/-- A second timer has other data. -/
theorem registry_setSecond {o : Option TimerStruct} (hm : SameMicro s s')
    (ht : s'.seconds.timers = Function.update s.seconds.timers t o) :
    s'.registry.entries = Function.update s.registry.entries (.second t) (o.map TimerStruct.entry) := by
  funext id
  rw [Function.update_apply]
  cases id with
  | second t' =>
      simp only [Process.registry, ht, Function.update_apply, TimerId.second.injEq]
      split <;> rfl
  | micro t' =>
      rw [if_neg nofun]
      simp only [Process.registry, hm.timers]

/-- A microsecond timer has other data. -/
theorem registry_setMicro {o : Option MicroTimerStruct} (hs : s'.seconds.timers = s.seconds.timers)
    (ht : s'.microTimers = Function.update s.microTimers t o) :
    s'.registry.entries = Function.update s.registry.entries (.micro t) (o.map MicroTimerStruct.entry) := by
  funext id
  rw [Function.update_apply]
  cases id with
  | second t' =>
      rw [if_neg nofun]
      simp only [Process.registry, hs]
  | micro t' =>
      simp only [Process.registry, ht, Function.update_apply, TimerId.micro.injEq]
      split <;> rfl

/-- No timer is new, and none is in a list of an owner that was not there before. -/
theorem lists_same (hf : s'.seconds.fresh = s.seconds.fresh) (hmf : s'.microFresh = s.microFresh)
    (hl : ∀ head t, t ∈ s'.seconds.spriteLists head → t ∈ s.seconds.spriteLists head) :
    Registry.Lists s.registry s'.registry fun _ => False where
  issued := by
    intro id
    cases id <;> simp [Process.registry, hf, hmf]
  listed := by
    intro id h
    cases id with
    | second t =>
        obtain ⟨head, hm⟩ := h
        exact .inl ⟨head, hl head t hm⟩
    | micro t => exact .inl h

/-- The functions and indices of the second timers, and the lists of their owners, are as before. -/
theorem Moves.setSeconds (hm : SameMicro s s') (hmarks : s'.marks = s.marks)
    (hs : ∀ L, Shape s.seconds L → (∃ L', Shape s'.seconds L') ∧
      (∀ t, (s'.seconds.timers t).map TimerStruct.entry = (s.seconds.timers t).map TimerStruct.entry) ∧
      s'.seconds.fresh = s.seconds.fresh ∧ s'.seconds.spriteLists = s.seconds.spriteLists) : Moves s s' := by
  refine Moves.single fun L M hl => ?_
  obtain ⟨⟨L', hL'⟩, hentries, hfresh, hsprites⟩ := hs L hl.seconds
  refine ⟨⟨L', M, hl.setSeconds hm hL'⟩, .rest ⟨?_, lists_same hfresh hm.fresh ?_⟩ ⟨hm.tcfs, hmarks⟩⟩
  · funext id
    cases id with
    | second t => exact hentries t
    | micro t => simp only [Process.registry, hm.timers]
  · rw [hsprites]
    exact fun _ _ => id

theorem Moves.setStack (s : Process) (stack : List Frame) : Moves s (s.setStack stack) :=
  Moves.setSeconds ⟨rfl, rfl, rfl, rfl⟩ rfl fun L h => ⟨⟨L, h⟩, fun _ => rfl, rfl, rfl⟩

theorem Moves.renewNow (s : Process) (sec usec : Int) : Moves s (s.renewNow sec usec) :=
  Moves.setSeconds ⟨rfl, rfl, rfl, rfl⟩ rfl fun L h => ⟨⟨L, h.setNow sec⟩, fun _ => rfl, rfl, rfl⟩

/-- A callback is called. -/
theorem Moves.called {id : TimerId} {e : Entry Nat} (he : s.registry.entries id = some e)
    (hcb : e.callback ≠ none) : Moves s (s.mark (.called id)) := by
  refine Moves.single fun L M hl => ⟨⟨L, M, hl.seconds, hl.micro, hl.alloc, hl.fresh⟩, ?_⟩
  exact .call id e he hcb ⟨rfl, lists_same rfl rfl fun _ _ hm => hm⟩ rfl rfl

/-! ## Second timers -/

/-- The data of a timer changes. -/
theorem Shape.setTimer {b : Timers} (h : Shape b L) (ht : b.timers t ≠ none) (ts : TimerStruct) :
    Shape (b.setTimer t (some ts)) L where
  rings := h.rings
  alloc := by
    intro t'
    rw [← h.alloc]
    simp only [Timers.setTimer, Function.update_apply]
    split
    · rename_i he
      simp [he, ht]
    · rfl
  fresh := by
    intro t' ht'
    simp only [Timers.setTimer, Function.update_apply] at ht' ⊢
    split at ht'
    · rename_i he
      exact h.fresh t' (by rw [he]; exact ht)
    · exact h.fresh t' ht'
  sprites := by
    intro head t' ht'
    simp only [Timers.setTimer, Function.update_apply]
    split
    · exact Option.some_ne_none _
    · exact h.sprites head t' ht'
  vec := h.vec

theorem Linked.setTimer (h : Linked s L M) (ht : s.seconds.timers t ≠ none) (ts : TimerStruct) :
    Linked (s.setTimer t ts) L M :=
  h.setSeconds ⟨rfl, rfl, rfl, rfl⟩ (h.seconds.setTimer ht ts)

theorem registry_setTimer (s : Process) (t : Nat) (ts : TimerStruct) :
    (s.setTimer t ts).registry.entries = Function.update s.registry.entries (.second t) (some ts.entry) :=
  @registry_setSecond _ (s.setTimer t ts) t (some ts) ⟨rfl, rfl, rfl, rfl⟩ rfl

theorem entries_second {ts : TimerStruct} (h : s.seconds.timers t = some ts) :
    s.registry.entries (.second t) = some ts.entry := by
  simp [Process.registry, h]

theorem Moves.setFuncIndx {head fidx : Nat} (ht : t ∈ s.seconds.spriteLists head) (hf : fidx < maxTimerType) :
    Moves s (s.setFuncIndx t fidx) := by
  unfold Process.setFuncIndx
  cases hts : s.seconds.timers t with
  | none => exact Moves.refl s
  | some ts =>
      have hne : s.seconds.timers t ≠ none := by
        rw [hts]
        exact Option.some_ne_none ts
      refine Moves.single fun L M hl => ⟨⟨L, M, hl.setTimer hne _⟩, ?_⟩
      exact .reindex (.second t) ts.entry fidx ⟨head, ht⟩ (entries_second hts) hf (registry_setTimer s t _)
        (lists_same rfl rfl fun _ _ => id) ⟨rfl, rfl⟩

theorem Moves.refreshTimer (h : s.refreshTimer t = some s') : Moves s s' := by
  obtain ⟨ts, hts, h⟩ := Option.bind_eq_some_iff.mp h
  by_cases hi : ts.funcIndx < maxTimerType
  · rw [if_pos hi] at h
    obtain rfl := Option.some.inj h
    have hne : s.seconds.timers t ≠ none := by
      rw [hts]
      exact Option.some_ne_none ts
    refine Moves.single fun L M hl => ⟨⟨L, M, hl.setTimer hne _⟩, ?_⟩
    exact .reload (.second t) ts.entry (entries_second hts) (registry_setTimer s t _)
      (lists_same rfl rfl fun _ _ => id) ⟨rfl, rfl⟩
  · rw [if_neg hi] at h
    cases h

/-- A timer with the next number is linked and put into the list of an owner. -/
theorem Moves.linkFresh (ts : TimerStruct) (head : Nat) (i : Fin 5) (hindex : ts.funcIndx < maxTimerType)
    (hm : SameMicro s s') (hmarks : s'.marks = s.marks)
    (hlinks : s'.seconds.links = s.seconds.links.addTail (.entry s.seconds.fresh) (.head i))
    (htimers : s'.seconds.timers = Function.update s.seconds.timers s.seconds.fresh (some ts))
    (hfresh : s'.seconds.fresh = s.seconds.fresh + 1)
    (hsprites : s'.seconds.spriteLists =
      Function.update s.seconds.spriteLists head (s.seconds.spriteLists head ++ [s.seconds.fresh]))
    (hvec : s'.seconds.vecExpire = s.seconds.vecExpire) : Moves s s' := by
  refine Moves.single fun L M hl => ?_
  refine ⟨⟨_, M, hl.setSeconds hm (hl.seconds.linkFresh ts head i hlinks htimers hfresh hsprites hvec)⟩, ?_⟩
  refine .add (.second s.seconds.fresh) ts.entry (Nat.lt_irrefl _) hindex (registry_setSecond hm htimers) ⟨?_, ?_⟩
    ⟨hm.tcfs, hmarks⟩
  · intro id
    cases id with
    | second t =>
        simp only [Process.registry, hfresh, TimerId.second.injEq]
        exact Nat.lt_succ_iff_lt_or_eq
    | micro t => simp [Process.registry, hm.fresh]
  · intro id hlisted
    cases id with
    | second t =>
        obtain ⟨head', hmem⟩ := hlisted
        rw [hsprites, Function.update_apply] at hmem
        by_cases hh : head' = head
        · rw [if_pos hh] at hmem
          rcases List.mem_append.mp hmem with hmem | hmem
          · exact .inl ⟨head, hmem⟩
          · exact .inr (congrArg TimerId.second (List.mem_singleton.mp hmem))
        · rw [if_neg hh] at hmem
          exact .inl ⟨head', hmem⟩
    | micro t => exact .inl hlisted

theorem setMinExptm_frame (b : Timers) (e : Int) (i : Fin 5) :
    (b.setMinExptm e i).links = b.links ∧ (b.setMinExptm e i).spriteLists = b.spriteLists ∧
      (b.setMinExptm e i).vecExpire = b.vecExpire := by
  unfold Timers.setMinExptm
  split <;> exact ⟨rfl, rfl, rfl⟩

theorem newTimer_sprites (s : Process) (head : Nat) (function : Option Nat) (owner data : Nat) (expire : Int) :
    (s.newTimer head function owner data expire).1.seconds.spriteLists =
      Function.update s.seconds.spriteLists head (s.seconds.spriteLists head ++ [s.seconds.fresh]) :=
  (setMinExptm_frame _ _ _).2.1

theorem Moves.newTimer (s : Process) (head : Nat) (function : Option Nat) (owner data : Nat) (expire : Int) :
    Moves s (s.newTimer head function owner data expire).1 := by
  refine Moves.linkFresh ⟨expire, owner, data, function, 0⟩ head (s.seconds.vecIdx (toI32 (expire - s.seconds.now)))
    (Nat.zero_lt_succ _) ⟨rfl, rfl, rfl, rfl⟩ rfl ?_ ?_ ?_ (newTimer_sprites s head function owner data expire) ?_
  · exact (setMinExptm_frame _ _ _).1
  · exact (setMinExptm_other _ _ _).1
  · exact (setMinExptm_other _ _ _).2.1
  · exact (setMinExptm_frame _ _ _).2.2

theorem Moves.modExpireTime (s : Process) (t : Nat) (e : Int) : Moves s (s.modExpireTime t e) := by
  refine Moves.setSeconds ⟨rfl, rfl, rfl, rfl⟩ rfl fun L h => ?_
  cases hts : s.seconds.timers t with
  | none =>
      have heq : s.seconds.modExpireTime t e = s.seconds := by
        unfold Timers.modExpireTime
        simp only [hts]
      exact ⟨⟨L, by rw [Process.modExpireTime, heq]; exact h⟩, by simp [Process.modExpireTime, heq]⟩
  | some ts =>
      by_cases h0 : ts.expire = 0
      · have heq : s.seconds.modExpireTime t e = s.seconds := by
          unfold Timers.modExpireTime
          simp only [hts, if_pos h0]
        exact ⟨⟨L, by rw [Process.modExpireTime, heq]; exact h⟩, by simp [Process.modExpireTime, heq]⟩
      · refine ⟨⟨_, h.modExpireTime hts h0 e⟩, ?_⟩
        simp only [Process.modExpireTime, Timers.modExpireTime, hts, if_neg h0]
        refine ⟨fun t' => ?_, (setMinExptm_other _ _ _).2.1, (setMinExptm_frame _ _ _).2.1⟩
        refine Eq.trans (congrArg (fun f => (f t').map TimerStruct.entry) (setMinExptm_other _ _ _).1) ?_
        simp only [Timers.listAddTail, Timers.listDelInit, Timers.setTimer, Function.update_apply]
        split
        · rename_i he
          rw [he, hts]
          rfl
        · rfl

theorem findEvent_mem {head : Nat} {function : Option Nat} (h : s.findEvent head function = some t) :
    t ∈ s.seconds.spriteLists head := List.mem_of_find?_eq_some h

theorem modExpireTime_sprites (b : Timers) (t : Nat) (e : Int) :
    (b.modExpireTime t e).spriteLists = b.spriteLists := by
  unfold Timers.modExpireTime
  split
  · rfl
  · split
    · rfl
    · exact (setMinExptm_frame _ _ _).2.1

/-- The timer that is returned is in the list of the owner. -/
theorem addEvent_mem (s : Process) (head : Nat) (function : Option Nat) (owner data : Nat) (expire : Int)
    (flag : TimerAddMode) : (s.addEvent head function owner data expire flag).2 ∈
      (s.addEvent head function owner data expire flag).1.seconds.spriteLists head := by
  have hnew : s.seconds.fresh ∈ (s.newTimer head function owner data expire).1.seconds.spriteLists head := by
    rw [newTimer_sprites]
    simp
  cases flag with
  | timerAddNewTimer => exact hnew
  | timerReplaceTimer =>
      cases hf : s.findEvent head function with
      | none =>
          simp only [Process.addEvent, hf]
          exact hnew
      | some t =>
          simp only [Process.addEvent, hf, Process.modExpireTime]
          rw [modExpireTime_sprites]
          exact findEvent_mem hf

theorem Moves.addEvent (s : Process) (head : Nat) (function : Option Nat) (owner data : Nat) (expire : Int)
    (flag : TimerAddMode) : Moves s (s.addEvent head function owner data expire flag).1 := by
  cases flag with
  | timerAddNewTimer => exact Moves.newTimer s head function owner data expire
  | timerReplaceTimer =>
      unfold Process.addEvent
      cases s.findEvent head function with
      | none => exact Moves.newTimer s head function owner data expire
      | some t => exact Moves.modExpireTime s t expire

theorem Moves.addEventEx (s : Process) (head : Nat) {fidx : Nat} (hf : fidx < maxTimerType) (owner data : Nat)
    (expire : Int) (flag : TimerAddMode) : Moves s (s.addEventEx head fidx owner data expire flag).1 := by
  unfold Process.addEventEx
  by_cases hcb : s.tcfs fidx = none
  · rw [if_pos hcb]
    exact Moves.refl s
  · rw [if_neg hcb]
    exact (Moves.addEvent s head (s.tcfs fidx) owner data expire flag).trans
      (Moves.setFuncIndx (addEvent_mem s head (s.tcfs fidx) owner data expire flag) hf)

/-! ## Removing second timers -/

theorem Moves.doRemoveTimer (ht : s.seconds.timers t ≠ none) (freed : Bool) : Moves s (s.doRemoveTimer t freed) := by
  refine Moves.single fun L M hl => ?_
  have hshape : ∃ L', Shape (s.seconds.doRemoveTimer t freed) L' := by
    cases freed with
    | true => exact ⟨_, hl.seconds.freeTimer ht⟩
    | false => exact ⟨L, hl.seconds.markTimer t⟩
  obtain ⟨L', hL'⟩ := hshape
  refine ⟨⟨L', M, hl.setSeconds ⟨rfl, rfl, rfl, rfl⟩ hL'⟩, ?_⟩
  have hsame : (s.seconds.doRemoveTimer t freed).fresh = s.seconds.fresh ∧
      (s.seconds.doRemoveTimer t freed).spriteLists = fun head => (s.seconds.spriteLists head).filter (· ≠ t) := by
    cases freed <;> exact ⟨rfl, rfl⟩
  obtain ⟨left, htimers, hleft⟩ : ∃ left : Option TimerStruct,
      (s.seconds.doRemoveTimer t freed).timers = Function.update s.seconds.timers t left ∧
        ∀ ts, left = some ts → ts.entry = ⟨none, 0⟩ := by
    cases freed with
    | true => exact ⟨none, rfl, nofun⟩
    | false =>
        refine ⟨_, rfl, fun ts hts => ?_⟩
        obtain ⟨ts', -, rfl⟩ := Option.map_eq_some_iff.mp hts
        rfl
  refine .remove (.second t) (left.map TimerStruct.entry) (hl.seconds.fresh t ht) (fun e he => ?_)
    (registry_setSecond ⟨rfl, rfl, rfl, rfl⟩ htimers) (lists_same hsame.1 rfl fun head t' hm => ?_) ?_ rfl rfl
  · obtain ⟨ts, hts, rfl⟩ := Option.map_eq_some_iff.mp he
    exact hleft ts hts
  · rw [show (s.doRemoveTimer t freed).seconds.spriteLists = _ from hsame.2] at hm
    exact List.mem_of_mem_filter hm
  · rintro ⟨head, hm⟩
    rw [show (s.doRemoveTimer t freed).seconds.spriteLists = _ from hsame.2] at hm
    simp at hm

/-- A timer that is marked is still there, as are the others. -/
theorem doRemoveTimer_there {t' : Nat} (ht : s.seconds.timers t ≠ none) :
    (s.doRemoveTimer t' false).seconds.timers t ≠ none := by
  simp only [Process.doRemoveTimer, Process.mark, Timers.doRemoveTimer, Bool.false_eq_true, if_false,
    Timers.setTimer, Function.update_apply]
  split
  · rename_i he
    rw [← he]
    simpa using ht
  · exact ht

theorem Moves.removeEach : ∀ {l : List Nat} {s : Process}, (∀ t ∈ l, s.seconds.timers t ≠ none) →
    Moves s (l.foldl (fun s t => s.doRemoveTimer t false) s)
  | [], s, _ => Moves.refl s
  | t :: _, _, h =>
      (Moves.doRemoveTimer (h t List.mem_cons_self) false).trans
        (Moves.removeEach fun t' ht' => doRemoveTimer_there (h t' (List.mem_cons_of_mem t ht')))

theorem Moves.removeTimers (s : Process) (head : Nat) : Moves s (s.removeTimers head) :=
  fun L M hl => Moves.removeEach (hl.seconds.sprites head) L M hl

end Taomee.Timer
