import Taomee.Timer.Lemmas.Entries

/-!
# Microsecond timers as entries

The microsecond timers stand in one list, in the order in which they were added. A removed one stays
until a scan comes to it.
-/

namespace Taomee.Timer

open Registry

variable {s s' : Process} {L : Fin 5 → List Nat} {M : List Nat} {t : Nat}

theorem Linked.nodup (h : Linked s L M) : M.Nodup :=
  List.Nodup.of_map MicroPtr.entry (List.nodup_cons.mp h.micro.nodup).2

theorem microEntry_notMem {m : List Nat} : MicroPtr.entry t ∉ MicroPtr.head :: m.map MicroPtr.entry ↔ t ∉ m := by
  simp

/-- A timer that is taken out of its list. -/
theorem Linked.unlinkMicro (h : Linked s L M) (ht : t ∈ M) (n p : MicroPtr) :
    ((s.microLinks.unlink (.entry t)).withLinks (.entry t) n p).Ring .head ((M.filter (· ≠ t)).map .entry) := by
  obtain ⟨as, bs, rfl⟩ := List.append_of_mem ht
  have hfilter := filter_ne_of_nodup h.nodup
  have hr := h.micro
  rw [List.map_append, List.map_cons] at hr
  rw [hfilter]
  have hun := hr.unlink
  rw [← List.map_append] at hun
  refine hun.withLinks (microEntry_notMem.mpr fun hm => ?_) n p
  rw [← hfilter] at hm
  simpa using (List.mem_filter.mp hm).2

theorem registry_setMicroTimer (s : Process) (t : Nat) (mt : MicroTimerStruct) :
    (s.setMicroTimer t (some mt)).registry.entries =
      Function.update s.registry.entries (.micro t) (some mt.entry) :=
  @registry_setMicro _ (s.setMicroTimer t (some mt)) t (some mt) rfl rfl

theorem entries_micro {mt : MicroTimerStruct} (h : s.microTimers t = some mt) :
    s.registry.entries (.micro t) = some mt.entry := by
  simp [Process.registry, h]

/-! ## Adding -/

/-- A timer with the next number is put at the tail of the list. -/
theorem Moves.linkMicro (mt : MicroTimerStruct) (hindex : mt.funcIndx < maxTimerType)
    (hs : s'.seconds = s.seconds) (htcfs : s'.tcfs = s.tcfs) (hmarks : s'.marks = s.marks)
    (hlinks : s'.microLinks = s.microLinks.addTail (.entry s.microFresh) .head)
    (htimers : s'.microTimers = Function.update s.microTimers s.microFresh (some mt))
    (hfresh : s'.microFresh = s.microFresh + 1) : Moves s s' := by
  refine Moves.single fun L M hl => ?_
  have hnot : s.microFresh ∉ M := fun hm => Nat.lt_irrefl _ (hl.fresh _ hm)
  have hring : s'.microLinks.Ring .head ((M ++ [s.microFresh]).map .entry) := by
    rw [hlinks, List.map_append]
    exact hl.micro.addTail (microEntry_notMem.mpr hnot)
  refine ⟨⟨L, M ++ [s.microFresh], hl.setMicro hs hring (fun t => ?_) fun t ht => ?_⟩, ?_⟩
  · simp only [htimers, Function.update_apply, List.mem_append, List.mem_singleton]
    split
    · rename_i he
      simp [he]
    · rename_i he
      simp [he, hl.alloc]
  · rw [hfresh]
    rcases List.mem_append.mp ht with ht | ht
    · exact Nat.lt_succ_of_lt (hl.fresh t ht)
    · rw [List.mem_singleton.mp ht]
      exact Nat.lt_succ_self _
  · refine .add (.micro s.microFresh) mt.entry (Nat.lt_irrefl _) hindex
      (registry_setMicro (by rw [hs]) htimers) ⟨fun id => ?_, fun id hm => ?_⟩ ⟨htcfs, hmarks⟩
    · cases id with
      | second t => simp [Process.registry, hs]
      | micro t =>
          simp only [Process.registry, hfresh, TimerId.micro.injEq]
          exact Nat.lt_succ_iff_lt_or_eq
    · cases id with
      | second t => exact .inl (by simpa [Process.registry, hs] using hm)
      | micro t => exact .inl hm

theorem Moves.addMicroEvent (s : Process) (func : Option Nat) (tvSec tvUsec : Int) (owner data : Nat) :
    Moves s (s.addMicroEvent func tvSec tvUsec owner data).1 :=
  Moves.linkMicro ⟨tvSec, tvUsec, owner, data, func, 0⟩ (Nat.zero_lt_succ _) rfl rfl rfl rfl rfl rfl

theorem Moves.addMicroEventEx (s : Process) {fidx : Nat} (hf : fidx < maxTimerType) (tvSec tvUsec : Int)
    (owner data : Nat) : Moves s (s.addMicroEventEx fidx tvSec tvUsec owner data).1 := by
  refine Moves.linkMicro ⟨tvSec, tvUsec, owner, data, s.tcfs fidx, fidx⟩ hf rfl rfl rfl rfl ?_ rfl
  simp [Process.addMicroEventEx, Process.addMicroEvent, Process.setMicroTimer]

/-! ## Changing and removing -/

/-- The data of a timer changes. -/
theorem Linked.setMicroTimer (h : Linked s L M) (ht : s.microTimers t ≠ none) (mt : MicroTimerStruct) :
    Linked (s.setMicroTimer t (some mt)) L M := by
  refine h.setMicro rfl h.micro (fun t' => ?_) h.fresh
  rw [← h.alloc]
  simp only [Process.setMicroTimer, Function.update_apply]
  split
  · rename_i he
    simp [he, ht]
  · rfl

theorem Moves.refreshMicroTimer (h : s.refreshMicroTimer t = some s') : Moves s s' := by
  obtain ⟨mt, hmt, h⟩ := Option.bind_eq_some_iff.mp h
  by_cases hi : mt.funcIndx < maxTimerType
  · rw [if_pos hi] at h
    obtain rfl := Option.some.inj h
    have hne : s.microTimers t ≠ none := by
      rw [hmt]
      exact Option.some_ne_none mt
    refine Moves.single fun L M hl => ⟨⟨L, M, hl.setMicroTimer hne _⟩, ?_⟩
    exact .reload (.micro t) mt.entry (entries_micro hmt) (registry_setMicroTimer s t _)
      (lists_same rfl rfl fun _ _ => id) ⟨rfl, rfl⟩
  · rw [if_neg hi] at h
    cases h

/-- Freeing a timer takes it out of the list. -/
theorem Linked.freeMicro (h : Linked s L M) (ht : s.microTimers t ≠ none) :
    Linked (s.removeMicroTimer t true) L (M.filter (· ≠ t)) := by
  refine h.setMicro rfl (h.unlinkMicro ((h.alloc t).mp ht) _ _) (fun t' => ?_) fun t' ht' => ?_
  · simp only [Process.removeMicroTimer, Process.mark, if_true, Process.setMicroTimer, Function.update_apply]
    split
    · rename_i he
      simp [he]
    · rename_i he
      simp [he, h.alloc]
  · exact h.fresh t' (List.mem_of_mem_filter ht')

theorem Linked.markMicro (h : Linked s L M) (t : Nat) : Linked (s.removeMicroTimer t false) L M := by
  refine h.setMicro rfl h.micro (fun t' => ?_) h.fresh
  rw [← h.alloc]
  simp only [Process.removeMicroTimer, Process.mark, Bool.false_eq_true, if_false, Process.setMicroTimer,
    Function.update_apply]
  split
  · rename_i he
    simp [he]
  · rfl

theorem Moves.removeMicroTimer (ht : s.microTimers t ≠ none) (freed : Bool) :
    Moves s (s.removeMicroTimer t freed) := by
  refine Moves.single fun L M hl => ?_
  have hfresh : t < s.microFresh := hl.fresh t ((hl.alloc t).mp ht)
  cases freed with
  | true =>
      refine ⟨⟨L, _, hl.freeMicro ht⟩, ?_⟩
      exact .remove (.micro t) none hfresh nofun (@registry_setMicro _ _ t none rfl rfl)
        (lists_same rfl rfl fun _ _ => id) id rfl rfl
  | false =>
      refine ⟨⟨L, M, hl.markMicro t⟩, ?_⟩
      refine .remove (.micro t) _ hfresh (fun e he => ?_) (registry_setMicro rfl rfl)
        (lists_same rfl rfl fun _ _ => id) id rfl rfl
      obtain ⟨mt, hmt, rfl⟩ := Option.map_eq_some_iff.mp he
      obtain ⟨mt', -, rfl⟩ := Option.map_eq_some_iff.mp hmt
      rfl

end Taomee.Timer
