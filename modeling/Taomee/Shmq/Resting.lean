import Taomee.Shmq.Calls

/-!
# Between two calls

What a whole push or pop does to the queue and its unread payloads, and what it leaves alone: the
block that the last pop has returned keeps its bytes until the next pop.
-/

namespace Taomee.Shmq

variable {args : CreateArgs} {q q' q'' : ShmCq} {l : List Payload}

/-! ## Calls keep the queue in order -/

/-- The queue holds the payloads `l`, and no call is under way. -/
structure Resting (args : CreateArgs) (q : ShmCq) (l : List Payload) : Prop where
  bounds : Bounds args q
  unread : Unread q l

theorem Resting.inv (h : Resting args q l) : Inv args ⟨q, .idle, .idle, l, [], []⟩ where
  bounds := h.bounds
  producer := trivial
  queue := ⟨[], l, rfl, h.unread, List.append_nil l⟩
  faults := rfl

theorem TailMoves.refl : TailMoves q q :=
  { head := rfl, shmSize := rfl, elemMaxSz := rfl, first := fun h => ⟨h, rfl⟩, wrapped := id,
    start := fun _ => id, held := fun _ _ _ => rfl }

theorem TailMoves.trans (h : TailMoves q q') (h' : TailMoves q' q'') : TailMoves q q'' where
  head := h'.head.trans h.head
  shmSize := h'.shmSize.trans h.shmSize
  elemMaxSz := h'.elemMaxSz.trans h.elemMaxSz
  first := by
    intro hne
    obtain ⟨hne', hload⟩ := h.first hne
    obtain ⟨hne'', hload'⟩ := h'.first hne'
    rw [h.head] at hload'
    exact ⟨hne'', hload'.trans hload⟩
  wrapped := by
    intro hlt
    have hlt' := h.wrapped hlt
    rw [← h.head] at hlt' ⊢
    exact h'.wrapped hlt'
  start := by
    intro hstart hle
    have hle' := h.start hstart hle
    rw [← h.head] at hstart hle' ⊢
    exact h'.start hstart hle'
  held := by
    intro i h1 h2
    rw [← h.held i h1 h2]
    refine h'.held i ?_ ?_
    · rw [h.head, h.elemMaxSz]
      exact h1
    · rw [h.head]
      exact h2

theorem Inv.producerSteps {w : World} (h : Inv args w) (k : Nat) :
    Inv args (Shmq.producerStep^[k] w) ∧ TailMoves w.q (Shmq.producerStep^[k] w).q := by
  induction k generalizing w with
  | zero => exact ⟨h, .refl⟩
  | succ k ih =>
      obtain ⟨held, unread, -, hl, -⟩ := h.queue
      obtain ⟨out, hok⟩ := producerStep_spec h.bounds h.producer
      obtain ⟨hinv, htail⟩ := ih h.producerStep
      rw [Function.iterate_succ_apply]
      exact ⟨hinv, (hok.move.tail h.bounds hl).trans htail⟩

theorem Inv.consumerSteps {w : World} (h : Inv args w) (k : Nat) :
    Inv args (Shmq.consumerStep^[k] w) := by
  induction k generalizing w with
  | zero => exact h
  | succ k ih => exact ih h.consumerStep

theorem shmCqPush_ret {data : Payload} (h : data.length > 0 ∧ data.length ≤ q.elemMaxSz - sizeofBlock) :
    ∃ ret q', shmCqPush q data = some (ret, q') ∧ (ret = 0 ∨ ret = -1) := by
  obtain ⟨ret₀, q₀, halign⟩ : ∃ ret₀ q₀, shmCqAlignTail q (elemLen data) = (ret₀, q₀) := ⟨_, _, rfl⟩
  rw [shmCqPush_eq h halign]
  by_cases hret : ret₀ = -1
  · rw [if_pos hret]
    exact ⟨-1, q₀, rfl, .inr rfl⟩
  · rw [if_neg hret]
    exact ⟨0, fillBlock q₀ data, rfl, .inl rfl⟩

/-- The assertion of `shm_cq_push` holds of what may be pushed. -/
theorem Resting.assert (h : Resting args q l) {data : Payload} (hd : Pushable args data) :
    data.length > 0 ∧ data.length ≤ q.elemMaxSz - sizeofBlock := by
  rw [h.bounds.elemMaxSz_eq, Nat.add_sub_cancel]
  exact hd

/-- A whole push appends its payload, or fails and leaves the payloads as they are. -/
theorem shmCqPush_spec (h : Resting args q l) {data : Payload} (hd : Pushable args data) :
    ∃ ret q', shmCqPush q data = some (ret, q') ∧ TailMoves q q' ∧
      ((ret = 0 ∧ Resting args q' (l ++ [data])) ∨ (ret = -1 ∧ Resting args q' l)) := by
  have hassert := h.assert hd
  obtain ⟨ret, q', hpush, hret⟩ := shmCqPush_ret hassert
  have hstart : Inv args ⟨q, .alignTail data, .idle, l, [], []⟩ := { h.inv with producer := hd }
  obtain ⟨k, faults, hrun⟩ :=
    @shmCqPush_runs q q' l .idle [] [] data ret hpush
  obtain ⟨hinv, htail⟩ := hstart.producerSteps k
  rw [hrun] at hinv htail
  refine ⟨ret, q', hpush, htail, ?_⟩
  obtain ⟨held, unread, hheld, hunread, heq⟩ := hinv.queue
  obtain rfl : held = [] := hheld
  simp only [Producer.pending, List.append_nil, List.nil_append] at heq
  have hrest : Resting args q' (if ret = -1 then l else l ++ [data]) := by
    rw [heq]
    exact ⟨hinv.bounds, hunread⟩
  rcases hret with rfl | rfl
  · exact .inl ⟨rfl, hrest⟩
  · exact .inr ⟨rfl, hrest⟩

/-- With `head` at `tail` nothing is unread. -/
theorem Unread.eq_nil (h : Unread q l) (heq : q.head = q.tail) : l = [] := by
  cases h with
  | wrapped hw => omega
  | normal hle hs =>
      cases l with
      | nil => rfl
      | cons d ds =>
          have hle := hs.2.le
          unfold sizeofBlock at hle
          omega

/-- A pop that returns no block has found `head` at `tail`. -/
theorem shmCqPop_none {r : PopResult} (h : shmCqPop q = some r) (hdata : r.data = none) :
    r.ret = 0 ∧ r.q.head = r.q.tail := by
  unfold shmCqPop at h
  by_cases h1 : q.head = q.tail
  · rw [if_pos h1] at h
    cases h
    exact ⟨rfl, h1⟩
  rw [if_neg h1] at h
  by_cases h2 : (shmCqAlignHead q).head = (shmCqAlignHead q).tail
  · simp only [if_pos h2] at h
    cases h
    exact ⟨rfl, h2⟩
  simp only [if_neg h2] at h
  split at h
  · cases h
    cases hdata
  · cases h

/-- A whole pop returns the oldest payload, or 0 on an empty queue. -/
theorem shmCqPop_spec (h : Resting args q l) : ∃ r, shmCqPop q = some r ∧
    ((l = [] ∧ r.ret = 0 ∧ r.data = none ∧ r.q.head = r.q.tail ∧ Resting args r.q []) ∨
      ∃ d l' p, l = d :: l' ∧ r.ret = d.length ∧ r.data = some (p + sizeofBlock) ∧
        HeldBlock r.q p d ∧ Resting args r.q l') := by
  have hstart : Inv args ⟨q, .idle, .firstHead, l, [], []⟩ :=
    { h.inv with queue := ⟨[], l, rfl, h.unread, List.append_nil l⟩ }
  obtain ⟨k, faults, hrun⟩ := @shmCqPop_runs q l [] [] .idle
  have hinv := hstart.consumerSteps k
  rw [hrun] at hinv
  obtain ⟨held, unread, hheld, hunread, heq⟩ := hinv.queue
  have hb := hinv.bounds
  cases hpop : shmCqPop q with
  | none =>
      rw [hpop] at hheld
      exact hheld.elim
  | some r =>
      obtain ⟨ret, data, q'⟩ := r
      rw [hpop] at hheld hunread hb
      refine ⟨_, rfl, ?_⟩
      simp only [Producer.pending, List.append_nil, List.nil_append] at heq
      cases data with
      | none =>
          obtain ⟨hret, hhead⟩ := shmCqPop_none hpop rfl
          obtain rfl : held = [] := hheld
          obtain rfl := hunread.eq_nil hhead
          exact .inl ⟨heq, hret, rfl, hhead, hb, hunread⟩
      | some data =>
          obtain ⟨d, rfl, hblock, rfl⟩ := hheld
          refine .inr ⟨d, unread, data - sizeofBlock, heq, rfl, ?_, hblock, hb, hunread⟩
          have hge := hblock.ge
          simp only [Option.some.injEq]
          unfold sizeofCq at hge
          omega

/-! ## Sequences of calls -/

/-- A whole call of one of the processes. -/
inductive Call where
  | push (data : Payload)
  | pop

/-- The assertion of `shm_cq_push` on its arguments. -/
def Call.Ok (args : CreateArgs) : Call → Prop
  | .push data => Pushable args data
  | .pop => True

/-- The queue after a call, unless an assertion fails. -/
def Call.run (q : ShmCq) : Call → Option ShmCq
  | .push data => (shmCqPush q data).map Prod.snd
  | .pop => (shmCqPop q).map PopResult.q

/-- The queue after some calls. -/
def runCalls (q : ShmCq) (calls : List Call) : Option ShmCq := calls.foldlM Call.run q

/-- A queue that some interleaving of pushes and pops leaves between two calls. -/
def Quiescent (args : CreateArgs) (mem : Buf) (q : ShmCq) : Prop :=
  ∃ w, Reachable args mem w ∧ w.producer = .idle ∧ w.consumer = .idle ∧ w.q = q

theorem Quiescent.resting {mem : Buf} (h : Quiescent args mem q) : ∃ l, Resting args q l := by
  obtain ⟨w, hw, -, -, rfl⟩ := h
  obtain ⟨held, unread, -, hl, -⟩ := hw.inv.queue
  exact ⟨unread, hw.inv.bounds, hl⟩

theorem Resting.run (h : Resting args q l) {c : Call} (hc : c.Ok args) :
    ∃ q' l', c.run q = some q' ∧ Resting args q' l' := by
  cases c with
  | push data =>
      obtain ⟨ret, q', hpush, -, hrest⟩ := shmCqPush_spec h hc
      have hrun : Call.run q (.push data) = some q' := congrArg (Option.map Prod.snd) hpush
      rcases hrest with ⟨-, hrest⟩ | ⟨-, hrest⟩
      · exact ⟨q', _, hrun, hrest⟩
      · exact ⟨q', _, hrun, hrest⟩
  | pop =>
      obtain ⟨r, hpop, hrest⟩ := shmCqPop_spec h
      have hrun : Call.run q .pop = some r.q := congrArg (Option.map PopResult.q) hpop
      rcases hrest with ⟨-, -, -, -, hrest⟩ | ⟨d, l', p, -, -, -, -, hrest⟩
      · exact ⟨r.q, _, hrun, hrest⟩
      · exact ⟨r.q, _, hrun, hrest⟩

theorem Resting.runCalls (h : Resting args q l) {calls : List Call} (hcalls : ∀ c ∈ calls, c.Ok args) :
    ∃ q' l', runCalls q calls = some q' ∧ Resting args q' l' := by
  induction calls generalizing q l with
  | nil => exact ⟨q, l, rfl, h⟩
  | cons c calls ih =>
      obtain ⟨q₁, l₁, hrun, h₁⟩ := h.run (hcalls c List.mem_cons_self)
      obtain ⟨q', l', hruns, h'⟩ := ih h₁ fun c hc => hcalls c (List.mem_cons_of_mem _ hc)
      refine ⟨q', l', ?_, h'⟩
      unfold Shmq.runCalls
      rw [List.foldlM_cons, hrun]
      exact hruns

/-- Pushes only, successful or not. -/
theorem Resting.pushes (h : Resting args q l) {pushes : List Payload}
    (hpushes : ∀ d ∈ pushes, Pushable args d) :
    ∃ q', Shmq.runCalls q (pushes.map .push) = some q' ∧ TailMoves q q' := by
  induction pushes generalizing q l with
  | nil => exact ⟨q, rfl, .refl⟩
  | cons d pushes ih =>
      obtain ⟨ret, q₁, hpush, hmoves, hrest⟩ := shmCqPush_spec h (hpushes d List.mem_cons_self)
      have hrest' : ∃ l₁, Resting args q₁ l₁ := by
        rcases hrest with ⟨-, hrest⟩ | ⟨-, hrest⟩
        · exact ⟨_, hrest⟩
        · exact ⟨_, hrest⟩
      obtain ⟨l₁, h₁⟩ := hrest'
      obtain ⟨q', hruns, hmoves'⟩ := ih h₁ fun d hd => hpushes d (List.mem_cons_of_mem _ hd)
      refine ⟨q', ?_, hmoves.trans hmoves'⟩
      unfold Shmq.runCalls
      rw [List.map_cons, List.foldlM_cons]
      have hrun : Call.run q (.push d) = some q₁ := congrArg (Option.map Prod.snd) hpush
      rw [hrun]
      exact hruns

/-- Whatever calls went before: the block that a pop has returned, its length field and its payload,
keeps its bytes through any pushes until the next pop. -/
theorem shmCqPop_stable (args : CreateArgs) (mem : Buf) (q : ShmCq) (hq : Quiescent args mem q)
    (calls : List Call) (hcalls : ∀ c ∈ calls, c.Ok args) :
    ∃ q₁ r, runCalls q calls = some q₁ ∧ shmCqPop q₁ = some r ∧
      ∀ data, r.data = some data → ∀ pushes : List Payload, (∀ d ∈ pushes, Pushable args d) →
        ∃ q₂, runCalls r.q (pushes.map .push) = some q₂ ∧
          ∀ i, data - sizeofBlock ≤ i → i < data + r.ret → q₂.mem i = r.q.mem i := by
  obtain ⟨l, hrest⟩ := hq.resting
  obtain ⟨q₁, l₁, hruns, h₁⟩ := hrest.runCalls hcalls
  obtain ⟨r, hpop, hresult⟩ := shmCqPop_spec h₁
  refine ⟨q₁, r, hruns, hpop, fun data hdata pushes hpushes => ?_⟩
  rcases hresult with ⟨-, -, hnone, -⟩ | ⟨d, l', p, -, hret, hsome, hheld, h'⟩
  · rw [hnone] at hdata
    cases hdata
  · rw [hsome] at hdata
    cases hdata
    obtain ⟨q₂, hruns₂, hmoves⟩ := h'.pushes hpushes
    refine ⟨q₂, hruns₂, fun i h1 h2 => ?_⟩
    rw [Nat.add_sub_cancel] at h1
    rw [hret] at h2
    have hle := hheld.block.le
    have hends := hheld.ends
    -- the block reaches up to `head`, and is at most `elem_max_sz` bytes long
    refine hmoves.held i ?_ ?_
    · omega
    · omega

/-- The first of two payloads is popped from a queue of 20 bytes. -/
theorem shmCqPop_stable_sample :
    let args : CreateArgs := ⟨20, 1, by decide, by decide, by decide⟩
    ∃ q₁ r, runCalls (shmCqCreate args fun _ => 0) [.push [7], .push [9]] = some q₁ ∧
      shmCqPop q₁ = some r ∧
      ∀ data, r.data = some data → ∀ pushes : List Payload, (∀ d ∈ pushes, Pushable args d) →
        ∃ q₂, runCalls r.q (pushes.map .push) = some q₂ ∧
          ∀ i, data - sizeofBlock ≤ i → i < data + r.ret → q₂.mem i = r.q.mem i := by
  refine shmCqPop_stable _ (fun _ => 0) _ ⟨_, .init, rfl, rfl, rfl⟩ _ ?_
  simp only [List.mem_cons, List.not_mem_nil, or_false, forall_eq_or_imp, forall_eq]
  exact ⟨⟨by decide, by decide⟩, ⟨by decide, by decide⟩⟩

end Taomee.Shmq
