import Taomee.Shmq.Fifo

/-!
# Whole calls

`shm_cq_push` and `shm_cq_pop` while the other process is between two calls, as functions. Each is a
run of the steps of its process, so what the steps keep holds of the calls.
-/

namespace Taomee.Shmq

/-! ## shm_cq_push -/

/-- The loop of `shm_cq_push_wait`, with `left` turns to go. -/
def pushWaitLoop (q : ShmCq) (tail len : Nat) : Nat → Int
  | 0 => -1
  | left + 1 =>
      if q.head ≤ tail ∨ q.head ≥ toU32 ↑(tail + len + q.elemMaxSz) then 0
      else pushWaitLoop q tail len left

/-- `shm_cq_push_wait(q, len)` -/
def shmCqPushWait (q : ShmCq) (len : Nat) : Int := pushWaitLoop q q.tail len 10

/-- `shm_cq_push_wait` finds room for `len` bytes at `tail`. -/
def FreeAt (q : ShmCq) (tail len : Nat) : Prop :=
  q.head ≤ tail ∨ q.head ≥ toU32 ↑(tail + len + q.elemMaxSz)

instance (q : ShmCq) (tail len : Nat) : Decidable (FreeAt q tail len) :=
  inferInstanceAs (Decidable (_ ∨ _))

/-- The loop of `shm_cq_tail_align_wait`, with `left` turns to go. -/
def tailAlignLoop (q : ShmCq) (tail : Nat) : Nat → Int
  | 0 => -1
  | left + 1 => if q.head > sizeofCq ∧ q.head ≤ tail then 0 else tailAlignLoop q tail left

/-- `shm_cq_tail_align_wait(q)` -/
def shmCqTailAlignWait (q : ShmCq) : Int := tailAlignLoop q q.tail 10

/-- `tail` goes back to the start, behind a pad if there is room for one. -/
def wrapTail (q : ShmCq) (surplus : Int) : ShmCq :=
  let q := if toU64 surplus ≥ sizeofBlock then { q with mem := q.mem.store32 q.tail padLen } else q
  { q with tail := sizeofCq }

/-- `shm_cq_align_tail(q, len)` -/
def shmCqAlignTail (q : ShmCq) (len : Nat) : Int × ShmCq :=
  let surplus := toI32 ((q.shmSize : Int) - q.tail)
  if toU32 surplus ≥ len then (shmCqPushWait q len, q)
  else if shmCqTailAlignWait q = 0 then
    (shmCqPushWait (wrapTail q surplus) len, wrapTail q surplus)
  else (-1, q)

/-- The block is filled in and `tail` goes behind it. -/
def fillBlock (q : ShmCq) (data : Payload) : ShmCq :=
  let mem := q.mem.store32 q.tail (elemLen data)
  { q with mem := mem.write (q.tail + sizeofBlock) data, tail := toU32 (q.tail + elemLen data) }

/-- `shm_cq_push(q, data, len)`. `none` is a failed assertion. -/
def shmCqPush (q : ShmCq) (data : Payload) : Option (Int × ShmCq) :=
  if data.length > 0 ∧ data.length ≤ q.elemMaxSz - sizeofBlock then
    let (ret, q) := shmCqAlignTail q (elemLen data)
    if ret = -1 then some (-1, q) else some (0, fillBlock q data)
  else none

/-! ## shm_cq_pop -/

/-- What `shm_cq_pop` returns and stores in `*data`. -/
structure PopResult where
  ret : Nat
  data : Option Nat
  q : ShmCq

/-- `shm_cq_align_head(q)` -/
def shmCqAlignHead (q : ShmCq) : ShmCq :=
  if q.head < q.tail then q
  else if toU32 ((q.shmSize : Int) - q.head) < sizeofBlock ∨ q.mem.load32 q.head = padLen then
    { q with head := sizeofCq }
  else q

/-- `shm_cq_pop(q, data)`. `none` is a failed assertion. -/
def shmCqPop (q : ShmCq) : Option PopResult :=
  if q.head = q.tail then some ⟨0, none, q⟩
  else
    let q := shmCqAlignHead q
    if q.head = q.tail then some ⟨0, none, q⟩
    else
      let curMb := q.head
      if q.mem.load32 curMb ≤ q.elemMaxSz then
        some ⟨toU32 ((q.mem.load32 curMb : Int) - sizeofBlock), some (curMb + sizeofBlock),
          { q with head := toU32 (q.head + q.mem.load32 curMb) }⟩
      else none

/-! ## Waiting alone

Nobody moves `head` meanwhile, so the loops find out at the first turn or never. -/

theorem pushWaitLoop_eq (q : ShmCq) (tail len left : Nat) :
    pushWaitLoop q tail len (left + 1) = if FreeAt q tail len then 0 else -1 := by
  induction left with
  | zero => rfl
  | succ left ih =>
      unfold pushWaitLoop
      rw [ih]
      by_cases h : FreeAt q tail len
      · rw [if_pos h]
        exact if_pos h
      · rw [if_neg h]
        exact if_neg h

theorem shmCqPushWait_eq (q : ShmCq) (len : Nat) :
    shmCqPushWait q len = if FreeAt q q.tail len then 0 else -1 := pushWaitLoop_eq q q.tail len 9

theorem tailAlignLoop_eq (q : ShmCq) (tail left : Nat) :
    tailAlignLoop q tail (left + 1) = if q.head > sizeofCq ∧ q.head ≤ tail then 0 else -1 := by
  induction left with
  | zero => rfl
  | succ left ih =>
      unfold tailAlignLoop
      rw [ih]
      by_cases h : q.head > sizeofCq ∧ q.head ≤ tail
      · rw [if_pos h, if_pos h]
      · rw [if_neg h, if_neg h]

theorem shmCqTailAlignWait_eq (q : ShmCq) :
    shmCqTailAlignWait q = if q.head > sizeofCq ∧ q.head ≤ q.tail then 0 else -1 :=
  tailAlignLoop_eq q q.tail 9

/-! ## Calls as runs -/

section Runs

variable {w : World} {q q' : ShmCq} {pushed : List Payload}

/-- Some steps of the producer in a row lead to these values; the consumer stands still. -/
def ProducerRuns (w : World) (q : ShmCq) (pc : Producer) (pushed : List Payload) : Prop :=
  ∃ k faults, producerStep^[k] w =
    { w with q := q, producer := pc, pushed := pushed, faults := faults }

theorem ProducerRuns.refl : ProducerRuns w w.q w.producer w.pushed := ⟨0, w.faults, rfl⟩

theorem producerStep_consumer (w : World) :
    (producerStep w).consumer = w.consumer ∧ (producerStep w).popped = w.popped := by
  obtain ⟨q, pc, consumer, pushed, popped, faults⟩ := w
  cases pc with
  | alignTail data => unfold producerStep; dsimp only; split <;> exact ⟨rfl, rfl⟩
  | pushLoop data tail cnt => unfold producerStep; dsimp only; split_ifs <;> exact ⟨rfl, rfl⟩
  | tailLoop data surplus tail cnt => unfold producerStep; dsimp only; split_ifs <;> exact ⟨rfl, rfl⟩
  | _ => exact ⟨rfl, rfl⟩

/-- One step, then the rest of the run. -/
theorem ProducerRuns.head {pc : Producer} (h : ProducerRuns (producerStep w) q pc pushed) :
    ProducerRuns w q pc pushed := by
  obtain ⟨k, faults, heq⟩ := h
  refine ⟨k + 1, faults, ?_⟩
  obtain ⟨hconsumer, hpopped⟩ := producerStep_consumer w
  rw [Function.iterate_succ_apply, heq, hconsumer, hpopped]

variable {consumer : Consumer} {popped : List Payload} {faults : List Fault} {data : Payload}

/-- The run goes on in the world that a step leads to. -/
theorem ProducerRuns.to {pc : Producer} {w' : World} (hstep : producerStep w = w')
    (h : ProducerRuns w' q pc pushed) : ProducerRuns w q pc pushed := .head (hstep ▸ h)

/-- The loop of `shm_cq_push_wait` gives up. The induction is on the turns that are left. -/
theorem pushLoop_full {tail : Nat} (h : ¬ FreeAt q tail (elemLen data)) (left : Nat) {cnt : Nat}
    (hcnt : cnt + (left + 1) = 10) :
    ProducerRuns ⟨q, .pushLoop data tail cnt, consumer, pushed, popped, faults⟩ q .idle pushed := by
  obtain ⟨hle, hge⟩ := not_or.mp h
  induction left generalizing cnt faults with
  | zero =>
      have h10 : cnt + 1 = 10 := hcnt
      exact .to (by simp only [producerStep, if_neg hle, if_neg hge, if_pos h10]; rfl) .refl
  | succ left ih =>
      have h10 : ¬ cnt + 1 = 10 := by omega
      refine .to (by simp only [producerStep, if_neg hle, if_neg hge, if_neg h10]; rfl) (ih ?_)
      omega

theorem pushLoop_free {tail cnt : Nat} (h : FreeAt q tail (elemLen data)) :
    ProducerRuns ⟨q, .pushLoop data tail cnt, consumer, pushed, popped, faults⟩ q (.nextBlock data)
      pushed := by
  by_cases hle : q.head ≤ tail
  · exact .to (by simp only [producerStep, if_pos hle]; rfl) .refl
  · have hge := h.resolve_left hle
    exact .to (by simp only [producerStep, if_neg hle, if_pos hge]; rfl) .refl

/-- The loop of `shm_cq_tail_align_wait` gives up. -/
theorem tailLoop_full {surplus : Int} {tail : Nat} (h : ¬ (q.head > sizeofCq ∧ q.head ≤ tail))
    (left : Nat) {cnt : Nat} (hcnt : cnt + (left + 1) = 10) :
    ProducerRuns ⟨q, .tailLoop data surplus tail cnt, consumer, pushed, popped, faults⟩ q .idle
      pushed := by
  induction left generalizing cnt faults with
  | zero =>
      have h10 : cnt + 1 = 10 := hcnt
      exact .to (by simp only [producerStep, if_neg h, if_pos h10]; rfl) .refl
  | succ left ih =>
      have h10 : ¬ cnt + 1 = 10 := by omega
      refine .to (by simp only [producerStep, if_neg h, if_neg h10]; rfl) (ih ?_)
      omega

/-- `tail` wraps. -/
theorem tailLoop_wrap {surplus : Int} {tail cnt : Nat} (h : q.head > sizeofCq ∧ q.head ≤ tail) :
    ProducerRuns ⟨q, .tailLoop data surplus tail cnt, consumer, pushed, popped, faults⟩
      (wrapTail q surplus) (.pushWait data) pushed := by
  unfold wrapTail
  by_cases hroom : toU64 surplus ≥ sizeofBlock
  · refine .to (by simp only [producerStep, if_pos h, if_pos hroom]; rfl) ?_
    refine .to rfl (.to rfl (.to rfl ?_))
    rw [if_pos hroom]
    exact .refl
  · refine .to (by simp only [producerStep, if_pos h, if_neg hroom]; rfl) (.to rfl ?_)
    rw [if_neg hroom]
    exact .refl

/-- The block is filled in and published. -/
theorem fillBlock_runs :
    ProducerRuns ⟨q, .nextBlock data, consumer, pushed, popped, faults⟩ (fillBlock q data) .idle
      (pushed ++ [data]) :=
  .to rfl (.to rfl (.to rfl (.to rfl (.to rfl (.to rfl .refl)))))

theorem ProducerRuns.trans {pc pc' : Producer} {pushed' : List Payload}
    (h : ProducerRuns w q pc pushed)
    (h' : ∀ faults, ProducerRuns { w with q := q, producer := pc, pushed := pushed, faults := faults }
      q' pc' pushed') : ProducerRuns w q' pc' pushed' := by
  obtain ⟨k, faults, heq⟩ := h
  obtain ⟨k', faults', heq'⟩ := h' faults
  refine ⟨k' + k, faults', ?_⟩
  rw [Function.iterate_add_apply, heq, heq']

/-- From `shm_cq_push_wait` on. -/
theorem pushWait_runs {ret : Int} (hret : shmCqPushWait q (elemLen data) = ret) :
    ProducerRuns ⟨q, .pushWait data, consumer, pushed, popped, faults⟩
      (if ret = -1 then q else fillBlock q data) .idle
      (if ret = -1 then pushed else pushed ++ [data]) := by
  subst hret
  rw [shmCqPushWait_eq]
  refine .to rfl ?_
  by_cases h : FreeAt q q.tail (elemLen data)
  · rw [if_pos h, if_neg (by decide), if_neg (by decide)]
    exact (pushLoop_free h).trans fun _ => fillBlock_runs
  · rw [if_neg h, if_pos rfl, if_pos rfl]
    exact pushLoop_full h 9 rfl

/-- The two ways a push can go, after `shm_cq_align_tail` has returned. -/
theorem shmCqPush_eq {ret₀ : Int} {q₀ : ShmCq} (hd : data.length > 0 ∧ data.length ≤ q.elemMaxSz - sizeofBlock)
    (h : shmCqAlignTail q (elemLen data) = (ret₀, q₀)) :
    shmCqPush q data =
      if ret₀ = -1 then some (-1, q₀) else some (0, fillBlock q₀ data) := by
  unfold shmCqPush
  rw [if_pos hd, h]

/-- A whole push is a run of the producer's steps. -/
theorem shmCqPush_runs {ret : Int} (h : shmCqPush q data = some (ret, q')) :
    ProducerRuns ⟨q, .alignTail data, consumer, pushed, popped, faults⟩ q' .idle
      (if ret = -1 then pushed else pushed ++ [data]) := by
  have hd : data.length > 0 ∧ data.length ≤ q.elemMaxSz - sizeofBlock := by
    by_contra hd
    unfold shmCqPush at h
    rw [if_neg hd] at h
    cases h
  obtain ⟨ret₀, q₀, halign⟩ : ∃ ret₀ q₀, shmCqAlignTail q (elemLen data) = (ret₀, q₀) := ⟨_, _, rfl⟩
  -- what the call returns, from what `shm_cq_align_tail` returns
  have hresult : ret = (if ret₀ = -1 then -1 else 0) ∧ q' = if ret₀ = -1 then q₀ else fillBlock q₀ data := by
    rw [shmCqPush_eq hd halign] at h
    by_cases hret : ret₀ = -1
    · rw [if_pos hret] at h ⊢
      rw [if_pos hret]
      cases h
      exact ⟨rfl, rfl⟩
    · rw [if_neg hret] at h ⊢
      rw [if_neg hret]
      cases h
      exact ⟨rfl, rfl⟩
  have hpushed : (if ret = -1 then pushed else pushed ++ [data]) =
      if ret₀ = -1 then pushed else pushed ++ [data] := by
    rw [hresult.1]
    by_cases hret : ret₀ = -1
    · rw [if_pos hret, if_pos hret, if_pos rfl]
    · rw [if_neg hret, if_neg hret, if_neg (by decide)]
  rw [hpushed, hresult.2]
  unfold shmCqAlignTail at halign
  by_cases hroom : toU32 (toI32 ((q.shmSize : Int) - q.tail)) ≥ elemLen data
  · rw [if_pos hroom] at halign
    obtain ⟨rfl, rfl⟩ := Prod.mk.inj halign
    exact .to (by simp only [producerStep, if_pos hroom]; rfl) (pushWait_runs rfl)
  · rw [if_neg hroom, shmCqTailAlignWait_eq] at halign
    refine .to (by simp only [producerStep, if_neg hroom]; rfl) (.to rfl ?_)
    by_cases hwrap : q.head > sizeofCq ∧ q.head ≤ q.tail
    · rw [if_pos hwrap, if_pos rfl] at halign
      obtain ⟨rfl, rfl⟩ := Prod.mk.inj halign
      exact (tailLoop_wrap hwrap).trans fun _ => pushWait_runs rfl
    · rw [if_neg hwrap, if_neg (by decide)] at halign
      obtain ⟨rfl, rfl⟩ := Prod.mk.inj halign
      exact tailLoop_full hwrap 9 rfl

/-- Some steps of the consumer in a row lead to these values; the producer stands still. -/
def ConsumerRuns (w : World) (q : ShmCq) (pc : Consumer) : Prop :=
  ∃ k faults, consumerStep^[k] w = { w with q := q, consumer := pc, faults := faults }

theorem ConsumerRuns.refl : ConsumerRuns w w.q w.consumer := ⟨0, w.faults, rfl⟩

/-- Only the read of a payload that was taken adds to the popped ones. -/
theorem consumerStep_producer (h : ∀ curMb n, w.consumer ≠ .returned curMb n) :
    (consumerStep w).producer = w.producer ∧ (consumerStep w).pushed = w.pushed ∧
      (consumerStep w).popped = w.popped := by
  obtain ⟨q, producer, pc, pushed, popped, faults⟩ := w
  cases pc with
  | firstTail head => unfold consumerStep; dsimp only; split <;> exact ⟨rfl, rfl, rfl⟩
  | alignTail head => unfold consumerStep; dsimp only; split <;> exact ⟨rfl, rfl, rfl⟩
  | padTest head pad => unfold consumerStep; dsimp only; split <;> exact ⟨rfl, rfl, rfl⟩
  | secondTail head => unfold consumerStep; dsimp only; split <;> exact ⟨rfl, rfl, rfl⟩
  | checkLen curMb => unfold consumerStep; dsimp only; split <;> exact ⟨rfl, rfl, rfl⟩
  | returned curMb n => exact absurd rfl (h curMb n)
  | _ => exact ⟨rfl, rfl, rfl⟩

/-- One step that pops nothing, then the rest of the run. -/
theorem ConsumerRuns.to {pc : Consumer} {w' : World} (hstep : consumerStep w = w')
    (hpc : ∀ curMb n, w.consumer ≠ .returned curMb n) (h : ConsumerRuns w' q pc) :
    ConsumerRuns w q pc := by
  obtain ⟨k, faults, heq⟩ := h
  obtain ⟨h1, h2, h3⟩ := consumerStep_producer hpc
  refine ⟨k + 1, faults, ?_⟩
  rw [Function.iterate_succ_apply, hstep, heq, ← hstep, h1, h2, h3]

variable {producer : Producer}

theorem alignHead_runs :
    ConsumerRuns ⟨q, producer, .alignHead, pushed, popped, faults⟩ (shmCqAlignHead q) .secondHead := by
  unfold shmCqAlignHead
  refine .to rfl (by simp) ?_
  change ConsumerRuns ⟨q, producer, .alignTail q.head, pushed, popped, faults⟩ _ _
  by_cases hlt : q.head < q.tail
  · rw [if_pos hlt]
    exact .to (by simp only [consumerStep, if_pos hlt]; rfl) (by simp) .refl
  rw [if_neg hlt]
  refine .to (by simp only [consumerStep, if_neg hlt]; rfl) (by simp) ?_
  refine .to rfl (by simp) ?_
  change ConsumerRuns ⟨q, producer, .padTest q.head q.head, pushed, popped, faults⟩ _ _
  by_cases hroom : toU32 ((q.shmSize : Int) - q.head) < sizeofBlock
  · rw [if_pos (Or.inl hroom)]
    refine .to (by simp only [consumerStep, if_pos hroom]; rfl) (by simp) ?_
    exact .to rfl (by simp) .refl
  by_cases hpad : q.mem.load32 q.head = padLen
  · rw [if_pos (Or.inr hpad)]
    refine .to (by simp only [consumerStep, if_neg hroom, if_pos hpad]; rfl) (by simp) ?_
    exact .to rfl (by simp) .refl
  · rw [if_neg (not_or.mpr ⟨hroom, hpad⟩)]
    exact .to (by simp only [consumerStep, if_neg hroom, if_neg hpad]; rfl) (by simp) .refl

theorem ConsumerRuns.trans {pc pc' : Consumer} (h : ConsumerRuns w q pc)
    (h' : ∀ faults, ConsumerRuns { w with q := q, consumer := pc, faults := faults } q' pc') :
    ConsumerRuns w q' pc' := by
  obtain ⟨k, faults, heq⟩ := h
  obtain ⟨k', faults', heq'⟩ := h' faults
  refine ⟨k' + k, faults', ?_⟩
  rw [Function.iterate_add_apply, heq, heq']

/-- Where the consumer stands when `shm_cq_pop` returns. -/
def Consumer.ofResult : Option PopResult → Consumer
  | none => .aborted
  | some ⟨_, none, _⟩ => .idle
  | some ⟨ret, some data, _⟩ => .returned (data - sizeofBlock) ret

/-- A whole pop is a run of the consumer's steps. -/
theorem shmCqPop_runs :
    ConsumerRuns ⟨q, producer, .firstHead, pushed, popped, faults⟩
      ((shmCqPop q).elim (shmCqAlignHead q) PopResult.q) (Consumer.ofResult (shmCqPop q)) := by
  unfold shmCqPop
  refine .to rfl (by simp) ?_
  change ConsumerRuns ⟨q, producer, .firstTail q.head, pushed, popped, faults⟩ _ _
  by_cases hempty : q.head = q.tail
  · rw [if_pos hempty]
    exact .to (by simp only [consumerStep, if_pos hempty]; rfl) (by simp) .refl
  rw [if_neg hempty]
  refine .to (by simp only [consumerStep, if_neg hempty]; rfl) (by simp) ?_
  refine alignHead_runs.trans fun faults => ?_
  dsimp only
  generalize shmCqAlignHead q = q
  refine .to rfl (by simp) ?_
  change ConsumerRuns ⟨q, producer, .secondTail q.head, pushed, popped, faults⟩ _ _
  by_cases hempty : q.head = q.tail
  · rw [if_pos hempty]
    exact .to (by simp only [consumerStep, if_pos hempty]; rfl) (by simp) .refl
  rw [if_neg hempty]
  refine .to (by simp only [consumerStep, if_neg hempty]; rfl) (by simp) ?_
  refine .to rfl (by simp) ?_
  change ConsumerRuns ⟨q, producer, .checkLen q.head, pushed, popped, faults⟩ _ _
  by_cases hlen : q.mem.load32 q.head ≤ q.elemMaxSz
  · rw [if_pos hlen]
    refine .to (by simp only [consumerStep, if_pos hlen]; rfl) (by simp) ?_
    refine .to rfl (fun _ _ => Consumer.noConfusion) (.to rfl (fun _ _ => Consumer.noConfusion) ?_)
    refine .to rfl (fun _ _ => Consumer.noConfusion) (.to rfl (fun _ _ => Consumer.noConfusion) ?_)
    exact .refl
  · rw [if_neg hlen]
    exact .to (by simp only [consumerStep, if_neg hlen]; rfl) (by simp) .refl

end Runs

end Taomee.Shmq
