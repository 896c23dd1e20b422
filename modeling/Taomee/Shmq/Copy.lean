import Taomee.Shmq.Progress

/-!
# A file goes through the queue (interprocess/shmq_push.c, interprocess/shmq_pop.c)

One program creates the queue, reads a file in pieces of random sizes, pushes each until it gets in and
removes the queue's name. The other sleeps, attaches to the queue by its name, pops and writes. Their steps
interleave freely. What has been written is a prefix of the file all the time, and when both programs go on
it becomes the whole file, or the reader has come too late to attach.
-/

namespace Taomee.Shmq

open Fairness

/-! ## The programs -/

/-- What `fread(buf, 1, n, fp)` gives from turn to turn, for the numbers that `rand` gives. -/
def readPieces : Nat → (Nat → Nat) → List UInt8 → List Payload
  | 0, _, _ => []
  | left + 1, rand, file =>
      let n := rand 0 % 600 + 1
      let rd := (file.take n).length
      if rd = n then file.take n :: readPieces left (fun i => rand (i + 1)) (file.drop n)
      else if rd ≠ 0 then [file.take n] else []

/-- The arguments of `shm_cq_create`. -/
def copyArgs : CreateArgs := ⟨1000, 600, by decide, by decide, by decide⟩

/-- The next step of the pushing in shmq_push.c: between two calls it goes on with the piece that has to be
pushed. -/
def pushNext (pieces : List Payload) (w : World) : World :=
  match w.producer with
  | .idle =>
      match pieces[w.pushed.length]? with
      | some data => { w with producer := .alignTail data }
      | none => w
  | _ => producerStep w

/-- The next step of the loop in shmq_pop.c. -/
def popNext (w : World) : World :=
  match w.consumer with
  | .idle => { w with consumer := .firstHead }
  | _ => consumerStep w

/-- Whose step is next. -/
inductive Main where
  | push
  | pop

def copyStep (pieces : List Payload) (w : World) : Main → World
  | .push => pushNext pieces w
  | .pop => popNext w

/-- The file that is written. -/
def World.output (w : World) : List UInt8 := w.popped.flatten

/-- Where `main` of shmq_pop.c is. -/
inductive Reader where
  /-- in `sleep(1)`, however long the scheduler makes that -/
  | sleeping
  /-- in the loop, on the queue that `shm_cq_attach` has found -/
  | attached
  /-- `shm_cq_attach` has found no such name, and `shm_cq_pop` has read through a null pointer -/
  | stopped

/-- Both programs. -/
structure Mains where
  w : World
  /-- the name of the queue is there -/
  linked : Bool
  reader : Reader

/-- `shm_cq_create` has returned in shmq_push.c, and shmq_pop.c has just started. -/
def Mains.init (args : CreateArgs) (mem : Buf) : Mains := ⟨World.init args mem, true, .sleeping⟩

/-- The next step of `main` in shmq_push.c. -/
def pushMain (pieces : List Payload) (s : Mains) : Mains :=
  match s.w.producer with
  | .idle =>
      match pieces[s.w.pushed.length]? with
      | some data => { s with w := { s.w with producer := .alignTail data } }
      -- `shm_cq_destroy`; who has attached keeps the mapping
      | none => { s with linked := false }
  | _ => { s with w := producerStep s.w }

/-- The next step of `main` in shmq_pop.c. -/
def popMain (s : Mains) : Mains :=
  match s.reader with
  | .sleeping => { s with reader := if s.linked then .attached else .stopped }
  | .attached => { s with w := popNext s.w }
  | .stopped => s

def mainStep (pieces : List Payload) (s : Mains) : Main → Mains
  | .push => pushMain pieces s
  | .pop => popMain s

/-! ## What the pusher is at -/

/-- The piece of the push that is under way. -/
def Producer.data? : Producer → Option Payload
  | .idle => none
  | .alignTail data => some data
  | .pushWait data => some data
  | .pushLoop data _ _ => some data
  | .tailWait data _ => some data
  | .tailLoop data _ _ _ => some data
  | .padAt data => some data
  | .padWrite data _ => some data
  | .wrapTail data => some data
  | .nextBlock data => some data
  | .writeLen data _ => some data
  | .writeData data _ => some data
  | .readTail data => some data
  | .publish data _ => some data
  | .done data => some data

/-- The push has found no room behind `tail`. -/
def Producer.AtEnd : Producer → Prop
  | .tailWait _ _ => True
  | .tailLoop _ _ _ _ => True
  | _ => False

variable {args : CreateArgs} {w w' : World} {pieces : List Payload} {k : Nat}

theorem producerStep_data (w : World) :
    (producerStep w).producer.data? = none ∧ (producerStep w).pushed = w.pushed ++ w.producer.pending ∨
      (producerStep w).producer.data? = w.producer.data? ∧ (producerStep w).pushed = w.pushed := by
  obtain ⟨q, pc, consumer, pushed, popped, faults⟩ := w
  cases pc with
  | idle => exact .inr ⟨rfl, rfl⟩
  | done data => exact .inl ⟨rfl, rfl⟩
  | alignTail data =>
      simp only [producerStep]
      split
      · exact .inr ⟨rfl, rfl⟩
      · exact .inr ⟨rfl, rfl⟩
  | pushLoop data tail cnt =>
      simp only [producerStep]
      split_ifs
      · exact .inr ⟨rfl, rfl⟩
      · exact .inr ⟨rfl, rfl⟩
      · exact .inl ⟨rfl, (List.append_nil _).symm⟩
      · exact .inr ⟨rfl, rfl⟩
  | tailLoop data surplus tail cnt =>
      simp only [producerStep]
      split_ifs
      · exact .inr ⟨rfl, rfl⟩
      · exact .inr ⟨rfl, rfl⟩
      · exact .inl ⟨rfl, (List.append_nil _).symm⟩
      · exact .inr ⟨rfl, rfl⟩
  | pushWait data => exact .inr ⟨rfl, rfl⟩
  | tailWait data surplus => exact .inr ⟨rfl, rfl⟩
  | padAt data => exact .inr ⟨rfl, rfl⟩
  | padWrite data pad => exact .inr ⟨rfl, rfl⟩
  | wrapTail data => exact .inr ⟨rfl, rfl⟩
  | nextBlock data => exact .inr ⟨rfl, rfl⟩
  | writeLen data nextMb => exact .inr ⟨rfl, rfl⟩
  | writeData data nextMb => exact .inr ⟨rfl, rfl⟩
  | readTail data => exact .inr ⟨rfl, rfl⟩
  | publish data tail => exact .inr ⟨rfl, rfl⟩

/-- A payload of at most the size fits when `tail` is at the start. -/
theorem producerStep_atEnd (hb : Bounds args w.q) (hp : ProducerInv args w.q w.producer)
    (hend : w.producer.AtEnd → sizeofCq < w.q.tail) (h : (producerStep w).producer.AtEnd) :
    sizeofCq < (producerStep w).q.tail := by
  obtain ⟨q, pc, consumer, pushed, popped, faults⟩ := w
  simp only at hb hp hend
  cases pc with
  | alignTail data =>
      have htail := hb.tail_le
      have hsize := hb.shmSize_lt
      have hmax := hb.elemMaxSz_le
      have helem := hb.elemMaxSz_eq
      have hlen := hp.2
      have hsurplus : toI32 ((q.shmSize : Int) - q.tail) = q.shmSize - q.tail := toI32_of_lt (by omega) (by omega)
      simp only [producerStep, hsurplus, elemLen_eq hb hp, toU32_sub htail (by omega)] at h ⊢
      split at h
      · exact h.elim
      · rename_i hfit
        rw [if_neg hfit]
        simp only
        omega
  | tailWait data surplus => exact hend trivial
  | tailLoop data surplus tail cnt =>
      have hstart := hend trivial
      simp only [producerStep] at h ⊢
      split_ifs <;> exact hstart
  | pushLoop data tail cnt =>
      simp only [producerStep] at h
      split_ifs at h <;> exact h.elim
  | idle => exact h.elim
  | pushWait data => exact h.elim
  | padAt data => exact h.elim
  | padWrite data pad => exact h.elim
  | wrapTail data => exact h.elim
  | nextBlock data => exact h.elim
  | writeLen data nextMb => exact h.elim
  | writeData data nextMb => exact h.elim
  | readTail data => exact h.elim
  | publish data tail => exact h.elim
  | done data => exact h.elim

/-! ## The invariant -/

/-- The pieces are pushed one after the other. -/
structure Copying (args : CreateArgs) (pieces : List Payload) (w : World) : Prop where
  inv : Inv args w
  pushed : w.pushed = pieces.take w.pushed.length
  data : ∀ d, w.producer.data? = some d → pieces[w.pushed.length]? = some d
  atEnd : w.producer.AtEnd → sizeofCq < w.q.tail

theorem copying_init (args : CreateArgs) (mem : Buf) (pieces : List Payload) :
    Copying args pieces (World.init args mem) :=
  { inv := inv_init args mem, pushed := rfl, atEnd := fun h => h.elim,
    data := fun d h => by cases h }

theorem Producer.data?_of_pending {pc : Producer} {d : Payload} (h : pc.pending = [d]) : pc.data? = some d := by
  cases pc <;> simp_all [Producer.pending, Producer.data?]

theorem Producer.pending_cases (pc : Producer) : pc.pending = [] ∨ ∃ d, pc.pending = [d] := by
  cases pc <;> simp [Producer.pending]

theorem Copying.producerStep (h : Copying args pieces w) : Copying args pieces (producerStep w) where
  inv := h.inv.producerStep
  pushed := by
    rcases producerStep_data w with ⟨-, hpushed⟩ | ⟨-, hpushed⟩
    · rw [hpushed]
      rcases w.producer.pending_cases with hnone | ⟨d, hd⟩
      · rw [hnone, List.append_nil]
        exact h.pushed
      · rw [hd, List.length_append, List.length_singleton, List.take_add_one, ← h.pushed,
          h.data d (Producer.data?_of_pending hd)]
        rfl
    · rw [hpushed]
      exact h.pushed
  data := fun d hd => by
    rcases producerStep_data w with ⟨hnone, -⟩ | ⟨hsame, hpushed⟩
    · rw [hnone] at hd
      cases hd
    · rw [hsame] at hd
      rw [hpushed]
      exact h.data d hd
  atEnd := producerStep_atEnd h.inv.bounds h.inv.producer h.atEnd

theorem Copying.pushNext (hpieces : ∀ d ∈ pieces, Pushable args d) (h : Copying args pieces w) :
    Copying args pieces (pushNext pieces w) := by
  unfold Shmq.pushNext
  split
  · rename_i hidle
    cases hnext : pieces[w.pushed.length]? with
    | none => exact h
    | some data =>
        have hd := hpieces data (List.mem_of_getElem? hnext)
        refine ⟨h.inv.step (.push w data hidle hd.1 hd.2), h.pushed, fun d hd => ?_, fun hend => hend.elim⟩
        rw [hnext]
        exact hd
  · exact h.producerStep

theorem consumerStep_keeps (w : World) : (consumerStep w).producer = w.producer ∧ (consumerStep w).pushed = w.pushed ∧
    (consumerStep w).q.tail = w.q.tail := by
  obtain ⟨q, producer, pc, pushed, popped, faults⟩ := w
  cases pc with
  | firstTail head =>
      simp only [consumerStep]
      split <;> exact ⟨rfl, rfl, rfl⟩
  | alignTail head =>
      simp only [consumerStep]
      split <;> exact ⟨rfl, rfl, rfl⟩
  | padTest head pad =>
      simp only [consumerStep]
      split <;> exact ⟨rfl, rfl, rfl⟩
  | secondTail head =>
      simp only [consumerStep]
      split <;> exact ⟨rfl, rfl, rfl⟩
  | checkLen curMb =>
      simp only [consumerStep]
      split <;> exact ⟨rfl, rfl, rfl⟩
  | returned curMb n =>
      simp only [consumerStep]
      split <;> exact ⟨rfl, rfl, rfl⟩
  | _ => exact ⟨rfl, rfl, rfl⟩

theorem Copying.popNext (h : Copying args pieces w) : Copying args pieces (popNext w) := by
  unfold Shmq.popNext
  split
  · rename_i hidle
    exact ⟨h.inv.step (.pop w hidle), h.pushed, h.data, h.atEnd⟩
  · obtain ⟨hproducer, hpushed, htail⟩ := consumerStep_keeps w
    refine ⟨h.inv.consumerStep, ?_, ?_, ?_⟩
    · rw [hpushed]
      exact h.pushed
    · rw [hpushed, hproducer]
      exact h.data
    · rw [hproducer, htail]
      exact h.atEnd

theorem Copying.copyStep (hpieces : ∀ d ∈ pieces, Pushable args d) (h : Copying args pieces w) (m : Main) :
    Copying args pieces (copyStep pieces w m) := by
  cases m with
  | push => exact h.pushNext hpieces
  | pop => exact h.popNext

theorem Copying.run (hpieces : ∀ d ∈ pieces, Pushable args d) (h : Copying args pieces w) (turns : Nat → Main)
    (n : Nat) : Copying args pieces (Fairness.run (Shmq.copyStep pieces) turns w n) :=
  run_invariant (fun _ m hcopying => hcopying.copyStep hpieces m) h n

/-! ## What has been published, and what has been read -/

/-- How many pushes have published their payload. -/
def World.published (w : World) : Nat := (w.pushed ++ w.producer.pending).length

theorem Copying.published_isPrefix (h : Copying args pieces w) : w.pushed ++ w.producer.pending <+: pieces := by
  rcases w.producer.pending_cases with hnone | ⟨d, hd⟩
  · rw [hnone, List.append_nil, h.pushed]
    exact List.take_prefix _ _
  · have hnext := h.data d (Producer.data?_of_pending hd)
    have htake : w.pushed ++ w.producer.pending = pieces.take (w.pushed.length + 1) := by
      rw [hd, List.take_add_one, ← h.pushed, hnext]
      rfl
    rw [htake]
    exact List.take_prefix _ _

theorem Inv.popped_isPrefix (h : Inv args w) : w.popped <+: w.pushed ++ w.producer.pending := by
  obtain ⟨held, unread, -, -, heq⟩ := h.queue
  rw [heq, List.append_assoc]
  exact List.prefix_append _ _

theorem Copying.popped_isPrefix (h : Copying args pieces w) : w.popped <+: pieces :=
  h.inv.popped_isPrefix.trans h.published_isPrefix

theorem Copying.popped_le (h : Copying args pieces w) : w.popped.length ≤ w.published := h.inv.popped_isPrefix.length_le

theorem consumerStep_popped (w : World) : w.popped <+: (consumerStep w).popped := by
  obtain ⟨q, producer, pc, pushed, popped, faults⟩ := w
  cases pc with
  | firstTail head =>
      simp only [consumerStep]
      split <;> exact List.prefix_refl _
  | alignTail head =>
      simp only [consumerStep]
      split <;> exact List.prefix_refl _
  | padTest head pad =>
      simp only [consumerStep]
      split <;> exact List.prefix_refl _
  | secondTail head =>
      simp only [consumerStep]
      split <;> exact List.prefix_refl _
  | checkLen curMb =>
      simp only [consumerStep]
      split <;> exact List.prefix_refl _
  | returned curMb n =>
      simp only [consumerStep]
      split
      · exact List.prefix_refl _
      · exact List.prefix_append _ _
  | _ => exact List.prefix_refl _

theorem popNext_popped (w : World) : w.popped <+: (popNext w).popped := by
  unfold popNext
  split
  · exact List.prefix_refl _
  · exact consumerStep_popped w

theorem popNext_producer (w : World) : (popNext w).producer = w.producer := by
  unfold popNext
  split
  · rfl
  · exact (consumerStep_keeps w).1

theorem popNext_pushed (w : World) : (popNext w).pushed = w.pushed := by
  unfold popNext
  split
  · rfl
  · exact (consumerStep_keeps w).2.1

theorem popNext_published (w : World) : (popNext w).published = w.published := by
  unfold popNext World.published
  split
  · rfl
  · obtain ⟨hproducer, hpushed, -⟩ := consumerStep_keeps w
    rw [hproducer, hpushed]

/-- A step of the pusher does to the queue what a step of the producer does. -/
theorem Copying.pushNext_ok (h : Copying args pieces w) : ∃ out, ProducerMove w.q (Shmq.pushNext pieces w).q out ∧
    (Shmq.pushNext pieces w).published = w.published + out.length ∧
    (Shmq.pushNext pieces w).consumer = w.consumer ∧ (Shmq.pushNext pieces w).popped = w.popped := by
  unfold Shmq.pushNext
  split
  · rename_i hidle
    cases hnext : pieces[w.pushed.length]? with
    | none => exact ⟨[], .stay, rfl, rfl, rfl⟩
    | some data =>
        refine ⟨[], .stay, ?_, rfl, rfl⟩
        simp only [World.published, hidle, Producer.pending, List.length_nil, Nat.add_zero]
  · obtain ⟨out, hok⟩ := producerStep_spec h.inv.bounds h.inv.producer
    refine ⟨out, hok.move, ?_, hok.consumer, hok.popped⟩
    unfold World.published
    rw [hok.pushed, List.length_append]

/-! ## The reader gets on -/

/-- How many steps a pop still has to make before it has read a payload. -/
def Consumer.rank : Consumer → Nat
  | .idle => 16
  | .firstHead => 15
  | .firstTail _ => 14
  | .alignHead => 13
  | .alignTail _ => 12
  | .padAt _ => 11
  | .padTest _ _ => 10
  | .wrapHead => 9
  | .secondHead => 8
  | .secondTail _ => 7
  | .curBlock => 6
  | .checkLen _ => 5
  | .advanceHead _ => 4
  | .advanceLen _ _ => 3
  | .advance _ _ _ => 2
  | .returnLen _ => 1
  | .returned _ _ => 0
  | .aborted => 0

/-- A pop that has not found the queue empty reads a payload, or comes nearer to it. -/
theorem popNext_progress (hb : Bounds args w.q) {l held : List Payload} (hl : Unread w.q l)
    (hc : ConsumerInv w.q w.consumer held) (hne : held = [] → w.q.head ≠ w.q.tail) :
    w.popped.length < (popNext w).popped.length ∨ (popNext w).consumer.rank < w.consumer.rank := by
  obtain ⟨q, producer, pc, pushed, popped, faults⟩ := w
  simp only at hb hl hc hne
  cases pc with
  | firstTail head =>
      obtain ⟨rfl, rfl⟩ := hc
      simp only [popNext, consumerStep, if_neg (hne rfl)]
      exact .inr (by simp [Consumer.rank])
  | alignTail head =>
      simp only [popNext, consumerStep]
      split
      · exact .inr (by simp [Consumer.rank])
      · exact .inr (by simp [Consumer.rank])
  | padTest head pad =>
      simp only [popNext, consumerStep]
      split
      · exact .inr (by simp [Consumer.rank])
      · refine .inr ?_
        simp only
        split <;> simp [Consumer.rank]
  | secondTail head =>
      obtain ⟨rfl, rfl, -⟩ := hc
      simp only [popNext, consumerStep, if_neg (hne rfl)]
      exact .inr (by simp [Consumer.rank])
  | checkLen curMb =>
      obtain ⟨rfl, rfl, hr⟩ := hc
      obtain ⟨d, l', -, hd, -⟩ := hl.first hb hr
      have hle : q.mem.load32 q.head ≤ q.elemMaxSz := hd.len ▸ hd.le
      simp only [popNext, consumerStep, if_pos hle]
      exact .inr (by simp [Consumer.rank])
  | returned curMb n =>
      obtain ⟨d, rfl, hh, rfl⟩ := hc
      have hpos : ¬ d.length = 0 := Nat.ne_of_gt hh.block.pos
      simp only [popNext, consumerStep, if_neg hpos, List.length_append]
      exact .inl (Nat.lt_succ_self _)
  | aborted => exact hc.elim
  | _ => exact .inr (Nat.lt_succ_self _)

/-- Something has been published that the reader has not read. -/
structure Available (args : CreateArgs) (pieces : List Payload) (k : Nat) (w : World) : Prop where
  copying : Copying args pieces w
  le : k ≤ w.popped.length
  lt : k < w.published

theorem Available.popNext (h : Available args pieces k w) :
    k < (popNext w).popped.length ∨ (Shmq.popNext w).consumer.rank < w.consumer.rank := by
  obtain ⟨held, unread, hc, hl, heq⟩ := h.copying.inv.queue
  by_cases hlt : k < w.popped.length
  · exact .inl (hlt.trans_le (popNext_popped w).length_le)
  have hne : held = [] → w.q.head ≠ w.q.tail := by
    rintro rfl hempty
    obtain rfl := hl.eq_nil hempty
    have hpub := h.lt
    unfold World.published at hpub
    rw [heq, List.append_nil, List.append_nil] at hpub
    exact hlt hpub
  rcases popNext_progress h.copying.inv.bounds hl hc hne with hpop | hrank
  · exact .inl (h.le.trans_lt hpop)
  · exact .inr hrank

/-! ## The pusher gets on -/

/-- How many steps a push on an empty queue still has to make before it publishes, or takes `tail` to the
start. -/
def Producer.rank : Producer → Nat
  | .done _ => 11
  | .idle => 10
  | .alignTail _ => 9
  | .pushWait _ => 6
  | .pushLoop _ _ _ => 5
  | .nextBlock _ => 4
  | .writeLen _ _ => 3
  | .writeData _ _ => 2
  | .readTail _ => 1
  | .publish _ _ => 0
  | .tailWait _ _ => 4
  | .tailLoop _ _ _ _ => 3
  | .padAt _ => 2
  | .padWrite _ _ => 1
  | .wrapTail _ => 0

/-- With `head` at `tail` a push publishes, takes `tail` to the start, or comes nearer to that. -/
theorem Copying.pushNext_progress (h : Copying args pieces w) (heq : w.q.head = w.q.tail)
    (hlt : w.published < pieces.length) :
    w.published < (Shmq.pushNext pieces w).published ∨
      (sizeofCq < w.q.head ∧ Wrapped (Shmq.pushNext pieces w).q) ∨
      ((Shmq.pushNext pieces w).q.head = w.q.head ∧ (Shmq.pushNext pieces w).q.tail = w.q.tail ∧
        (Shmq.pushNext pieces w).producer.rank < w.producer.rank) := by
  have hp := h.inv.producer
  have hend := h.atEnd
  obtain ⟨q, pc, consumer, pushed, popped, faults⟩ := w
  simp only at heq hp hend
  cases pc with
  | idle =>
      simp only [World.published, Producer.pending, List.append_nil] at hlt
      simp only [Shmq.pushNext, List.getElem?_eq_getElem hlt]
      exact .inr (.inr (by simp [Producer.rank]))
  | alignTail data =>
      simp only [Shmq.pushNext, Shmq.producerStep]
      split <;> exact .inr (.inr (by simp [Producer.rank]))
  | pushLoop data tail cnt =>
      obtain ⟨-, rfl, -⟩ := hp
      simp only [Shmq.pushNext, Shmq.producerStep, if_pos (Nat.le_of_eq heq)]
      exact .inr (.inr (by simp [Producer.rank]))
  | tailLoop data surplus tail cnt =>
      obtain ⟨-, -, rfl⟩ := hp
      have hwrap : q.head > sizeofCq ∧ q.head ≤ q.tail := ⟨heq ▸ hend trivial, Nat.le_of_eq heq⟩
      simp only [Shmq.pushNext, Shmq.producerStep, if_pos hwrap]
      split <;> exact .inr (.inr (by simp [Producer.rank]))
  | wrapTail data =>
      obtain ⟨-, hwrap, hpad⟩ := hp
      refine .inr (.inl ⟨hwrap.1, rfl, hwrap.1, ?_⟩)
      rw [← heq] at hpad
      exact hpad
  | publish data tail =>
      refine .inl ?_
      simp only [Shmq.pushNext, Shmq.producerStep, World.published, Producer.pending, List.length_append,
        List.length_nil, List.length_singleton]
      omega
  | _ => exact .inr (.inr ⟨rfl, rfl, Nat.lt_succ_self _⟩)

/-- Everything that was published has been read. -/
structure Empty (args : CreateArgs) (pieces : List Payload) (k : Nat) (w : World) : Prop where
  copying : Copying args pieces w
  popped : k ≤ w.popped.length
  published : w.published ≤ k

theorem Empty.popNext (h : Empty args pieces k w) : Empty args pieces k (popNext w) where
  copying := h.copying.popNext
  popped := h.popped.trans (popNext_popped w).length_le
  published := (Nat.le_of_eq (popNext_published w)).trans h.published

theorem Empty.pushNext (hpieces : ∀ d ∈ pieces, Pushable args d) (h : Empty args pieces k w) :
    Empty args pieces k (pushNext pieces w) ∨ Available args pieces k (Shmq.pushNext pieces w) := by
  obtain ⟨out, -, -, -, hpopped⟩ := h.copying.pushNext_ok
  have hle : k ≤ (Shmq.pushNext pieces w).popped.length :=
    h.popped.trans (Nat.le_of_eq (congrArg List.length hpopped.symm))
  rcases Nat.lt_or_ge k (Shmq.pushNext pieces w).published with hlt | hge
  · exact .inr ⟨h.copying.pushNext hpieces, hle, hlt⟩
  · exact .inl ⟨h.copying.pushNext hpieces, hle, hge⟩

theorem Empty.unread (h : Empty args pieces k w) : ConsumerInv w.q w.consumer [] ∧ Unread w.q [] := by
  obtain ⟨held, unread, hc, hl, heq⟩ := h.copying.inv.queue
  have hlen := congrArg List.length heq
  have hpopped := h.popped
  have hpublished := h.published
  unfold World.published at hpublished
  simp only [List.length_append] at hlen hpublished
  obtain rfl : held = [] := List.length_eq_zero_iff.mp (by omega)
  obtain rfl : unread = [] := List.length_eq_zero_iff.mp (by omega)
  exact ⟨hc, hl⟩

/-- A queue without unread payloads: `head` is at `tail`, or has to follow it to the start. -/
theorem Empty.head (h : Empty args pieces k w) : w.q.head = w.q.tail ∨ Wrapped w.q := by
  generalize hnil : ([] : List Payload) = l at *
  have hl := h.unread.2
  rw [hnil] at hl
  cases hl with
  | normal hle hs =>
      subst hnil
      exact .inl hs
  | @wrapped ds es old hw hs hold hpad hes =>
      obtain ⟨rfl, rfl⟩ := List.append_eq_nil_iff.mp hnil.symm
      obtain rfl : w.q.head = old := hs
      have htail : sizeofCq = w.q.tail := hes
      refine .inr ⟨htail.symm, ?_, hpad⟩
      rw [htail]
      exact hw

/-- What the reader's step does to the queue once it has read everything. -/
theorem Empty.popNext_queue (h : Empty args pieces k w) :
    (Shmq.popNext w).q = w.q ∨ Wrapped w.q ∧ (Shmq.popNext w).q = { w.q with head := sizeofCq } := by
  unfold Shmq.popNext
  split
  · exact .inl rfl
  · obtain ⟨hc, hl⟩ := h.unread
    obtain ⟨held', out, hok⟩ := consumerStep_spec h.copying.inv.bounds hl hc
    generalize hq : (consumerStep w).q = q at *
    have hmove := hok.move
    rw [hq] at hmove
    cases hmove with
    | stay => exact .inl rfl
    | wrap hlt hpad =>
        rcases h.head with heq | hw
        · omega
        · exact .inr ⟨hw, rfl⟩
    | advance d hr hd =>
        obtain ⟨d', l', hcons, -⟩ := hl.first h.copying.inv.bounds hr
        cases hcons

/-- The step of the pusher on an empty queue. -/
theorem Empty.pushNext_progress (hpieces : ∀ d ∈ pieces, Pushable args d) (hk : k < pieces.length)
    (h : Empty args pieces k w) (heq : w.q.head = w.q.tail) :
    Available args pieces k (Shmq.pushNext pieces w) ∨
      Empty args pieces k (Shmq.pushNext pieces w) ∧
        ((sizeofCq < w.q.head ∧ Wrapped (Shmq.pushNext pieces w).q) ∨
          ((Shmq.pushNext pieces w).q.head = w.q.head ∧ (Shmq.pushNext pieces w).q.tail = w.q.tail ∧
            (Shmq.pushNext pieces w).producer.rank < w.producer.rank)) := by
  rcases h.pushNext hpieces with hempty | havail
  · rcases h.copying.pushNext_progress heq (h.published.trans_lt hk) with hpub | hrest
    · have hle := h.popped.trans h.copying.popped_le
      exact absurd hempty.published (Nat.not_le_of_lt (hle.trans_lt hpub))
    · exact .inr ⟨hempty, hrest⟩
  · exact .inl havail

/-- Without publishing, the pusher leaves a wrapped `tail` and the pad at `head` alone. -/
theorem Wrapped.producerMove {q q' : ShmCq} (h : Wrapped q) (hm : ProducerMove q q' []) : Wrapped q' := by
  have htail := h.tail
  have hhead := h.head
  cases hm with
  | stay => exact h
  | write n hroom hw =>
      have hfree := hroom.2 (by omega)
      refine ⟨htail, hhead, fun hfit => ?_⟩
      rw [← h.pad hfit]
      refine Buf.load32_congr fun i h1 h2 => hw i (.inr ?_)
      have hle : q.head ≤ i := h1
      omega
  | wrap h1 h2 hpad => omega

section Turns

variable {turns : Nat → Main} {s : World}

theorem available_leadsTo (hpieces : ∀ d ∈ pieces, Pushable args d) (hpop : Recurs turns .pop) (k : Nat) :
    LeadsTo (copyStep pieces) turns s (Available args pieces k) fun w => k < w.popped.length := by
  have hturn : ∀ w, Available args pieces k w →
      Available args pieces k (popNext w) ∧ (popNext w).consumer.rank < w.consumer.rank ∨
        k < (popNext w).popped.length := by
    intro w h
    rcases h.popNext with hpop | hrank
    · exact .inr hpop
    · refine .inl ⟨⟨h.copying.popNext, h.le.trans (popNext_popped w).length_le, ?_⟩, hrank⟩
      rw [popNext_published]
      exact h.lt
  refine leadsTo_of_rank (fun w => w.consumer.rank) hpop (fun w m h => ?_) hturn
  cases m with
  | push =>
      obtain ⟨out, -, hpub, hconsumer, hpopped⟩ := h.copying.pushNext_ok
      refine .inl ⟨⟨h.copying.pushNext hpieces, ?_, ?_⟩, ?_⟩
      · exact h.le.trans (Nat.le_of_eq (congrArg List.length hpopped.symm))
      · exact h.lt.trans_le (Nat.le.intro hpub.symm)
      · exact Nat.le_of_eq (congrArg Consumer.rank hconsumer)
  | pop =>
      rcases hturn w h with ⟨hkeep, hrank⟩ | hdone
      · exact .inl ⟨hkeep, Nat.le_of_lt hrank⟩
      · exact .inr hdone

/-- With both at `pos`, the pusher publishes or takes `tail` to the start. -/
theorem emptyAt_leadsTo (hpieces : ∀ d ∈ pieces, Pushable args d) (hpush : Recurs turns .push)
    (hk : k < pieces.length) (pos : Nat) :
    LeadsTo (copyStep pieces) turns s
      (fun w => Empty args pieces k w ∧ w.q.head = pos ∧ w.q.tail = pos)
      fun w => (sizeofCq < pos ∧ Empty args pieces k w ∧ Wrapped w.q) ∨ Available args pieces k w := by
  have hturn : ∀ w, (Empty args pieces k w ∧ w.q.head = pos ∧ w.q.tail = pos) →
      (Empty args pieces k (pushNext pieces w) ∧ (pushNext pieces w).q.head = pos ∧ (pushNext pieces w).q.tail = pos) ∧
          (pushNext pieces w).producer.rank < w.producer.rank ∨
        ((sizeofCq < pos ∧ Empty args pieces k (pushNext pieces w) ∧ Wrapped (pushNext pieces w).q) ∨
          Available args pieces k (pushNext pieces w)) := by
    rintro w ⟨h, hhead, htail⟩
    rcases h.pushNext_progress hpieces hk (hhead.trans htail.symm) with havail | ⟨hempty, hwrap | hstay⟩
    · exact .inr (.inr havail)
    · rw [hhead] at hwrap
      exact .inr (.inl ⟨hwrap.1, hempty, hwrap.2⟩)
    · exact .inl ⟨⟨hempty, hstay.1.trans hhead, hstay.2.1.trans htail⟩, hstay.2.2⟩
  refine leadsTo_of_rank (fun w => w.producer.rank) hpush (fun w m h => ?_) hturn
  cases m with
  | push =>
      rcases hturn w h with ⟨hkeep, hrank⟩ | hdone
      · exact .inl ⟨hkeep, Nat.le_of_lt hrank⟩
      · exact .inr hdone
  | pop =>
      obtain ⟨h, hhead, htail⟩ := h
      rcases h.popNext_queue with hq | ⟨hw, -⟩
      · refine .inl ⟨⟨h.popNext, ?_, ?_⟩, Nat.le_of_eq (congrArg Producer.rank (popNext_producer w))⟩
        · exact (congrArg ShmCq.head hq).trans hhead
        · exact (congrArg ShmCq.tail hq).trans htail
      · have hlt := hw.head
        have hstart := hw.tail
        omega

/-- The reader takes `head` after a wrapped `tail`. -/
theorem emptyWrapped_leadsTo (hpieces : ∀ d ∈ pieces, Pushable args d) (hpop : Recurs turns .pop) :
    LeadsTo (copyStep pieces) turns s (fun w => Empty args pieces k w ∧ Wrapped w.q)
      fun w => (Empty args pieces k w ∧ w.q.head = sizeofCq ∧ w.q.tail = sizeofCq) ∨ Available args pieces k w := by
  have hturn : ∀ w, (Empty args pieces k w ∧ Wrapped w.q) →
      (Empty args pieces k (popNext w) ∧ Wrapped (popNext w).q) ∧ (popNext w).consumer.rank < w.consumer.rank ∨
        ((Empty args pieces k (popNext w) ∧ (popNext w).q.head = sizeofCq ∧ (popNext w).q.tail = sizeofCq) ∨
          Available args pieces k (popNext w)) := by
    rintro w ⟨h, hw⟩
    rcases h.popNext_queue with hq | ⟨-, hq⟩
    · obtain ⟨hc, hl⟩ := h.unread
      have hne : w.q.head ≠ w.q.tail := by
        rw [hw.tail]
        exact Nat.ne_of_gt hw.head
      rcases popNext_progress h.copying.inv.bounds hl hc (fun _ => hne) with hpop | hrank
      · have hle := h.popNext.copying.popped_le
        have hpub := h.popNext.published
        exact absurd (h.popped.trans_lt hpop) (Nat.not_lt_of_le (hle.trans hpub))
      · rw [← hq] at hw
        exact .inl ⟨⟨h.popNext, hw⟩, hrank⟩
    · refine .inr (.inl ⟨h.popNext, ?_, ?_⟩)
      · rw [hq]
      · rw [hq]
        exact hw.tail
  refine leadsTo_of_rank (fun w => w.consumer.rank) hpop (fun w m h => ?_) hturn
  cases m with
  | push =>
      obtain ⟨h, hw⟩ := h
      obtain ⟨out, hmove, hpub, hconsumer, -⟩ := h.copying.pushNext_ok
      rcases h.pushNext hpieces with hempty | havail
      · have hle := h.popped.trans h.copying.popped_le
        have hge := hempty.published
        obtain rfl : out = [] := List.length_eq_zero_iff.mp (by omega)
        exact .inl ⟨⟨hempty, hw.producerMove hmove⟩, Nat.le_of_eq (congrArg Consumer.rank hconsumer)⟩
      · exact .inr (.inr havail)
  | pop =>
      rcases hturn w h with ⟨hkeep, hrank⟩ | hdone
      · exact .inl ⟨hkeep, Nat.le_of_lt hrank⟩
      · exact .inr hdone

/-- On an empty queue the next piece gets in. -/
theorem empty_leadsTo_available (hpieces : ∀ d ∈ pieces, Pushable args d) (hpush : Recurs turns .push)
    (hpop : Recurs turns .pop) (hk : k < pieces.length) :
    LeadsTo (copyStep pieces) turns s (Empty args pieces k) (Available args pieces k) := by
  have hwrapped : LeadsTo (copyStep pieces) turns s (fun w => Empty args pieces k w ∧ Wrapped w.q)
      fun w => (sizeofCq < sizeofCq ∧ Empty args pieces k w ∧ Wrapped w.q) ∨ Available args pieces k w :=
    (emptyWrapped_leadsTo hpieces hpop).trans_or (emptyAt_leadsTo hpieces hpush hk sizeofCq)
  intro n hn
  have hw : ∃ m, n ≤ m ∧ ((Empty args pieces k (Fairness.run (copyStep pieces) turns s m) ∧
      Wrapped (Fairness.run (copyStep pieces) turns s m).q) ∨
        Available args pieces k (Fairness.run (copyStep pieces) turns s m)) := by
    rcases hn.head with heq | hw
    · obtain ⟨m, hm, ⟨-, hwrap⟩ | havail⟩ := emptyAt_leadsTo hpieces hpush hk _ n ⟨hn, rfl, heq.symm⟩
      · exact ⟨m, hm, .inl hwrap⟩
      · exact ⟨m, hm, .inr havail⟩
    · exact ⟨n, Nat.le_refl n, .inl ⟨hn, hw⟩⟩
  obtain ⟨m, hm, hwrap | havail⟩ := hw
  · obtain ⟨m', hm', ⟨hlt, -⟩ | havail⟩ := hwrapped m hwrap
    · exact absurd hlt (Nat.lt_irrefl _)
    · exact ⟨m', hm.trans hm', havail⟩
  · exact ⟨m, hm, havail⟩

/-- One piece after the other is read. -/
theorem Copying.eventually_popped (hpieces : ∀ d ∈ pieces, Pushable args d) (h : Copying args pieces s)
    (hpush : Recurs turns .push) (hpop : Recurs turns .pop) (hk : k ≤ pieces.length) :
    ∃ n, k ≤ (Fairness.run (Shmq.copyStep pieces) turns s n).popped.length := by
  induction k with
  | zero => exact ⟨0, Nat.zero_le _⟩
  | succ k ih =>
      obtain ⟨n, hn⟩ := ih (Nat.le_of_succ_le hk)
      have hcopying := h.run hpieces turns n
      have havail : ∃ m, n ≤ m ∧ Available args pieces k (Fairness.run (Shmq.copyStep pieces) turns s m) := by
        rcases Nat.lt_or_ge k (Fairness.run (Shmq.copyStep pieces) turns s n).published with hlt | hge
        · exact ⟨n, Nat.le_refl n, hcopying, hn, hlt⟩
        · exact empty_leadsTo_available hpieces hpush hpop hk n ⟨hcopying, hn, hge⟩
      obtain ⟨m, -, havail⟩ := havail
      obtain ⟨m', -, hdone⟩ := available_leadsTo hpieces hpop k m havail
      exact ⟨m', hdone⟩

theorem Copying.run_popped_mono (hpieces : ∀ d ∈ pieces, Pushable args d) (h : Copying args pieces s) {n m : Nat}
    (hle : n ≤ m) : (Fairness.run (Shmq.copyStep pieces) turns s n).popped.length ≤
      (Fairness.run (Shmq.copyStep pieces) turns s m).popped.length := by
  induction hle with
  | refl => exact Nat.le_refl _
  | @step m _ ih =>
      refine ih.trans ?_
      have hcopying := h.run hpieces turns m
      simp only [Fairness.run]
      cases turns m with
      | push =>
          obtain ⟨out, -, -, -, hpopped⟩ := hcopying.pushNext_ok
          exact Nat.le_of_eq (congrArg List.length hpopped.symm)
      | pop => exact (popNext_popped _).length_le

end Turns

/-! ## The whole file -/

theorem readPieces_flatten (rand : Nat → Nat) (file : List UInt8) {left : Nat} (hleft : file.length < left) :
    (readPieces left rand file).flatten = file := by
  induction left generalizing rand file with
  | zero => exact absurd hleft (Nat.not_lt_zero _)
  | succ left ih =>
      simp only [readPieces]
      split
      · rename_i hfull
        rw [List.flatten_cons, ih, List.take_append_drop]
        rw [List.length_drop]
        rw [List.length_take] at hfull
        omega
      · rename_i hshort
        rw [List.length_take] at hshort
        have htake : file.take (rand 0 % 600 + 1) = file := List.take_of_length_le (by omega)
        rw [htake]
        split
        · exact List.append_nil file
        · rename_i hnone
          exact (List.length_eq_zero_iff.mp (Decidable.not_not.mp hnone)).symm

theorem readPieces_pushable (rand : Nat → Nat) (file : List UInt8) (left : Nat) :
    ∀ d ∈ readPieces left rand file, Pushable copyArgs d := by
  induction left generalizing rand file with
  | zero =>
      intro d hd
      cases hd
  | succ left ih =>
      intro d hd
      have hmod := Nat.mod_lt (rand 0) (Nat.succ_pos 599)
      simp only [readPieces] at hd
      have hle : (file.take (rand 0 % 600 + 1)).length ≤ 600 := by
        rw [List.length_take]
        omega
      split at hd
      · rename_i hfull
        rcases List.mem_cons.mp hd with rfl | hd
        · exact ⟨by omega, hle⟩
        · exact ih _ _ d hd
      · split at hd
        · rename_i hsome
          obtain rfl := List.mem_singleton.mp hd
          exact ⟨Nat.pos_of_ne_zero hsome, hle⟩
        · cases hd

/-! ## Sleeping, attaching and removing the name -/

/-- A reader that has not attached has not touched the queue, and the name goes when everything has been pushed. -/
structure Mains.Inv (args : CreateArgs) (pieces : List Payload) (s : Mains) : Prop where
  copying : Copying args pieces s.w
  fresh : s.reader ≠ .attached → s.w.consumer = .idle ∧ s.w.popped = [] ∧ s.w.q.head = sizeofCq
  pushed : s.linked = false → s.w.producer = .idle ∧ s.w.pushed = pieces
  stopped : s.reader = .stopped → s.linked = false

theorem Mains.inv_init (args : CreateArgs) (mem : Buf) (pieces : List Payload) :
    (Mains.init args mem).Inv args pieces where
  copying := copying_init args mem pieces
  fresh := fun _ => ⟨rfl, rfl, rfl⟩
  pushed := fun h => by cases h
  stopped := fun h => by cases h

theorem pushNext_end (hidle : w.producer = .idle) (hend : pieces[w.pushed.length]? = none) : pushNext pieces w = w := by
  simp only [pushNext, hidle, hend]

/-- A step of shmq_push.c goes on pushing, or removes the name. -/
theorem pushMain_cases (pieces : List Payload) (s : Mains) :
    pushMain pieces s = { s with w := pushNext pieces s.w } ∨
      (s.w.producer = .idle ∧ pieces[s.w.pushed.length]? = none) ∧ pushMain pieces s = { s with linked := false } := by
  unfold pushMain pushNext
  split
  · rename_i hidle
    cases hnext : pieces[s.w.pushed.length]? with
    | none => exact .inr ⟨⟨hidle, rfl⟩, rfl⟩
    | some data => exact .inl rfl
  · exact .inl rfl

theorem Mains.Inv.pushMain {s : Mains} (hpieces : ∀ d ∈ pieces, Pushable args d) (h : s.Inv args pieces) :
    (pushMain pieces s).Inv args pieces := by
  rcases pushMain_cases pieces s with heq | ⟨⟨hidle, hend⟩, heq⟩
  · rw [heq]
    obtain ⟨out, hmove, -, hconsumer, hpopped⟩ := h.copying.pushNext_ok
    refine { copying := h.copying.pushNext hpieces, fresh := fun hne => ?_, pushed := fun hlinked => ?_,
             stopped := h.stopped }
    · obtain ⟨hc, hp, hhead⟩ := h.fresh hne
      exact ⟨hconsumer.trans hc, hpopped.trans hp, hmove.head.trans hhead⟩
    · obtain ⟨hidle, hpushed⟩ := h.pushed hlinked
      have hsame : pushNext pieces s.w = s.w := pushNext_end hidle (by rw [hpushed, List.getElem?_length])
      simp only [hsame]
      exact ⟨hidle, hpushed⟩
  · rw [heq]
    refine { copying := h.copying, fresh := h.fresh, pushed := fun _ => ⟨hidle, ?_⟩, stopped := fun _ => rfl }
    rw [h.copying.pushed]
    exact List.take_of_length_le (List.getElem?_eq_none_iff.mp hend)

theorem Mains.Inv.popMain {s : Mains} (h : s.Inv args pieces) : (popMain s).Inv args pieces := by
  obtain ⟨w, linked, reader⟩ := s
  cases reader with
  | sleeping =>
      have hfresh := h.fresh (fun heq => by cases heq)
      refine { copying := h.copying, fresh := fun _ => hfresh, pushed := h.pushed, stopped := fun hstop => ?_ }
      cases linked with
      | true => cases hstop
      | false => rfl
  | attached =>
      refine { copying := h.copying.popNext, fresh := fun hne => absurd rfl hne, pushed := fun hlinked => ?_,
               stopped := fun hstop => by cases hstop }
      obtain ⟨hidle, hpushed⟩ := h.pushed hlinked
      refine ⟨(popNext_producer w).trans hidle, ?_⟩
      simp only [Shmq.popMain, popNext_pushed]
      exact hpushed
  | stopped => exact h

theorem Mains.Inv.run {s : Mains} (hpieces : ∀ d ∈ pieces, Pushable args d) (h : s.Inv args pieces)
    (turns : Nat → Main) (n : Nat) : (Fairness.run (mainStep pieces) turns s n).Inv args pieces := by
  refine run_invariant (fun s m hs => ?_) h n
  cases m with
  | push => exact hs.pushMain hpieces
  | pop => exact hs.popMain

/-- When the name is gone before the reader has attached, everything is in the queue at once. -/
theorem Mains.Inv.fits {s : Mains} (h : s.Inv args pieces) (hne : s.reader ≠ .attached) (hlinked : s.linked = false) :
    pieces.flatten.length + sizeofBlock * pieces.length ≤ args.cqSize := by
  obtain ⟨hc, hpopped, hhead⟩ := h.fresh hne
  obtain ⟨hidle, hpushed⟩ := h.pushed hlinked
  obtain ⟨held, unread, hconsumer, hunread, heq⟩ := h.copying.inv.queue
  rw [hc] at hconsumer
  obtain rfl : held = [] := hconsumer
  rw [hidle, hpopped, hpushed] at heq
  obtain rfl : pieces = unread := (List.append_nil pieces).symm.trans heq
  have hb := h.copying.inv.bounds
  cases hunread with
  | normal hle hs =>
      have hlen := hs.length
      have htail := hb.tail_le
      rw [hb.shmSize_eq] at htail
      omega
  | wrapped hw =>
      have hge := hb.tail_ge
      omega

section Mains

variable {turns : Nat → Main} {s : Mains}

/-- Once the reader has attached, the programs are at the copying, whether the name is there or not. -/
theorem mainStep_attached (pieces : List Payload) (s : Mains) (m : Main) (h : s.reader = .attached) :
    (mainStep pieces s m).reader = .attached ∧ (mainStep pieces s m).w = copyStep pieces s.w m := by
  cases m with
  | push =>
      rcases pushMain_cases pieces s with heq | ⟨⟨hidle, hend⟩, heq⟩
      · have hstep : mainStep pieces s .push = { s with w := pushNext pieces s.w } := heq
        rw [hstep]
        exact ⟨h, rfl⟩
      · have hstep : mainStep pieces s .push = { s with linked := false } := heq
        rw [hstep]
        exact ⟨h, (pushNext_end hidle hend).symm⟩
  | pop =>
      have hstep : mainStep pieces s .pop = { s with w := popNext s.w } := by rw [mainStep, popMain, h]
      rw [hstep]
      exact ⟨h, rfl⟩

theorem mainStep_stopped (pieces : List Payload) (s : Mains) (m : Main) (h : s.reader = .stopped) :
    (mainStep pieces s m).reader = .stopped := by
  cases m with
  | push =>
      rcases pushMain_cases pieces s with heq | ⟨-, heq⟩
      · simp only [mainStep, heq, h]
      · simp only [mainStep, heq, h]
  | pop => simp only [mainStep, popMain, h]

theorem mainStep_push_reader (pieces : List Payload) (s : Mains) : (mainStep pieces s .push).reader = s.reader := by
  rcases pushMain_cases pieces s with heq | ⟨-, heq⟩
  · simp only [mainStep, heq]
  · simp only [mainStep, heq]

/-- While only the other program takes steps, the reader is asleep. -/
theorem run_sleeping (h : s.reader = .sleeping) {n : Nat} (hn : ∀ m, m < n → turns m ≠ .pop) :
    (Fairness.run (mainStep pieces) turns s n).reader = .sleeping := by
  induction n with
  | zero => exact h
  | succ n ih =>
      have hpush : turns n = .push := by
        cases hturn : turns n with
        | push => rfl
        | pop => exact absurd hturn (hn n (Nat.lt_succ_self n))
      simp only [Fairness.run, hpush, mainStep_push_reader]
      exact ih fun m hm => hn m (Nat.lt_succ_of_lt hm)

/-- A reader that has attached gets every piece. -/
theorem Mains.Inv.eventually_output (hpieces : ∀ d ∈ pieces, Pushable args d) (h : s.Inv args pieces)
    (hattached : s.reader = .attached) (hpush : Recurs turns .push) (hpop : Recurs turns .pop) :
    ∃ n, ∀ m, n ≤ m → (Fairness.run (mainStep pieces) turns s m).w.output = pieces.flatten := by
  obtain ⟨n, hn⟩ := h.copying.eventually_popped hpieces hpush hpop (Nat.le_refl _)
  refine ⟨n, fun m hm => ?_⟩
  have hview : (Fairness.run (mainStep pieces) turns s m).w = Fairness.run (copyStep pieces) turns s.w m :=
    run_view Mains.w (fun s e hs => (mainStep_attached pieces s e hs).1)
      (fun s e hs => (mainStep_attached pieces s e hs).2) hattached m
  have hall := (h.copying.run hpieces turns m).popped_isPrefix.eq_of_length_le
    (hn.trans (h.copying.run_popped_mono hpieces hm))
  rw [hview, World.output, hall]

end Mains

/-- However the steps of the two programs interleave from the creation of the queue on, what the reader has
written is a prefix of the file, nothing goes wrong in the queue, and its name goes when the whole file has been
pushed. When neither program stops for good, the reader wakes up: when the name is still there, it has written
the whole file at some point, and nothing else after that; when it is gone, it stops and writes nothing. With
a file that takes more than the queue, the name is still there. -/
theorem copies_file (file : List UInt8) (rand : Nat → Nat) (mem : Buf) (turns : Nat → Main) :
    let pieces := readPieces (file.length + 1) rand file
    let state := Fairness.run (mainStep pieces) turns (Mains.init copyArgs mem)
    (∀ n, (state n).w.output <+: file ∧ (state n).w.faults = [] ∧
      ((state n).linked = false → (state n).w.pushed.flatten = file)) ∧
    (Recurs turns .push → Recurs turns .pop → ∃ n, turns n = .pop ∧ (state n).reader = .sleeping ∧
      ((state n).linked = true → ∃ k, ∀ m, k ≤ m → (state m).w.output = file) ∧
      ((state n).linked = false → ∀ m, n < m → (state m).reader = .stopped ∧ (state m).w.output = [])) ∧
    (copyArgs.cqSize < file.length + sizeofBlock * pieces.length →
      ∀ n, (state n).reader = .sleeping → (state n).linked = true) := by
  intro pieces state
  have hpieces : ∀ d ∈ pieces, Pushable copyArgs d := readPieces_pushable rand file (file.length + 1)
  have hflatten : pieces.flatten = file := readPieces_flatten rand file (Nat.lt_succ_self _)
  have hinv : ∀ n, (state n).Inv copyArgs pieces := (Mains.inv_init copyArgs mem pieces).run hpieces turns
  refine ⟨fun n => ⟨?_, (hinv n).copying.inv.faults, fun hlinked => ?_⟩, fun hpush hpop => ?_, fun hlong n hs => ?_⟩
  · obtain ⟨rest, hrest⟩ := (hinv n).copying.popped_isPrefix
    refine ⟨rest.flatten, ?_⟩
    rw [World.output, ← List.flatten_append, hrest, hflatten]
  · rw [((hinv n).pushed hlinked).2, hflatten]
  · obtain ⟨n, hturn, hfirst⟩ := hpop.first
    have hsleeping : (state n).reader = .sleeping := run_sleeping rfl hfirst
    have hnext : state (n + 1) = { state n with reader := if (state n).linked then .attached else .stopped } := by
      simp only [state, Fairness.run, hturn, mainStep]
      rw [popMain, hsleeping]
    refine ⟨n, hturn, hsleeping, fun hlinked => ?_, fun hlinked m hm => ?_⟩
    · have hattached : (state (n + 1)).reader = .attached := by
        rw [hnext, hlinked]
        rfl
      obtain ⟨k, hk⟩ := (hinv (n + 1)).eventually_output hpieces hattached (hpush.add (n + 1)) (hpop.add (n + 1))
      refine ⟨n + 1 + k, fun m hm => ?_⟩
      obtain ⟨i, rfl⟩ := Nat.exists_eq_add_of_le (Nat.le_of_add_right_le hm)
      rw [← hflatten, ← hk i (Nat.le_of_add_le_add_left hm)]
      exact congrArg (fun s : Mains => s.w.output) (run_add (n + 1) i)
    · have hstopped : (state (n + 1)).reader = .stopped := by
        rw [hnext, hlinked]
        rfl
      obtain ⟨i, rfl⟩ := Nat.exists_eq_add_of_le hm
      have hlater : (state (n + 1 + i)).reader = .stopped := by
        rw [← run_invariant (mainStep_stopped pieces) hstopped i]
        exact congrArg Mains.reader (run_add (n + 1) i)
      refine ⟨hlater, ?_⟩
      rw [World.output, ((hinv _).fresh (by rw [hlater]; exact fun h => by cases h)).2.1]
      rfl
  · cases hlinked : (state n).linked with
    | true => rfl
    | false =>
        have hfits := (hinv n).fits (by rw [hs]; exact fun h => by cases h) hlinked
        rw [hflatten] at hfits
        omega

/-- A file of 1200 bytes in two pieces, while the programs take turns. -/
theorem copies_file_alternating :
    let file := List.replicate 1200 (7 : UInt8)
    let turns := fun i => if i % 2 = 0 then Main.push else Main.pop
    ∃ k, ∀ m, k ≤ m → (Fairness.run (mainStep (readPieces (file.length + 1) (fun _ => 599) file)) turns
      (Mains.init copyArgs fun _ => 0) m).w.output = file := by
  intro file turns
  obtain ⟨-, hfair, hlong⟩ := copies_file file (fun _ => 599) (fun _ => 0) turns
  obtain ⟨n, -, hsleeping, hall, -⟩ := hfair (fun n => ⟨2 * n, by omega, if_pos (Nat.mul_mod_right 2 n)⟩)
    fun n => ⟨2 * n + 1, by omega, if_neg (by omega)⟩
  have hfile : file.length = 1200 := List.length_replicate
  have hsize : copyArgs.cqSize < file.length := by
    rw [hfile]
    decide
  exact hall (hlong (Nat.lt_add_right _ hsize) n hsleeping)

/-- Three bytes are in the queue, and its name is gone, before the reader is awake. -/
example : (Fairness.run (mainStep (readPieces 4 (fun _ => 599) [1, 2, 3])) (fun i => if i < 20 then .push else .pop)
    (Mains.init copyArgs fun _ => 0) 21).reader = .stopped := by rfl

end Taomee.Shmq
