import Taomee.Shmq.Lemmas.Processes

/-!
# The queue is first in, first out

One step of either process keeps the invariant; so it holds after any interleaving, and with it the
order and the bytes of the payloads, and that no fault occurs.
-/

namespace Taomee.Shmq

variable {args : CreateArgs} {w w' : World}

/-! ## One step of the producer -/

theorem elemLen_eq {q : ShmCq} (hb : Bounds args q) {data : Payload} (h : Pushable args data) :
    elemLen data = data.length + sizeofBlock := by
  have := h.2
  have := hb.elemMaxSz_le
  have := hb.elemMaxSz_eq
  have := hb.shmSize_lt
  exact toU32_natCast (n := data.length + sizeofBlock) (by omega)

theorem touch_eq_nil {q : ShmCq} {off size : Nat} (h1 : sizeofCq ≤ off)
    (h2 : off + size ≤ q.shmSize) : q.touch off size = [] :=
  if_pos ⟨h1, h2⟩

theorem overflow_eq_nil {sum : Nat} (h : sum < 2 ^ 32) : overflow sum = [] := if_pos h

/-- What a step of the producer establishes. -/
structure ProducerStepOk (args : CreateArgs) (w w' : World) (out : List Payload) : Prop where
  move : ProducerMove w.q w'.q out
  inv : ProducerInv args w'.q w'.producer
  pushed : w'.pushed ++ w'.producer.pending = w.pushed ++ w.producer.pending ++ out
  faults : w'.faults = w.faults
  consumer : w'.consumer = w.consumer
  popped : w'.popped = w.popped

section Producer

variable {q : ShmCq} {consumer : Consumer} {pushed popped : List Payload} {faults : List Fault} {data : Payload}

/-- A step that only moves the producer on. -/
theorem ProducerStepOk.stay {pc pc' : Producer} (hinv : ProducerInv args q pc') (hpending : pc'.pending = pc.pending) :
    ProducerStepOk args ⟨q, pc, consumer, pushed, popped, faults⟩ ⟨q, pc', consumer, pushed, popped, faults⟩ [] where
  move := .stay
  inv := hinv
  pushed := by simp only [hpending, List.append_nil]
  faults := rfl
  consumer := rfl
  popped := rfl

theorem alignTail_spec (hb : Bounds args q) (hd : Pushable args data) :
    ProducerStepOk args ⟨q, .alignTail data, consumer, pushed, popped, faults⟩
      (producerStep ⟨q, .alignTail data, consumer, pushed, popped, faults⟩) [] := by
  have hle := hb.tail_le
  have hsize := hb.shmSize_lt
  have hsurplus : toI32 ((q.shmSize : Int) - q.tail) = q.shmSize - q.tail := toI32_of_lt (by omega) (by omega)
  simp only [producerStep, hsurplus, elemLen_eq hb hd, toU32_sub hle (by omega)]
  split
  · exact .stay ⟨hd, by omega⟩ rfl
  · exact .stay ⟨hd, rfl⟩ rfl

/-- The sum in `shm_cq_push_wait` does not wrap, and the test means what it says. -/
theorem pushLoop_spec {cnt : Nat} (hb : Bounds args q) (hd : Pushable args data)
    (hfit : q.tail + (data.length + sizeofBlock) ≤ q.shmSize) :
    ProducerStepOk args ⟨q, .pushLoop data q.tail cnt, consumer, pushed, popped, faults⟩
      (producerStep ⟨q, .pushLoop data q.tail cnt, consumer, pushed, popped, faults⟩) [] := by
  have hsize := hb.shmSize_lt
  have hmax := hb.elemMaxSz_le
  have hsum : q.tail + (data.length + sizeofBlock) + q.elemMaxSz < 2 ^ 32 := by omega
  have hu32 : toU32 (↑(q.tail + (data.length + sizeofBlock) + q.elemMaxSz)) = _ := toU32_natCast hsum
  simp only [producerStep, elemLen_eq hb hd, overflow_eq_nil hsum, List.append_nil, hu32]
  split
  · rename_i hle
    exact .stay ⟨hd, hfit, fun hlt => absurd hle (by omega)⟩ rfl
  · split
    · rename_i hge
      exact .stay ⟨hd, hfit, fun _ => hge⟩ rfl
    · split
      · exact .stay trivial rfl
      · exact .stay ⟨hd, rfl, hfit⟩ rfl

theorem tailLoop_spec {cnt : Nat} (hb : Bounds args q) (hd : Pushable args data) :
    ProducerStepOk args ⟨q, .tailLoop data (q.shmSize - q.tail) q.tail cnt, consumer, pushed, popped, faults⟩
      (producerStep ⟨q, .tailLoop data (q.shmSize - q.tail) q.tail cnt, consumer, pushed, popped, faults⟩) [] := by
  have hle := hb.tail_le
  have hsize := hb.shmSize_lt
  have hu64 : toU64 ((q.shmSize : Int) - q.tail) = q.shmSize - q.tail := by
    unfold toU64
    omega
  simp only [producerStep, hu64]
  split
  · rename_i hwrap
    split
    · exact .stay ⟨hd, hwrap, by omega⟩ rfl
    · exact .stay ⟨hd, hwrap, fun hfit => by omega⟩ rfl
  · split
    · exact .stay trivial rfl
    · exact .stay ⟨hd, rfl, rfl⟩ rfl

/-- The pad is in the free part. -/
theorem padWrite_spec (hb : Bounds args q) (hd : Pushable args data) (hwrap : CanWrap q)
    (hfit : q.tail + sizeofBlock ≤ q.shmSize) :
    ProducerStepOk args ⟨q, .padWrite data q.tail, consumer, pushed, popped, faults⟩
      (producerStep ⟨q, .padWrite data q.tail, consumer, pushed, popped, faults⟩) [] := by
  have htouch : q.touch q.tail 4 = [] := touch_eq_nil hb.tail_ge hfit
  have hroom : Room q 4 := ⟨hfit, fun hlt => absurd hwrap.2 (by omega)⟩
  simp only [producerStep, htouch, List.append_nil]
  exact { move := .write 4 hroom fun i hi => Buf.store32_outside _ _ hi,
          inv := ⟨hd, hwrap, fun _ => Buf.load32_store32 _ _ (by decide)⟩,
          pushed := (List.append_nil _).symm, faults := rfl, consumer := rfl, popped := rfl }

/-- The length field is in the free part. -/
theorem writeLen_spec (hb : Bounds args q) (hd : Pushable args data) (hroom : Room q (data.length + sizeofBlock)) :
    ProducerStepOk args ⟨q, .writeLen data q.tail, consumer, pushed, popped, faults⟩
      (producerStep ⟨q, .writeLen data q.tail, consumer, pushed, popped, faults⟩) [] := by
  have hfit := hroom.1
  have hsize := hb.shmSize_lt
  have htouch : q.touch q.tail 4 = [] := touch_eq_nil hb.tail_ge (by unfold sizeofBlock at hfit; omega)
  have hbehind : ∀ i, i < q.tail ∨ q.tail + (data.length + sizeofBlock) ≤ i → i < q.tail ∨ q.tail + 4 ≤ i := by
    unfold sizeofBlock
    omega
  simp only [producerStep, htouch, List.append_nil, elemLen_eq hb hd]
  exact { move := .write _ hroom fun i hi => Buf.store32_outside _ _ (hbehind i hi),
          inv := ⟨hd, hroom, rfl, Buf.load32_store32 _ _ (by omega)⟩,
          pushed := (List.append_nil _).symm, faults := rfl, consumer := rfl, popped := rfl }

/-- With its bytes the block is there. -/
theorem writeData_spec (hb : Bounds args q) (hd : Pushable args data) (hroom : Room q (data.length + sizeofBlock))
    (hlen : q.mem.load32 q.tail = data.length + sizeofBlock) :
    ProducerStepOk args ⟨q, .writeData data q.tail, consumer, pushed, popped, faults⟩
      (producerStep ⟨q, .writeData data q.tail, consumer, pushed, popped, faults⟩) [] := by
  have hfit := hroom.1
  have htail := hb.tail_ge
  have htouch : q.touch (q.tail + sizeofBlock) data.length = [] := touch_eq_nil (by omega) (by omega)
  have hblock : BlockAt (q.mem.write (q.tail + sizeofBlock) data) q.elemMaxSz q.tail data := by
    refine { len := ?_, data := Buf.slice_write_self _ _ _, pos := hd.1, le := ?_ }
    · rw [← hlen]
      exact Buf.load32_congr fun i h1 h2 => Buf.write_outside _ (.inl h2)
    · rw [hb.elemMaxSz_eq]
      exact Nat.add_le_add_right hd.2 _
  simp only [producerStep, htouch, List.append_nil]
  refine { move := .write _ hroom fun i hi => Buf.write_outside _ ?_, inv := ⟨hroom, hblock⟩,
           pushed := (List.append_nil _).symm, faults := rfl, consumer := rfl, popped := rfl }
  simp only at hi
  omega

/-- The write of `tail` publishes the block. -/
theorem publish_spec (hb : Bounds args q) (hroom : Room q (data.length + sizeofBlock))
    (hd : BlockAt q.mem q.elemMaxSz q.tail data) :
    ProducerStepOk args ⟨q, .publish data q.tail, consumer, pushed, popped, faults⟩
      (producerStep ⟨q, .publish data q.tail, consumer, pushed, popped, faults⟩) [data] := by
  have hfit := hroom.1
  have hsize := hb.shmSize_lt
  have hpush : Pushable args data := ⟨hd.pos, by
    have hle := hd.le
    have hmax := hb.elemMaxSz_eq
    omega⟩
  have hsum : q.tail + (data.length + sizeofBlock) < 2 ^ 32 := by omega
  have hu32 : toU32 (↑(q.tail + (data.length + sizeofBlock))) = _ := toU32_natCast hsum
  rw [Int.natCast_add] at hu32
  simp only [producerStep, elemLen_eq hb hpush, overflow_eq_nil hsum, List.append_nil, hu32]
  exact { move := .publish data hroom hd, inv := trivial, pushed := by simp [Producer.pending], faults := rfl,
          consumer := rfl, popped := rfl }

end Producer

theorem producerStep_spec (hb : Bounds args w.q) (hp : ProducerInv args w.q w.producer) :
    ∃ out, ProducerStepOk args w (producerStep w) out := by
  obtain ⟨q, pc, consumer, pushed, popped, faults⟩ := w
  simp only at hb hp
  cases pc with
  | idle => exact ⟨[], .stay hp rfl⟩
  | alignTail data => exact ⟨[], alignTail_spec hb hp⟩
  | pushWait data => exact ⟨[], .stay ⟨hp.1, rfl, hp.2⟩ rfl⟩
  | pushLoop data tail cnt =>
      obtain ⟨hd, rfl, hfit⟩ := hp
      exact ⟨[], pushLoop_spec hb hd hfit⟩
  | tailWait data surplus => exact ⟨[], .stay ⟨hp.1, hp.2, rfl⟩ rfl⟩
  | tailLoop data surplus tail cnt =>
      obtain ⟨hd, rfl, rfl⟩ := hp
      exact ⟨[], tailLoop_spec hb hd⟩
  | padAt data => exact ⟨[], .stay ⟨hp.1, hp.2.1, hp.2.2, rfl⟩ rfl⟩
  | padWrite data pad =>
      obtain ⟨hd, hwrap, hfit, rfl⟩ := hp
      exact ⟨[], padWrite_spec hb hd hwrap hfit⟩
  | wrapTail data =>
      obtain ⟨hd, hwrap, hpad⟩ := hp
      refine ⟨[], .wrap hwrap.1 hwrap.2 hpad, ⟨hd, ?_⟩, (List.append_nil _).symm, rfl, rfl, rfl⟩
      have hlen := hd.2
      have hmax := hb.elemMaxSz_eq
      have hsize := hb.elemMaxSz_le
      simp only [producerStep]
      omega
  | nextBlock data => exact ⟨[], .stay ⟨hp.1, hp.2, rfl⟩ rfl⟩
  | writeLen data nextMb =>
      obtain ⟨hd, hroom, rfl⟩ := hp
      exact ⟨[], writeLen_spec hb hd hroom⟩
  | writeData data nextMb =>
      obtain ⟨hd, hroom, rfl, hlen⟩ := hp
      exact ⟨[], writeData_spec hb hd hroom hlen⟩
  | readTail data => exact ⟨[], .stay ⟨hp.1, hp.2, rfl⟩ rfl⟩
  | publish data tail =>
      obtain ⟨hroom, hd, rfl⟩ := hp
      exact ⟨[data], publish_spec hb hroom hd⟩
  | done data => exact ⟨[], .stay, trivial, by simp [Producer.pending, producerStep], rfl, rfl, rfl⟩

/-! ## One step of the consumer -/

/-- What a step of the consumer establishes. -/
structure ConsumerStepOk (w w' : World) (held held' out : List Payload) : Prop where
  move : ConsumerMove w.q w'.q out
  inv : ConsumerInv w'.q w'.consumer held'
  popped : w'.popped ++ held' = w.popped ++ held ++ out
  faults : w'.faults = w.faults
  producer : w'.producer = w.producer
  pushed : w'.pushed = w.pushed

section Consumer

variable {q : ShmCq} {producer : Producer} {pushed popped l : List Payload} {faults : List Fault}

/-- A step that only moves the consumer on. -/
theorem ConsumerStepOk.stay {pc pc' : Consumer} {held : List Payload} (hinv : ConsumerInv q pc' held) :
    ConsumerStepOk ⟨q, producer, pc, pushed, popped, faults⟩ ⟨q, producer, pc', pushed, popped, faults⟩ held held [] where
  move := .stay
  inv := hinv
  popped := (List.append_nil _).symm
  faults := rfl
  producer := rfl
  pushed := rfl

/-- In front of `tail` a record is at `head`; behind it the pad is tested. -/
theorem alignHead_spec (hb : Bounds args q) (hl : Unread q l) (hne : q.head ≠ q.tail) :
    ConsumerStepOk ⟨q, producer, .alignTail q.head, pushed, popped, faults⟩
      (consumerStep ⟨q, producer, .alignTail q.head, pushed, popped, faults⟩) [] [] [] := by
  simp only [consumerStep]
  split
  · rename_i hlt
    exact .stay ⟨rfl, .inr (hl.ready_of_lt hb hlt)⟩
  · exact .stay ⟨rfl, rfl, by omega⟩

theorem padTest_spec (hb : Bounds args q) (hlt : q.tail < q.head) :
    ConsumerStepOk ⟨q, producer, .padTest q.head q.head, pushed, popped, faults⟩
      (consumerStep ⟨q, producer, .padTest q.head q.head, pushed, popped, faults⟩) [] [] [] := by
  have hhead := hb.head_ge
  have hsize := hb.shmSize_lt
  simp only [consumerStep, toU32_sub hb.head_le (by omega)]
  split
  · exact .stay ⟨rfl, hlt, fun hfit => by omega⟩
  · have hfit : q.head + 4 ≤ q.shmSize := by
      unfold sizeofBlock at *
      omega
    simp only [touch_eq_nil hhead hfit, List.append_nil]
    split
    · rename_i hpad
      exact .stay ⟨rfl, hlt, fun _ => hpad⟩
    · rename_i hpad
      exact .stay ⟨rfl, .inr ⟨Nat.ne_of_gt hlt, hfit, hpad⟩⟩

theorem secondTail_spec (hb : Bounds args q) (hl : Unread q l) (ha : Aligned q) :
    ConsumerStepOk ⟨q, producer, .secondTail q.head, pushed, popped, faults⟩
      (consumerStep ⟨q, producer, .secondTail q.head, pushed, popped, faults⟩) [] [] [] := by
  simp only [consumerStep]
  split
  · exact .stay rfl
  · rename_i hne
    refine .stay ⟨rfl, ?_⟩
    rcases ha with ⟨_, hle⟩ | hr
    · exact hl.ready_of_lt hb (Nat.lt_of_le_of_ne hle hne)
    · exact hr

/-- The assertion on the length of the record holds. -/
theorem checkLen_spec (hb : Bounds args q) (hl : Unread q l) (hr : Ready q) :
    ConsumerStepOk ⟨q, producer, .checkLen q.head, pushed, popped, faults⟩
      (consumerStep ⟨q, producer, .checkLen q.head, pushed, popped, faults⟩) [] [] [] := by
  obtain ⟨d, l', rfl, hd, -⟩ := hl.first hb hr
  have hle : q.mem.load32 q.head ≤ q.elemMaxSz := hd.len ▸ hd.le
  have htouch : q.touch q.head 4 = [] := touch_eq_nil hb.head_ge hr.fits
  simp only [consumerStep, if_pos hle, htouch, List.append_nil]
  exact .stay ⟨rfl, rfl, hr⟩

/-- The write of `head` takes the record. -/
theorem advance_spec (hb : Bounds args q) (hl : Unread q l) (hr : Ready q) :
    ∃ d, ConsumerStepOk ⟨q, producer, .advance q.head q.head (q.mem.load32 q.head), pushed, popped, faults⟩
      (consumerStep ⟨q, producer, .advance q.head q.head (q.mem.load32 q.head), pushed, popped, faults⟩) [] [d] [d] := by
  obtain ⟨d, l', rfl, hd, hfit⟩ := hl.first hb hr
  have hsize := hb.shmSize_lt
  have hsum : q.head + q.mem.load32 q.head < 2 ^ 32 := by
    rw [hd.len]
    omega
  have hu32 : toU32 (↑(q.head + q.mem.load32 q.head)) = _ := toU32_natCast hsum
  rw [Int.natCast_add] at hu32
  simp only [consumerStep, overflow_eq_nil hsum, List.append_nil, hu32]
  rw [hd.len]
  refine ⟨d, .advance d hr hd, ⟨d, rfl, ?_⟩, by rw [List.append_nil], rfl, rfl, rfl⟩
  exact { block := hd, ge := hb.head_ge, ends := rfl }

theorem returnLen_spec {curMb : Nat} {d : Payload} (hb : Bounds args q) (hh : HeldBlock q curMb d) :
    ConsumerStepOk ⟨q, producer, .returnLen curMb, pushed, popped, faults⟩
      (consumerStep ⟨q, producer, .returnLen curMb, pushed, popped, faults⟩) [d] [d] [] := by
  have hend := hh.ends
  have hle := hb.head_le
  have hsize := hb.shmSize_lt
  have htouch : q.touch curMb 4 = [] := touch_eq_nil hh.ge (by unfold sizeofBlock at hend; omega)
  have hlen : toU32 ((q.mem.load32 curMb : Int) - sizeofBlock) = d.length := by
    rw [hh.block.len]
    exact (toU32_sub (Nat.le_add_left _ _) (by omega)).trans (Nat.add_sub_cancel _ _)
  simp only [consumerStep, htouch, List.append_nil, hlen]
  exact .stay ⟨d, rfl, hh, rfl⟩

/-- What the caller reads is the payload. -/
theorem returned_spec {curMb : Nat} {d : Payload} (hb : Bounds args q) (hh : HeldBlock q curMb d) :
    ConsumerStepOk ⟨q, producer, .returned curMb d.length, pushed, popped, faults⟩
      (consumerStep ⟨q, producer, .returned curMb d.length, pushed, popped, faults⟩) [d] [] [] := by
  have hend := hh.ends
  have hle := hb.head_le
  have hge := hh.ge
  have hpos : ¬ d.length = 0 := Nat.ne_of_gt hh.block.pos
  have htouch : q.touch (curMb + sizeofBlock) d.length = [] := touch_eq_nil (by omega) (by omega)
  simp only [consumerStep, if_neg hpos, htouch, List.append_nil, hh.block.data]
  exact ⟨.stay, rfl, rfl, rfl, rfl, rfl⟩

end Consumer

theorem consumerStep_spec (hb : Bounds args w.q) {l : List Payload} (hl : Unread w.q l)
    {held : List Payload} (hc : ConsumerInv w.q w.consumer held) :
    ∃ held' out, ConsumerStepOk w (consumerStep w) held held' out := by
  obtain ⟨q, producer, pc, pushed, popped, faults⟩ := w
  simp only at hb hl hc
  cases pc with
  | idle => exact ⟨held, [], .stay hc⟩
  | firstHead => exact ⟨held, [], .stay ⟨hc, rfl⟩⟩
  | firstTail head =>
      obtain ⟨rfl, rfl⟩ := hc
      simp only [consumerStep]
      split
      · exact ⟨[], [], .stay rfl⟩
      · rename_i hne
        exact ⟨[], [], .stay ⟨rfl, hne⟩⟩
  | alignHead => exact ⟨held, [], .stay ⟨hc.1, rfl, hc.2⟩⟩
  | alignTail head =>
      obtain ⟨rfl, rfl, hne⟩ := hc
      exact ⟨[], [], alignHead_spec hb hl hne⟩
  | padAt head => exact ⟨held, [], .stay ⟨hc.1, hc.2.1, rfl, hc.2.2⟩⟩
  | padTest head pad =>
      obtain ⟨rfl, rfl, rfl, hlt⟩ := hc
      exact ⟨[], [], padTest_spec hb hlt⟩
  | wrapHead =>
      obtain ⟨rfl, hlt, hpad⟩ := hc
      exact ⟨[], [], .wrap hlt hpad, ⟨rfl, .inl ⟨rfl, hb.tail_ge⟩⟩, (List.append_nil _).symm, rfl, rfl, rfl⟩
  | secondHead => exact ⟨held, [], .stay ⟨hc.1, rfl, hc.2⟩⟩
  | secondTail head =>
      obtain ⟨rfl, rfl, ha⟩ := hc
      exact ⟨[], [], secondTail_spec hb hl ha⟩
  | curBlock => exact ⟨held, [], .stay ⟨hc.1, rfl, hc.2⟩⟩
  | checkLen curMb =>
      obtain ⟨rfl, rfl, hr⟩ := hc
      exact ⟨[], [], checkLen_spec hb hl hr⟩
  | advanceHead curMb => exact ⟨held, [], .stay ⟨hc.1, hc.2.1, rfl, hc.2.2⟩⟩
  | advanceLen curMb head =>
      obtain ⟨rfl, rfl, rfl, hr⟩ := hc
      have htouch : q.touch q.head 4 = [] := touch_eq_nil hb.head_ge hr.fits
      simp only [consumerStep, htouch, List.append_nil]
      exact ⟨[], [], .stay ⟨rfl, rfl, rfl, rfl, hr⟩⟩
  | advance curMb head len =>
      obtain ⟨rfl, rfl, rfl, rfl, hr⟩ := hc
      obtain ⟨d, hok⟩ := advance_spec hb hl hr
      exact ⟨[d], [d], hok⟩
  | returnLen curMb =>
      obtain ⟨d, rfl, hh⟩ := hc
      exact ⟨[d], [], returnLen_spec hb hh⟩
  | returned curMb n =>
      obtain ⟨d, rfl, hh, rfl⟩ := hc
      exact ⟨[], [], returned_spec hb hh⟩
  | aborted => exact hc.elim

/-! ## Runs -/

/-- The invariant: both processes know what they have to, the queue holds exactly the published
payloads that were not taken, and no fault has occurred. -/
structure Inv (args : CreateArgs) (w : World) : Prop where
  bounds : Bounds args w.q
  producer : ProducerInv args w.q w.producer
  queue : ∃ held unread, ConsumerInv w.q w.consumer held ∧ Unread w.q unread ∧
    w.pushed ++ w.producer.pending = w.popped ++ held ++ unread
  faults : w.faults = []

theorem inv_init (args : CreateArgs) (mem : Buf) : Inv args (World.init args mem) := by
  have hmax := args.lt_max
  have hdata := args.room
  have hsize : toU32 (args.cqSize + sizeofCq) = args.cqSize + sizeofCq :=
    toU32_natCast (n := args.cqSize + sizeofCq) (by unfold sizeofCq; omega)
  have helem : toU32 (args.dataMaxSz + sizeofBlock) = args.dataMaxSz + sizeofBlock :=
    toU32_natCast (n := args.dataMaxSz + sizeofBlock) (by omega)
  refine { bounds := ?_, producer := trivial, faults := rfl,
           queue := ⟨[], [], rfl, .normal (Nat.le_refl _) rfl, rfl⟩ }
  exact { head_ge := Nat.le_refl _, tail_ge := Nat.le_refl _, shmSize_eq := hsize,
          elemMaxSz_eq := helem,
          head_le := by simp only [World.init, shmCqCreate, hsize]; omega
          tail_le := by simp only [World.init, shmCqCreate, hsize]; omega }

theorem Inv.producerStep (h : Inv args w) : Inv args (producerStep w) := by
  obtain ⟨held, unread, hc, hl, heq⟩ := h.queue
  obtain ⟨out, hok⟩ := producerStep_spec h.bounds h.producer
  refine { bounds := hok.move.bounds h.bounds, producer := hok.inv, queue := ?_,
           faults := hok.faults.trans h.faults }
  refine ⟨held, unread ++ out, ?_, hok.move.unread h.bounds hl, ?_⟩
  · rw [hok.consumer]
    exact hc.tailMoves (hok.move.tail h.bounds hl)
  · rw [hok.pushed, hok.popped, heq, List.append_assoc]

theorem Inv.consumerStep (h : Inv args w) : Inv args (consumerStep w) := by
  obtain ⟨held, unread, hc, hl, heq⟩ := h.queue
  obtain ⟨held', out, hok⟩ := consumerStep_spec h.bounds hl hc
  obtain ⟨unread', rfl, hl'⟩ := hok.move.unread h.bounds hl
  refine { bounds := hok.move.bounds h.bounds hl, producer := ?_, queue := ?_,
           faults := hok.faults.trans h.faults }
  · rw [hok.producer]
    exact h.producer.consumerMove hok.move h.bounds hl
  · refine ⟨held', unread', hok.inv, hl', ?_⟩
    rw [hok.pushed, hok.producer, hok.popped, heq, List.append_assoc _ out]

theorem Inv.step (h : Inv args w) (hs : Step args w w') : Inv args w' := by
  obtain ⟨held, unread, hc, hl, heq⟩ := h.queue
  cases hs with
  | push data hidle hpos hmax =>
      rw [hidle] at heq
      exact { h with producer := ⟨hpos, hmax⟩, queue := ⟨held, unread, hc, hl, heq⟩ }
  | pop hidle =>
      rw [hidle] at hc
      exact { h with queue := ⟨held, unread, hc, hl, heq⟩ }
  | producer => exact h.producerStep
  | consumer => exact h.consumerStep

theorem Reachable.iterate {mem : Buf} {f : World → World} (hf : ∀ w, Step args w (f w))
    (h : Reachable args mem w) (n : Nat) : Reachable args mem (f^[n] w) := by
  induction n generalizing w with
  | zero => exact h
  | succ n ih => exact ih (.next h (hf w))

theorem Reachable.inv {mem : Buf} (h : Reachable args mem w) : Inv args w := by
  induction h with
  | init => exact inv_init args mem
  | next _ hs ih => exact ih.step hs

/-- Whatever the interleaving, the payloads popped are a prefix of the payloads pushed, and no
access leaves the records, no sum wraps and no assertion fails. -/
theorem shmCq_fifo (args : CreateArgs) (mem : Buf) (w : World) (h : Reachable args mem w) :
    w.popped <+: w.pushed ++ w.producer.pending ∧ w.faults = [] := by
  obtain ⟨held, unread, -, -, heq⟩ := h.inv.queue
  refine ⟨?_, h.inv.faults⟩
  rw [heq, List.append_assoc]
  exact List.prefix_append _ _

/-- A queue for payloads of one byte after a push, the pop that takes its payload, and a second
push that has published `tail` but not returned. -/
def pushPopPush : World :=
  let args : CreateArgs := ⟨20, 1, by decide, by decide, by decide⟩
  let w := producerStep^[9] { World.init args (fun _ => 0) with producer := .alignTail [7] }
  let w := consumerStep^[13] { w with consumer := .firstHead }
  producerStep^[8] { w with producer := .alignTail [9] }

theorem shmCq_fifo_pushPopPush :
    pushPopPush.popped = [[7]] ∧ pushPopPush.pushed ++ pushPopPush.producer.pending = [[7], [9]] ∧
      pushPopPush.popped <+: pushPopPush.pushed ++ pushPopPush.producer.pending ∧
      pushPopPush.faults = [] := by
  refine ⟨by decide, by decide, shmCq_fifo ⟨20, 1, by decide, by decide, by decide⟩ (fun _ => 0) _ ?_⟩
  refine .iterate .producer (.next ?_ (.push _ [9] rfl (by decide) (by decide))) 8
  refine .iterate .consumer (.next ?_ (.pop _ rfl)) 13
  exact .iterate .producer (.next .init (.push _ [7] rfl (by decide) (by decide))) 9

end Taomee.Shmq
