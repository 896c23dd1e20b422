import Taomee.Shmq.Lemmas.Layout

/-!
# What each process knows

For every program counter, what its process knows of the queue. A step of the other process keeps
it: the producer only writes where there is room, the consumer only moves `head` along.
-/

namespace Taomee.Shmq

variable {args : CreateArgs} {q q' : ShmCq} {out : List Payload}

/-! ## The producer -/

/-- A payload that a push accepts. -/
def Pushable (args : CreateArgs) (data : Payload) : Prop :=
  1 ≤ data.length ∧ data.length ≤ args.dataMaxSz

/-- `tail` may go back to the start: `head` has left it, and is not behind. -/
def CanWrap (q : ShmCq) : Prop := sizeofCq < q.head ∧ q.head ≤ q.tail

/-- What the producer knows between two steps. -/
def ProducerInv (args : CreateArgs) (q : ShmCq) : Producer → Prop
  | .idle => True
  | .alignTail data => Pushable args data
  | .pushWait data => Pushable args data ∧ q.tail + (data.length + sizeofBlock) ≤ q.shmSize
  | .pushLoop data tail _ =>
      Pushable args data ∧ tail = q.tail ∧ q.tail + (data.length + sizeofBlock) ≤ q.shmSize
  | .tailWait data surplus => Pushable args data ∧ surplus = q.shmSize - q.tail
  | .tailLoop data surplus tail _ =>
      Pushable args data ∧ surplus = q.shmSize - q.tail ∧ tail = q.tail
  | .padAt data => Pushable args data ∧ CanWrap q ∧ q.tail + sizeofBlock ≤ q.shmSize
  | .padWrite data pad =>
      Pushable args data ∧ CanWrap q ∧ q.tail + sizeofBlock ≤ q.shmSize ∧ pad = q.tail
  | .wrapTail data => Pushable args data ∧ CanWrap q ∧ PadAt q q.tail
  | .nextBlock data => Pushable args data ∧ Room q (data.length + sizeofBlock)
  | .writeLen data nextMb =>
      Pushable args data ∧ Room q (data.length + sizeofBlock) ∧ nextMb = q.tail
  | .writeData data nextMb =>
      Pushable args data ∧ Room q (data.length + sizeofBlock) ∧ nextMb = q.tail ∧
        q.mem.load32 q.tail = data.length + sizeofBlock
  | .readTail data =>
      Room q (data.length + sizeofBlock) ∧ BlockAt q.mem q.elemMaxSz q.tail data
  | .publish data tail =>
      Room q (data.length + sizeofBlock) ∧ BlockAt q.mem q.elemMaxSz q.tail data ∧ tail = q.tail
  | .done _ => True

/-- All that the consumer's steps do to the queue: `head` moves along, up to `tail` or, once `tail`
has wrapped, up to the end and then back to the start. -/
theorem ConsumerMove.head (hm : ConsumerMove q q' out) (hb : Bounds args q) {l : List Payload}
    (hl : Unread q l) : ∃ h, q' = { q with head := h } ∧
      (q.head ≤ q.tail → q.head ≤ h ∧ h ≤ q.tail) ∧
      (q.tail < q.head → q.head ≤ h ∨ h ≤ q.tail) := by
  cases hm with
  | stay => exact ⟨q.head, rfl, fun h => ⟨Nat.le_refl _, h⟩, fun _ => .inl (Nat.le_refl _)⟩
  | wrap h1 hpad =>
      exact ⟨sizeofCq, rfl, fun h => absurd h (by omega), fun _ => .inr hb.tail_ge⟩
  | advance d hr hd =>
      refine ⟨_, rfl, fun hle => ⟨Nat.le_add_right _ _, ?_⟩, fun _ => .inl (Nat.le_add_right _ _)⟩
      cases hl with
      | wrapped hw => omega
      | normal _ hs =>
          cases l with
          | nil => exact absurd hs hr.ne
          | cons d' ds =>
              obtain rfl := hd.unique hs.1
              exact hs.2.le

/-- What the producer knows does not depend on how far the consumer is. -/
theorem ProducerInv.consumerMove {pc : Producer} (hp : ProducerInv args q pc)
    (hm : ConsumerMove q q' out) (hb : Bounds args q) {l : List Payload} (hl : Unread q l) :
    ProducerInv args q' pc := by
  obtain ⟨h, rfl, hnormal, hwrapped⟩ := hm.head hb hl
  have hroom : ∀ {n}, Room q n → Room { q with head := h } n := by
    intro n hr
    refine ⟨hr.1, fun hlt => ?_⟩
    simp only at hlt ⊢
    rcases Nat.lt_or_ge q.tail q.head with hw | hle
    · have := hr.2 hw
      rcases hwrapped hw with h1 | h1 <;> omega
    · have := hnormal hle
      omega
  have hwrap : CanWrap q → CanWrap { q with head := h } := by
    intro hc
    have := hnormal hc.2
    exact ⟨Nat.lt_of_lt_of_le hc.1 this.1, this.2⟩
  cases pc with
  | idle => exact hp
  | alignTail data => exact hp
  | pushWait data => exact hp
  | pushLoop data tail cnt => exact hp
  | tailWait data surplus => exact hp
  | tailLoop data surplus tail cnt => exact hp
  | padAt data => exact ⟨hp.1, hwrap hp.2.1, hp.2.2⟩
  | padWrite data pad => exact ⟨hp.1, hwrap hp.2.1, hp.2.2⟩
  | wrapTail data => exact ⟨hp.1, hwrap hp.2.1, hp.2.2⟩
  | nextBlock data => exact ⟨hp.1, hroom hp.2⟩
  | writeLen data nextMb => exact ⟨hp.1, hroom hp.2.1, hp.2.2⟩
  | writeData data nextMb => exact ⟨hp.1, hroom hp.2.1, hp.2.2⟩
  | readTail data => exact ⟨hroom hp.1, hp.2⟩
  | publish data tail => exact ⟨hroom hp.1, hp.2⟩
  | done data => exact hp

/-! ## The consumer -/

/-- The record that the last pop gave ends where `head` now is. -/
structure HeldBlock (q : ShmCq) (p : Nat) (d : Payload) : Prop where
  block : BlockAt q.mem q.elemMaxSz p d
  ge : sizeofCq ≤ p
  ends : p + (d.length + sizeofBlock) = q.head

/-- At the second look, `head` is at the start, or a record is known to stand there. -/
def Aligned (q : ShmCq) : Prop := (q.head = sizeofCq ∧ q.head ≤ q.tail) ∨ Ready q

/-- What the consumer knows between two steps, and the payload that it has taken but not yet read
in full. -/
def ConsumerInv (q : ShmCq) : Consumer → List Payload → Prop
  | .idle, held => held = []
  | .firstHead, held => held = []
  | .firstTail head, held => held = [] ∧ head = q.head
  | .alignHead, held => held = [] ∧ q.head ≠ q.tail
  | .alignTail head, held => held = [] ∧ head = q.head ∧ q.head ≠ q.tail
  | .padAt head, held => held = [] ∧ head = q.head ∧ q.tail < q.head
  | .padTest head pad, held => held = [] ∧ head = q.head ∧ pad = q.head ∧ q.tail < q.head
  | .wrapHead, held => held = [] ∧ q.tail < q.head ∧ PadAt q q.head
  | .secondHead, held => held = [] ∧ Aligned q
  | .secondTail head, held => held = [] ∧ head = q.head ∧ Aligned q
  | .curBlock, held => held = [] ∧ Ready q
  | .checkLen curMb, held => held = [] ∧ curMb = q.head ∧ Ready q
  | .advanceHead curMb, held => held = [] ∧ curMb = q.head ∧ Ready q
  | .advanceLen curMb head, held => held = [] ∧ curMb = q.head ∧ head = q.head ∧ Ready q
  | .advance curMb head len, held =>
      held = [] ∧ curMb = q.head ∧ head = q.head ∧ len = q.mem.load32 q.head ∧ Ready q
  | .returnLen curMb, held => ∃ d, held = [d] ∧ HeldBlock q curMb d
  | .returned curMb n, held => ∃ d, held = [d] ∧ HeldBlock q curMb d ∧ n = d.length
  | .aborted, _ => False

/-- All that the producer's steps do: bytes at `head` or behind it keep their value as long as they
hold a record or a pad, and `tail` neither reaches `head` nor passes it. -/
structure TailMoves (q q' : ShmCq) : Prop where
  head : q'.head = q.head
  shmSize : q'.shmSize = q.shmSize
  elemMaxSz : q'.elemMaxSz = q.elemMaxSz
  /-- the record at `head`, once there is one -/
  first : q.head ≠ q.tail → q'.head ≠ q'.tail ∧ q'.mem.load32 q.head = q.mem.load32 q.head
  wrapped : q.tail < q.head → q'.tail < q.head
  start : q.head = sizeofCq → q.head ≤ q.tail → q.head ≤ q'.tail
  /-- the record before `head` -/
  held : ∀ i, q.head ≤ i + q.elemMaxSz → i < q.head → q'.mem i = q.mem i

theorem ProducerMove.tail (hm : ProducerMove q q' out) (hb : Bounds args q) {l : List Payload}
    (hl : Unread q l) : TailMoves q q' := by
  cases hm with
  | stay =>
      exact { head := rfl, shmSize := rfl, elemMaxSz := rfl, first := fun h => ⟨h, rfl⟩,
              wrapped := id, start := fun _ => id, held := fun _ _ _ => rfl }
  | @write mem n hroom hw =>
      refine { head := rfl, shmSize := rfl, elemMaxSz := rfl, first := fun hne => ⟨hne, ?_⟩,
               wrapped := id, start := fun _ => id, held := fun i h1 h2 => hw i ?_ }
      · -- below `tail` stands the whole record at `head`; above it nothing is written
        refine Buf.load32_congr fun i h1 h2 => hw i ?_
        rcases Nat.lt_or_ge q.tail q.head with hlt | hle
        · have := hroom.2 hlt
          omega
        · obtain ⟨d, l', hd, hblock, -⟩ := hl.first hb (hl.ready_of_lt hb (by omega))
          cases hl with
          | wrapped hlt => omega
          | normal _ hs =>
              subst hd
              have := hs.2.le
              unfold sizeofBlock at this
              omega
      · rcases Nat.lt_or_ge q.tail q.head with hlt | hle
        · have := hroom.2 hlt
          omega
        · omega
  | wrap h1 h2 hpad =>
      exact { head := rfl, shmSize := rfl, elemMaxSz := rfl,
              first := fun hne => ⟨Nat.ne_of_gt h1, rfl⟩, wrapped := fun h => absurd h2 (by omega),
              start := fun h => absurd h1 (by omega), held := fun _ _ _ => rfl }
  | publish d hroom hd =>
      have := hd.pos
      have := hd.le
      have hfree := hroom.2
      exact { head := rfl, shmSize := rfl, elemMaxSz := rfl,
              first := fun hne => ⟨by simp only; omega, rfl⟩,
              wrapped := fun h => by simp only; omega,
              start := fun _ h => Nat.le_add_right_of_le h, held := fun _ _ _ => rfl }

theorem Ready.tailMoves (h : Ready q) (hm : TailMoves q q') : Ready q' := by
  have ⟨hne, hload⟩ := hm.first h.ne
  refine ⟨hne, ?_, ?_⟩
  · rw [hm.head, hm.shmSize]
    exact h.fits
  · rw [hm.head, hload]
    exact h.not_pad

theorem Aligned.tailMoves (h : Aligned q) (hm : TailMoves q q') : Aligned q' := by
  rcases h with ⟨h1, h2⟩ | h
  · refine .inl ?_
    rw [hm.head]
    exact ⟨h1, hm.start h1 h2⟩
  · exact .inr (h.tailMoves hm)

theorem HeldBlock.tailMoves {p : Nat} {d : Payload} (h : HeldBlock q p d) (hm : TailMoves q q') :
    HeldBlock q' p d where
  block := by
    have hend := h.ends
    have hle := h.block.le
    rw [hm.elemMaxSz]
    exact h.block.congr fun i h1 h2 => hm.held i (by omega) (by omega)
  ge := h.ge
  ends := by rw [hm.head, h.ends]

/-- What the consumer knows does not depend on how far the producer is. -/
theorem ConsumerInv.tailMoves {pc : Consumer} {held : List Payload} (hc : ConsumerInv q pc held)
    (hm : TailMoves q q') : ConsumerInv q' pc held := by
  cases pc with
  | idle => exact hc
  | firstHead => exact hc
  | firstTail head => exact ⟨hc.1, hc.2.trans hm.head.symm⟩
  | alignHead => exact ⟨hc.1, (hm.first hc.2).1⟩
  | alignTail head => exact ⟨hc.1, hc.2.1.trans hm.head.symm, (hm.first hc.2.2).1⟩
  | padAt head =>
      obtain ⟨h1, h2, h3⟩ := hc
      refine ⟨h1, h2.trans hm.head.symm, ?_⟩
      rw [hm.head]
      exact hm.wrapped h3
  | padTest head pad =>
      obtain ⟨h1, h2, h3, h4⟩ := hc
      refine ⟨h1, h2.trans hm.head.symm, h3.trans hm.head.symm, ?_⟩
      rw [hm.head]
      exact hm.wrapped h4
  | wrapHead =>
      obtain ⟨h1, h2, h3⟩ := hc
      unfold ConsumerInv PadAt
      rw [hm.head, hm.shmSize, (hm.first (Nat.ne_of_gt h2)).2]
      exact ⟨h1, hm.wrapped h2, h3⟩
  | secondHead => exact ⟨hc.1, hc.2.tailMoves hm⟩
  | secondTail head => exact ⟨hc.1, hc.2.1.trans hm.head.symm, hc.2.2.tailMoves hm⟩
  | curBlock => exact ⟨hc.1, hc.2.tailMoves hm⟩
  | checkLen curMb => exact ⟨hc.1, hc.2.1.trans hm.head.symm, hc.2.2.tailMoves hm⟩
  | advanceHead curMb => exact ⟨hc.1, hc.2.1.trans hm.head.symm, hc.2.2.tailMoves hm⟩
  | advanceLen curMb head =>
      obtain ⟨h1, h2, h3, h4⟩ := hc
      exact ⟨h1, h2.trans hm.head.symm, h3.trans hm.head.symm, h4.tailMoves hm⟩
  | advance curMb head len =>
      obtain ⟨h1, h2, h3, h4, h5⟩ := hc
      refine ⟨h1, h2.trans hm.head.symm, h3.trans hm.head.symm, ?_, h5.tailMoves hm⟩
      rw [hm.head, (hm.first h5.ne).2, h4]
  | returnLen curMb =>
      obtain ⟨d, h1, h2⟩ := hc
      exact ⟨d, h1, h2.tailMoves hm⟩
  | returned curMb n =>
      obtain ⟨d, h1, h2, h3⟩ := hc
      exact ⟨d, h1, h2.tailMoves hm, h3⟩
  | aborted => exact hc

end Taomee.Shmq
