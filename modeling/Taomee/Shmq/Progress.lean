import Taomee.Lib.Fairness
import Taomee.Shmq.Resting

/-!
# The queue never wedges

A push that fails changes no unread payload. On an empty queue it fails only when it has just taken
`tail` back to the start; the next pop takes `head` after it, and the push that follows succeeds. So a
producer that retries and a consumer that polls always get on.
-/

namespace Taomee.Shmq

open Fairness

variable {args : CreateArgs} {q q' : ShmCq} {l : List Payload} {data : Payload}

/-! ## The unread payloads -/

/-- What at most `left` pops return, up to the first one that returns 0. -/
def drain : Nat → ShmCq → List Payload
  | 0, _ => []
  | left + 1, q =>
      match shmCqPop q with
      | some ⟨ret, some data, q⟩ => q.mem.slice data ret :: drain left q
      | _ => []

/-- The unread payloads: what pops would return. -/
def messages (q : ShmCq) : List Payload := drain q.shmSize q

theorem Resting.drain (h : Resting args q l) {left : Nat} (hleft : l.length ≤ left) :
    drain left q = l := by
  induction left generalizing q l with
  | zero => exact (List.length_eq_zero_iff.mp (Nat.le_zero.mp hleft)).symm
  | succ left ih =>
      obtain ⟨⟨ret, data, q'⟩, hpop, hresult⟩ := shmCqPop_spec h
      unfold Shmq.drain
      rw [hpop]
      rcases hresult with ⟨rfl, -, hdata, -⟩ | ⟨d, l', p, rfl, hret, hdata, hheld, h'⟩
      · obtain rfl : data = none := hdata
        rfl
      · obtain rfl : data = some (p + sizeofBlock) := hdata
        obtain rfl : ret = d.length := hret
        dsimp only
        rw [hheld.block.data, ih h' (Nat.le_of_succ_le_succ hleft)]

theorem Stored.length_le {mem : Buf} {elemMax a b : Nat} {ds : List Payload}
    (h : Stored mem elemMax a ds b) : a + ds.length ≤ b := by
  have hlen := h.length
  unfold sizeofBlock at hlen
  omega

theorem Resting.messages (h : Resting args q l) : messages q = l := by
  refine h.drain ?_
  have hhead := h.bounds.head_ge
  have htail := h.bounds.tail_le
  cases h.unread with
  | normal hle hs =>
      have hlen := hs.length_le
      omega
  | @wrapped ds es old hw hs hold hpad hes =>
      have hds := hs.length_le
      have hes := hes.length_le
      rw [List.length_append]
      omega

/-! ## Empty queues -/

/-- A failed push has left `tail` at the start of an empty queue, and a pad at `head`. -/
structure Wrapped (q : ShmCq) : Prop where
  tail : q.tail = sizeofCq
  head : sizeofCq < q.head
  pad : PadAt q q.head

theorem shmCqAlignTail_eq (h : Resting args q l) (hd : Pushable args data) :
    shmCqAlignTail q (elemLen data) =
      if q.tail + (data.length + sizeofBlock) ≤ q.shmSize then (shmCqPushWait q (elemLen data), q)
      else if q.head > sizeofCq ∧ q.head ≤ q.tail then
        (shmCqPushWait (wrapTail q (q.shmSize - q.tail)) (elemLen data),
          wrapTail q (q.shmSize - q.tail))
      else (-1, q) := by
  have htail := h.bounds.tail_le
  have hsize := h.bounds.shmSize_lt
  have hsurplus : toI32 ((q.shmSize : Int) - q.tail) = q.shmSize - q.tail :=
    toI32_of_lt (by omega) (by omega)
  unfold shmCqAlignTail
  rw [hsurplus, shmCqTailAlignWait_eq]
  dsimp only
  rw [toU32_sub htail (by omega), elemLen_eq h.bounds hd]
  by_cases hfit : q.tail + (data.length + sizeofBlock) ≤ q.shmSize
  · rw [if_pos hfit, if_pos (by omega)]
  · rw [if_neg hfit, if_neg (by omega)]
    by_cases hwrap : q.head > sizeofCq ∧ q.head ≤ q.tail
    · rw [if_pos hwrap, if_pos rfl, if_pos hwrap]
    · rw [if_neg hwrap, if_neg (by decide), if_neg hwrap]

/-- Behind `head`, with `tail` at the same place, there is room for any payload. -/
theorem freeAt_of_head_le {len : Nat} (h : q.head ≤ q.tail) : FreeAt q q.tail len := .inl h

/-- A push on a queue with `tail` at the start waits for room and does nothing else. -/
theorem shmCqPush_start (h : Resting args q l) (hd : Pushable args data) (htail : q.tail = sizeofCq) :
    shmCqPush q data = if FreeAt q q.tail (elemLen data) then some (0, fillBlock q data)
      else some (-1, q) := by
  have hassert := h.assert hd
  have hmax := h.bounds.elemMaxSz_le
  have helem := h.bounds.elemMaxSz_eq
  have hfit : q.tail + (data.length + sizeofBlock) ≤ q.shmSize := by
    have hlen := hd.2
    omega
  have halign := shmCqAlignTail_eq h hd
  rw [if_pos hfit, shmCqPushWait_eq] at halign
  rw [shmCqPush_eq hassert halign]
  by_cases hfree : FreeAt q q.tail (elemLen data)
  · rw [if_pos hfree, if_pos hfree, if_neg (by decide)]
  · rw [if_neg hfree, if_neg hfree, if_pos rfl]

theorem wrapTail_wrapped (h : Resting args q l) (hhead : sizeofCq < q.head) (heq : q.head = q.tail) :
    Wrapped (wrapTail q (q.shmSize - q.tail)) := by
  have htail := h.bounds.tail_le
  have hroom : toU64 ((q.shmSize : Int) - q.tail) = q.shmSize - q.tail := by
    unfold toU64
    have hsize := h.bounds.shmSize_lt
    omega
  unfold wrapTail
  rw [hroom]
  by_cases hpad : q.shmSize - q.tail ≥ sizeofBlock
  · rw [if_pos hpad]
    refine ⟨rfl, hhead, fun _ => ?_⟩
    dsimp only
    rw [heq]
    exact Buf.load32_store32 _ _ (by decide)
  · rw [if_neg hpad]
    refine ⟨rfl, hhead, fun hfit => ?_⟩
    dsimp only at hfit
    omega

/-- A push on a queue with `head` at `tail` succeeds, or takes `tail` to the start. -/
theorem shmCqPush_empty (h : Resting args q l) (hd : Pushable args data) (heq : q.head = q.tail) :
    (∃ q', shmCqPush q data = some (0, q')) ∨ ∃ q', shmCqPush q data = some (-1, q') ∧ Wrapped q' := by
  have hassert := h.assert hd
  have halign := shmCqAlignTail_eq h hd
  by_cases hfit : q.tail + (data.length + sizeofBlock) ≤ q.shmSize
  · rw [if_pos hfit, shmCqPushWait_eq, if_pos (freeAt_of_head_le (Nat.le_of_eq heq))] at halign
    rw [shmCqPush_eq hassert halign, if_neg (by decide)]
    exact .inl ⟨_, rfl⟩
  · have hhead : sizeofCq < q.head := by
      have hge := h.bounds.head_ge
      have hmax := h.bounds.elemMaxSz_le
      have helem := h.bounds.elemMaxSz_eq
      have hlen := hd.2
      omega
    have hwrapped := wrapTail_wrapped h hhead heq
    rw [if_neg hfit, if_pos ⟨hhead, Nat.le_of_eq heq⟩, shmCqPushWait_eq] at halign
    rw [shmCqPush_eq hassert halign]
    by_cases hfree : FreeAt (wrapTail q (q.shmSize - q.tail)) (wrapTail q (q.shmSize - q.tail)).tail
        (elemLen data)
    · rw [if_pos hfree, if_neg (by decide)]
      exact .inl ⟨_, rfl⟩
    · rw [if_neg hfree, if_pos rfl]
      exact .inr ⟨_, rfl, hwrapped⟩

/-- A pop takes `head` after the wrapped `tail`. -/
theorem Wrapped.pop (h : Resting args q l) (hw : Wrapped q) :
    shmCqPop q = some ⟨0, none, { q with head := sizeofCq }⟩ := by
  have hhead := hw.head
  have htail := hw.tail
  have hle := h.bounds.head_le
  have hsize := h.bounds.shmSize_lt
  have hne : ¬ q.head = q.tail := by omega
  have halign : shmCqAlignHead q = { q with head := sizeofCq } := by
    unfold shmCqAlignHead
    have hlt : ¬ q.head < q.tail := by omega
    rw [if_neg hlt, if_pos]
    rw [toU32_sub hle (by omega)]
    by_cases hfit : q.head + sizeofBlock ≤ q.shmSize
    · exact .inr (hw.pad hfit)
    · exact .inl (by omega)
  unfold shmCqPop
  rw [if_neg hne, halign]
  exact if_pos htail.symm

theorem shmCqPop_empty (heq : q.head = q.tail) : shmCqPop q = some ⟨0, none, q⟩ := if_pos heq

/-- With both at the start every push succeeds. -/
theorem shmCqPush_both_start (h : Resting args q l) (hd : Pushable args data)
    (htail : q.tail = sizeofCq) (heq : q.head = q.tail) :
    shmCqPush q data = some (0, fillBlock q data) := by
  rw [shmCqPush_start h hd htail, if_pos (freeAt_of_head_le (Nat.le_of_eq heq))]

/-! ## A producer that retries and a consumer that polls -/

/-- Whose call is next. -/
inductive Turn where
  | push
  | pop

/-- One turn of `while (shm_cq_push(cq, buf, n));` in one process, or of the `for (;;)` with
`shm_cq_pop` in the other. The flag tells whether the producer has left its loop. -/
def retryStep (data : Payload) (s : ShmCq × Bool) : Turn → ShmCq × Bool
  | .push =>
      if s.2 then s
      else
        match shmCqPush s.1 data with
        | some (ret, q) => (q, decide (ret = 0))
        | none => s
  | .pop =>
      match shmCqPop s.1 with
      | some r => (r.q, s.2)
      | none => s

/-- The producer has left its loop. -/
def Pushed (s : ShmCq × Bool) : Prop := s.2 = true

/-- The producer is in its loop, and the queue meets `P`. -/
def Trying (P : ShmCq → Prop) (s : ShmCq × Bool) : Prop := s.2 = false ∧ P s.1

theorem retryStep_pop {r : PopResult} (hpop : shmCqPop q = some r) :
    retryStep data (q, false) .pop = (r.q, false) := by
  unfold retryStep
  rw [hpop]

/-- A push of a producer that has not left its loop. -/
theorem retryStep_push (h : Resting args q l) (hd : Pushable args data) :
    Pushed (retryStep data (q, false) .push) ∨ ∃ q', shmCqPush q data = some (-1, q') ∧
      retryStep data (q, false) .push = (q', false) ∧ Resting args q' l := by
  obtain ⟨ret, q', hpush, -, ⟨rfl, -⟩ | ⟨rfl, hrest⟩⟩ := shmCqPush_spec h hd
  · refine .inl ?_
    unfold retryStep Pushed
    simp only [hpush, Bool.false_eq_true, ↓reduceIte, decide_true]
  · refine .inr ⟨q', hpush, ?_, hrest⟩
    unfold retryStep
    simp only [hpush, Bool.false_eq_true, ↓reduceIte]
    rfl

section Stages

variable {turns : Nat → Turn} {s : ShmCq × Bool} {P Q : ShmCq → Prop}

/-- A stage that the next pop ends. -/
theorem leadsTo_pop (hrec : Recurs turns .pop)
    (hpush : ∀ q, P q → Pushed (retryStep data (q, false) .push) ∨
      Trying P (retryStep data (q, false) .push))
    (hpop : ∀ q, P q → Trying Q (retryStep data (q, false) .pop)) :
    LeadsTo (retryStep data) turns s (Trying P) fun s => Trying Q s ∨ Pushed s := by
  refine leadsTo_of_recurs hrec ?_ ?_
  · rintro ⟨q, _⟩ e ⟨rfl, hq⟩
    cases e with
    | push =>
        rcases hpush q hq with h | h
        · exact .inr (.inr h)
        · exact .inl h
    | pop => exact .inr (.inl (hpop q hq))
  · rintro ⟨q, _⟩ ⟨rfl, hq⟩
    exact .inl (hpop q hq)

/-- A stage that the next push ends. -/
theorem leadsTo_push (hrec : Recurs turns .push)
    (hpush : ∀ q, P q → Pushed (retryStep data (q, false) .push) ∨
      Trying Q (retryStep data (q, false) .push))
    (hpop : ∀ q, P q → Trying P (retryStep data (q, false) .pop)) :
    LeadsTo (retryStep data) turns s (Trying P) fun s => Trying Q s ∨ Pushed s := by
  refine leadsTo_of_recurs hrec ?_ ?_
  · rintro ⟨q, _⟩ e ⟨rfl, hq⟩
    cases e with
    | push => exact .inr (hpush q hq).symm
    | pop => exact .inl (hpop q hq)
  · rintro ⟨q, _⟩ ⟨rfl, hq⟩
    exact (hpush q hq).symm

/-- `k` payloads are unread. -/
def Reading (args : CreateArgs) (k : Nat) (q : ShmCq) : Prop := ∃ l, Resting args q l ∧ l.length = k

theorem reading_leadsTo (hd : Pushable args data) (hrec : Recurs turns .pop) (k : Nat) :
    LeadsTo (retryStep data) turns s (Trying (Reading args (k + 1)))
      fun s => Trying (Reading args k) s ∨ Pushed s := by
  refine leadsTo_pop hrec ?_ ?_
  · rintro q ⟨l, h, hlen⟩
    rcases retryStep_push h hd with hdone | ⟨q', -, hstep, hrest⟩
    · exact .inl hdone
    · rw [hstep]
      exact .inr ⟨rfl, l, hrest, hlen⟩
  · rintro q ⟨l, h, hlen⟩
    obtain ⟨r, hpop, ⟨rfl, -⟩ | ⟨d, l', p, rfl, -, -, -, hrest⟩⟩ := shmCqPop_spec h
    · cases hlen
    · rw [retryStep_pop hpop]
      exact ⟨rfl, l', hrest, Nat.succ.inj hlen⟩

/-- Nothing is unread, and `head` has come to `tail`. -/
def CaughtUp (args : CreateArgs) (q : ShmCq) : Prop := Resting args q [] ∧ q.head = q.tail

/-- A failed push has taken `tail` to the start. -/
def WrappedUp (args : CreateArgs) (q : ShmCq) : Prop := Resting args q [] ∧ Wrapped q

/-- Nothing is unread, and `head` and `tail` are at the start. -/
def AtStart (args : CreateArgs) (q : ShmCq) : Prop :=
  Resting args q [] ∧ q.tail = sizeofCq ∧ q.head = q.tail

theorem empty_leadsTo (hd : Pushable args data) (hrec : Recurs turns .pop) :
    LeadsTo (retryStep data) turns s (Trying (Reading args 0))
      fun s => Trying (CaughtUp args) s ∨ Pushed s := by
  refine leadsTo_pop hrec ?_ ?_
  · rintro q ⟨l, h, hlen⟩
    rcases retryStep_push h hd with hdone | ⟨q', -, hstep, hrest⟩
    · exact .inl hdone
    · rw [hstep]
      exact .inr ⟨rfl, l, hrest, hlen⟩
  · rintro q ⟨l, h, hlen⟩
    obtain ⟨r, hpop, ⟨-, -, -, heq, hrest⟩ | ⟨d, l', p, rfl, -⟩⟩ := shmCqPop_spec h
    · rw [retryStep_pop hpop]
      exact ⟨rfl, hrest, heq⟩
    · cases hlen

theorem caughtUp_leadsTo (hd : Pushable args data) (hrec : Recurs turns .push) :
    LeadsTo (retryStep data) turns s (Trying (CaughtUp args))
      fun s => Trying (WrappedUp args) s ∨ Pushed s := by
  refine leadsTo_push hrec ?_ ?_
  · rintro q ⟨h, heq⟩
    rcases retryStep_push h hd with hdone | ⟨q', hpush, hstep, hrest⟩
    · exact .inl hdone
    · rw [hstep]
      refine .inr ⟨rfl, hrest, ?_⟩
      rcases shmCqPush_empty h hd heq with ⟨q₁, hpush₁⟩ | ⟨q₁, hpush₁, hw⟩
      · rw [hpush₁] at hpush
        cases hpush
      · rw [hpush₁] at hpush
        cases hpush
        exact hw
  · rintro q ⟨h, heq⟩
    rw [retryStep_pop (shmCqPop_empty heq)]
    exact ⟨rfl, h, heq⟩

theorem WrappedUp.pop (hw : WrappedUp args q) :
    shmCqPop q = some ⟨0, none, { q with head := sizeofCq }⟩ ∧
      AtStart args { q with head := sizeofCq } := by
  have hpop := hw.2.pop hw.1
  refine ⟨hpop, ?_, hw.2.tail, hw.2.tail.symm⟩
  obtain ⟨r, hpop', ⟨-, -, -, -, hrest⟩ | ⟨d, l', p, hcons, -⟩⟩ := shmCqPop_spec hw.1
  · rw [hpop] at hpop'
    cases hpop'
    exact hrest
  · cases hcons

theorem wrappedUp_leadsTo (hd : Pushable args data) (hrec : Recurs turns .pop) :
    LeadsTo (retryStep data) turns s (Trying (WrappedUp args))
      fun s => Trying (AtStart args) s ∨ Pushed s := by
  refine leadsTo_pop hrec ?_ ?_
  · rintro q ⟨h, hw⟩
    rcases retryStep_push h hd with hdone | ⟨q', hpush, hstep, hrest⟩
    · exact .inl hdone
    · rw [hstep]
      refine .inr ⟨rfl, hrest, ?_⟩
      rw [shmCqPush_start h hd hw.tail] at hpush
      split at hpush
      · cases hpush
      · cases hpush
        exact hw
  · intro q hw
    obtain ⟨hpop, hstart⟩ := hw.pop
    rw [retryStep_pop hpop]
    exact ⟨rfl, hstart⟩

theorem atStart_leadsTo (hd : Pushable args data) (hrec : Recurs turns .push) :
    LeadsTo (retryStep data) turns s (Trying (AtStart args))
      fun s => Trying (fun _ => False) s ∨ Pushed s := by
  refine leadsTo_push hrec ?_ ?_
  · rintro q ⟨h, htail, heq⟩
    rcases retryStep_push h hd with hdone | ⟨q', hpush, -, -⟩
    · exact .inl hdone
    · rw [shmCqPush_both_start h hd htail heq] at hpush
      cases hpush
  · rintro q ⟨h, htail, heq⟩
    rw [retryStep_pop (shmCqPop_empty heq)]
    exact ⟨rfl, h, htail, heq⟩

/-- The producer leaves its loop. -/
theorem Resting.eventually_pushed (h : Resting args q l) (hd : Pushable args data)
    (hpush : Recurs turns .push) (hpop : Recurs turns .pop) :
    ∃ n, Pushed (Fairness.run (retryStep data) turns (q, false) n) := by
  have hread := @LeadsTo.countdown _ _ (retryStep data) turns (q, false) Pushed
    (fun k => Trying (Reading args k)) (reading_leadsTo hd hpop) l.length
  have hstart := (((hread.trans_or (empty_leadsTo hd hpop)).trans_or
    (caughtUp_leadsTo hd hpush)).trans_or (wrappedUp_leadsTo hd hpop)).trans_or
    (atStart_leadsTo hd hpush)
  obtain ⟨n, -, hfalse | hdone⟩ := hstart 0 ⟨rfl, l, h, rfl⟩
  · exact hfalse.2.elim
  · exact ⟨n, hdone⟩

end Stages

/-- A failed push leaves the unread payloads as they are; when a push fails on a queue that a pop has
just found empty, the next pop returns 0 and the same push then succeeds; and in any order of calls in
which both processes have infinitely many turns, a producer that retries gets its payload in. -/
theorem shmCq_never_wedges (args : CreateArgs) (mem : Buf) (q : ShmCq) (hq : Quiescent args mem q)
    (data : Payload) (hd : Pushable args data) :
    (∃ ret q', shmCqPush q data = some (ret, q') ∧
      ((ret = 0 ∧ messages q' = messages q ++ [data]) ∨ (ret = -1 ∧ messages q' = messages q))) ∧
    (∃ r, shmCqPop q = some r ∧ (r.ret = 0 → ∃ ret q', shmCqPush r.q data = some (ret, q') ∧
      (ret ≠ 0 → ∃ r' q'', shmCqPop q' = some r' ∧ r'.ret = 0 ∧
        shmCqPush r'.q data = some (0, q'')))) ∧
    ∀ turns : Nat → Turn, Recurs turns .push → Recurs turns .pop →
      ∃ n, Pushed (Fairness.run (retryStep data) turns (q, false) n) := by
  obtain ⟨l, h⟩ := hq.resting
  refine ⟨?_, ?_, fun turns hpush hpop => h.eventually_pushed hd hpush hpop⟩
  · obtain ⟨ret, q', hpush, -, hrest⟩ := shmCqPush_spec h hd
    refine ⟨ret, q', hpush, ?_⟩
    rw [h.messages]
    rcases hrest with ⟨hret, hrest⟩ | ⟨hret, hrest⟩
    · exact .inl ⟨hret, hrest.messages⟩
    · exact .inr ⟨hret, hrest.messages⟩
  · obtain ⟨r, hpop, hresult⟩ := shmCqPop_spec h
    refine ⟨r, hpop, fun hret => ?_⟩
    rcases hresult with ⟨-, -, -, heq, hrest⟩ | ⟨d, l', p, -, hlen, -, hheld, -⟩
    · obtain ⟨ret, q', hpush, -, hresult⟩ := shmCqPush_spec hrest hd
      refine ⟨ret, q', hpush, fun hne => ?_⟩
      rcases hresult with ⟨h0, -⟩ | ⟨rfl, hrest'⟩
      · exact absurd h0 hne
      have hw : Wrapped q' := by
        rcases shmCqPush_empty hrest hd heq with ⟨q₁, hpush₁⟩ | ⟨q₁, hpush₁, hw⟩
        · rw [hpush₁] at hpush
          cases hpush
        · rw [hpush₁] at hpush
          cases hpush
          exact hw
      obtain ⟨hpop', hstart, htail, hboth⟩ := WrappedUp.pop ⟨hrest', hw⟩
      exact ⟨_, _, hpop', rfl, shmCqPush_both_start hstart hd htail hboth⟩
    · have hpos := hheld.block.pos
      omega

/-- A queue of 28 bytes after the push and the pop of a payload of 16 bytes: 8 bytes are left behind `tail`. -/
def pushPop : World :=
  let args : CreateArgs := ⟨28, 16, by decide, by decide, by decide⟩
  let w := producerStep^[9] { World.init args (fun _ => 0) with producer := .alignTail (List.replicate 16 7) }
  consumerStep^[13] { w with consumer := .firstHead }

/-- The next push of 16 bytes leaves a pad there and fails. -/
theorem shmCq_never_wedges_pad :
    let q := pushPop.q
    let data : Payload := List.replicate 16 9
    (shmCqPush q data).map Prod.fst = some (-1) ∧
    (shmCqPush q data).map (fun result => result.2.mem.load32 100) = some padLen ∧
    (∃ ret q', shmCqPush q data = some (ret, q') ∧
      ((ret = 0 ∧ messages q' = messages q ++ [data]) ∨ (ret = -1 ∧ messages q' = messages q))) ∧
    (∃ r, shmCqPop q = some r ∧ (r.ret = 0 → ∃ ret q', shmCqPush r.q data = some (ret, q') ∧
      (ret ≠ 0 → ∃ r' q'', shmCqPop q' = some r' ∧ r'.ret = 0 ∧
        shmCqPush r'.q data = some (0, q'')))) ∧
    ∀ turns : Nat → Turn, Recurs turns .push → Recurs turns .pop →
      ∃ n, Pushed (Fairness.run (retryStep data) turns (q, false) n) := by
  have hreach : Reachable ⟨28, 16, by decide, by decide, by decide⟩ (fun _ => 0) pushPop := by
    refine .iterate .consumer (.next ?_ (.pop _ rfl)) 13
    exact .iterate .producer (.next .init (.push _ (List.replicate 16 7) rfl (by decide) (by decide))) 9
  exact ⟨by decide, by decide, shmCq_never_wedges _ (fun _ => 0) _ ⟨_, hreach, by rfl, by rfl, rfl⟩ _
    ⟨by decide, by decide⟩⟩

end Taomee.Shmq
