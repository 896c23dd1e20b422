import Taomee.Shmq.Queue

/-!
# What lies in the mapping

Unread records are stored one behind the other from `head` to `tail`. When `tail` has wrapped they
run from `head` to the end of the used part, which a pad or the end of the mapping marks, and go on
at the start of the records.
-/

namespace Taomee.Shmq

/-! ## Records in memory -/

/-- A record of at most `elemMax` bytes that holds `d` starts at `p`. -/
structure BlockAt (mem : Buf) (elemMax p : Nat) (d : Payload) : Prop where
  len : mem.load32 p = d.length + sizeofBlock
  data : mem.slice (p + sizeofBlock) d.length = d
  pos : 1 ≤ d.length
  le : d.length + sizeofBlock ≤ elemMax

/-- Records holding `ds` are stored one behind the other from `a` up to `b`. -/
def Stored (mem : Buf) (elemMax : Nat) : Nat → List Payload → Nat → Prop
  | a, [], b => a = b
  | a, d :: ds, b =>
      BlockAt mem elemMax a d ∧ Stored mem elemMax (a + (d.length + sizeofBlock)) ds b

variable {mem mem' : Buf} {elemMax : Nat}

theorem BlockAt.congr {p : Nat} {d : Payload} (h : BlockAt mem elemMax p d)
    (hm : ∀ i, p ≤ i → i < p + (d.length + sizeofBlock) → mem' i = mem i) :
    BlockAt mem' elemMax p d where
  len := by
    rw [← h.len]
    exact Buf.load32_congr fun i h1 h2 => hm i h1 (by unfold sizeofBlock; omega)
  data := by
    have heq : mem'.slice (p + sizeofBlock) d.length = mem.slice (p + sizeofBlock) d.length :=
      Buf.slice_congr fun i h1 h2 => hm i (by omega) (by omega)
    rw [heq, h.data]
  pos := h.pos
  le := h.le

/-- A position holds at most one record. -/
theorem BlockAt.unique {p : Nat} {d d' : Payload} (h : BlockAt mem elemMax p d)
    (h' : BlockAt mem elemMax p d') : d = d' := by
  have hlen : d.length = d'.length := by
    have := h.len
    have := h'.len
    omega
  rw [← h.data, ← h'.data, hlen]

theorem Stored.le {a b : Nat} {ds : List Payload} (h : Stored mem elemMax a ds b) : a ≤ b := by
  induction ds generalizing a with
  | nil => exact Nat.le_of_eq h
  | cons d ds ih =>
      have := ih h.2
      omega

/-- Each record takes its payload and the length field. -/
theorem Stored.length {a b : Nat} {ds : List Payload} (h : Stored mem elemMax a ds b) :
    a + (ds.flatten.length + sizeofBlock * ds.length) = b := by
  induction ds generalizing a with
  | nil => exact h
  | cons d ds ih =>
      have hrest := ih h.2
      rw [List.flatten_cons, List.length_append, List.length_cons, Nat.mul_succ]
      omega

theorem Stored.congr {a b : Nat} {ds : List Payload} (h : Stored mem elemMax a ds b)
    (hm : ∀ i, a ≤ i → i < b → mem' i = mem i) : Stored mem' elemMax a ds b := by
  induction ds generalizing a with
  | nil => exact h
  | cons d ds ih =>
      have hle := h.2.le
      exact ⟨h.1.congr fun i h1 h2 => hm i h1 (by omega),
        ih h.2 fun i h1 h2 => hm i (by omega) h2⟩

theorem Stored.concat {a b : Nat} {ds : List Payload} {d : Payload}
    (h : Stored mem elemMax a ds b) (hb : BlockAt mem elemMax b d) :
    Stored mem elemMax a (ds ++ [d]) (b + (d.length + sizeofBlock)) := by
  induction ds generalizing a with
  | nil =>
      obtain rfl : a = b := h
      exact ⟨hb, rfl⟩
  | cons d' ds ih => exact ⟨h.1, ih h.2⟩

/-! ## The unread records -/

/-- The end of the used part of the mapping: a pad stands there, if there is room for one. -/
def PadAt (q : ShmCq) (p : Nat) : Prop := p + sizeofBlock ≤ q.shmSize → q.mem.load32 p = padLen

/-- The payloads that are in the queue, oldest first. -/
inductive Unread (q : ShmCq) : List Payload → Prop
  | normal {ds : List Payload} : q.head ≤ q.tail →
      Stored q.mem q.elemMaxSz q.head ds q.tail → Unread q ds
  | wrapped {ds es : List Payload} {old : Nat} : q.tail < q.head →
      Stored q.mem q.elemMaxSz q.head ds old → old ≤ q.shmSize → PadAt q old →
      Stored q.mem q.elemMaxSz sizeofCq es q.tail → Unread q (ds ++ es)

/-- Where `head` and `tail` may point, and the sizes. -/
structure Bounds (args : CreateArgs) (q : ShmCq) : Prop where
  head_ge : sizeofCq ≤ q.head
  head_le : q.head ≤ q.shmSize
  tail_ge : sizeofCq ≤ q.tail
  tail_le : q.tail ≤ q.shmSize
  shmSize_eq : q.shmSize = args.cqSize + sizeofCq
  elemMaxSz_eq : q.elemMaxSz = args.dataMaxSz + sizeofBlock

/-- The producer may write `n` bytes at `tail`: in front of `head`, and of the record that the
consumer may still be looking at. -/
def Room (q : ShmCq) (n : Nat) : Prop :=
  q.tail + n ≤ q.shmSize ∧ (q.tail < q.head → q.tail + n + q.elemMaxSz ≤ q.head)

/-- A record is known to stand at `head`. -/
structure Ready (q : ShmCq) : Prop where
  ne : q.head ≠ q.tail
  fits : q.head + sizeofBlock ≤ q.shmSize
  not_pad : q.mem.load32 q.head ≠ padLen

section

variable {args : CreateArgs} {q : ShmCq}

theorem Bounds.shmSize_lt (hb : Bounds args q) : q.shmSize < 2000000080 := by
  have := args.lt_max
  rw [hb.shmSize_eq]
  unfold sizeofCq
  omega

theorem Bounds.elemMaxSz_le (hb : Bounds args q) : sizeofCq + q.elemMaxSz ≤ q.shmSize := by
  have := args.room
  rw [hb.shmSize_eq, hb.elemMaxSz_eq]
  omega

theorem BlockAt.not_pad (hb : Bounds args q) {p : Nat} {d : Payload}
    (h : BlockAt q.mem q.elemMaxSz p d) : q.mem.load32 p ≠ padLen := by
  have := h.le
  have := hb.elemMaxSz_le
  have := hb.shmSize_lt
  rw [h.len]
  unfold padLen
  omega

/-- Before `tail` there is a record at `head`. -/
theorem Unread.ready_of_lt (hb : Bounds args q) {l : List Payload} (h : Unread q l)
    (hlt : q.head < q.tail) : Ready q := by
  cases h with
  | wrapped hw => omega
  | normal hle hs =>
      cases l with
      | nil => exact absurd hs (Nat.ne_of_lt hlt)
      | cons d ds =>
          have := hs.2.le
          have := hb.tail_le
          exact ⟨Nat.ne_of_lt hlt, by omega, hs.1.not_pad hb⟩

/-- The record at `head` is the oldest unread one, and it ends inside of the mapping. -/
theorem Unread.first (hb : Bounds args q) {l : List Payload} (h : Unread q l) (hr : Ready q) :
    ∃ d l', l = d :: l' ∧ BlockAt q.mem q.elemMaxSz q.head d ∧
      q.head + (d.length + sizeofBlock) ≤ q.shmSize := by
  cases h with
  | normal hle hs =>
      cases l with
      | nil => exact absurd hs hr.ne
      | cons d ds => exact ⟨d, ds, rfl, hs.1, hs.2.le.trans hb.tail_le⟩
  | @wrapped ds es old hw hs hold hpad hes =>
      cases ds with
      | nil =>
          obtain rfl : q.head = old := hs
          exact absurd (hpad hr.fits) hr.not_pad
      | cons d ds => exact ⟨d, ds ++ es, rfl, hs.1, hs.2.le.trans hold⟩

/-! ## What the two processes do to the queue -/

/-- What one step of the producer does to the queue, and the payloads it publishes. -/
inductive ProducerMove (q : ShmCq) : ShmCq → List Payload → Prop
  | stay : ProducerMove q q []
  | write {mem : Buf} (n : Nat) : Room q n →
      (∀ i, i < q.tail ∨ q.tail + n ≤ i → mem i = q.mem i) →
      ProducerMove q { q with mem := mem } []
  | wrap : sizeofCq < q.head → q.head ≤ q.tail → PadAt q q.tail →
      ProducerMove q { q with tail := sizeofCq } []
  | publish (d : Payload) : Room q (d.length + sizeofBlock) →
      BlockAt q.mem q.elemMaxSz q.tail d →
      ProducerMove q { q with tail := q.tail + (d.length + sizeofBlock) } [d]

/-- What one step of the consumer does to the queue, and the payloads it takes. -/
inductive ConsumerMove (q : ShmCq) : ShmCq → List Payload → Prop
  | stay : ConsumerMove q q []
  | wrap : q.tail < q.head → PadAt q q.head → ConsumerMove q { q with head := sizeofCq } []
  | advance (d : Payload) : Ready q → BlockAt q.mem q.elemMaxSz q.head d →
      ConsumerMove q { q with head := q.head + (d.length + sizeofBlock) } [d]

variable {q' : ShmCq} {out : List Payload}

theorem ProducerMove.head (h : ProducerMove q q' out) : q'.head = q.head := by
  cases h with
  | _ => rfl

theorem ProducerMove.bounds (h : ProducerMove q q' out) (hb : Bounds args q) : Bounds args q' := by
  have hmax := hb.elemMaxSz_le
  cases h with
  | stay => exact hb
  | write n hroom hm => exact { hb with }
  | wrap h1 h2 hpad => exact { hb with tail_ge := Nat.le_refl _, tail_le := by simp only; omega }
  | publish d hroom hd =>
      exact { hb with
        tail_ge := hb.tail_ge.trans (Nat.le_add_right _ _)
        tail_le := hroom.1 }

/-- A step of the producer appends what it publishes to the unread payloads. -/
theorem ProducerMove.unread (h : ProducerMove q q' out) (hb : Bounds args q) {l : List Payload}
    (hl : Unread q l) : Unread q' (l ++ out) := by
  cases h with
  | stay => rwa [List.append_nil]
  | @write mem n hroom hm =>
      rw [List.append_nil]
      cases hl with
      | normal hle hs => exact .normal hle (hs.congr fun i h1 h2 => hm i (.inl h2))
      | @wrapped ds es old hw hs hold hpad hes =>
          -- the bytes written end below `head`
          have hfree := hroom.2 hw
          have hho := hs.le
          refine .wrapped hw (hs.congr fun i h1 h2 => hm i (.inr (by omega))) hold ?_
            (hes.congr fun i h1 h2 => hm i (.inl h2))
          intro hfits
          rw [← hpad hfits]
          exact Buf.load32_congr fun i h1 h2 => hm i (.inr (by omega))
  | wrap h1 h2 hpad =>
      cases hl with
      | wrapped hw => omega
      | normal hle hs =>
          exact .wrapped h1 hs hb.tail_le hpad rfl
  | publish d hroom hd =>
      cases hl with
      | normal hle hs => exact .normal (Nat.le_add_right_of_le hle) (hs.concat hd)
      | @wrapped ds es old hw hs hold hpad hes =>
          rw [List.append_assoc]
          have hfree := hroom.2 hw
          have := hd.le
          have := hd.pos
          exact .wrapped (q := { q with tail := q.tail + (d.length + sizeofBlock) })
            (by simp only; omega) hs hold hpad (hes.concat hd)

theorem ConsumerMove.bounds (h : ConsumerMove q q' out) (hb : Bounds args q) {l : List Payload}
    (hl : Unread q l) : Bounds args q' := by
  cases h with
  | stay => exact hb
  | wrap h1 hpad =>
      exact { hb with head_ge := Nat.le_refl _, head_le := hb.tail_ge.trans hb.tail_le }
  | advance d hr hd =>
      obtain ⟨d', l', -, hd', hle⟩ := hl.first hb hr
      obtain rfl := hd.unique hd'
      exact { hb with
        head_ge := hb.head_ge.trans (Nat.le_add_right _ _)
        head_le := hle }

/-- A step of the consumer takes the oldest unread payloads. -/
theorem ConsumerMove.unread (h : ConsumerMove q q' out) (hb : Bounds args q) {l : List Payload}
    (hl : Unread q l) : ∃ l', l = out ++ l' ∧ Unread q' l' := by
  cases h with
  | stay => exact ⟨l, rfl, hl⟩
  | wrap h1 hpad =>
      cases hl with
      | normal hle => omega
      | @wrapped ds es old hw hs hold hpad' hes =>
          -- no record can stand where the pad is
          cases ds with
          | nil => exact ⟨es, rfl, .normal (q := { q with head := sizeofCq }) hb.tail_ge hes⟩
          | cons d ds =>
              have := hs.2.le
              exact absurd (hpad (by omega)) (hs.1.not_pad hb)
  | advance d hr hd =>
      cases hl with
      | normal hle hs =>
          cases l with
          | nil => exact absurd hs hr.ne
          | cons d' ds =>
              obtain rfl := hd.unique hs.1
              exact ⟨ds, rfl, .normal hs.2.le hs.2⟩
      | @wrapped ds es old hw hs hold hpad hes =>
          cases ds with
          | nil =>
              obtain rfl : q.head = old := hs
              exact absurd (hpad hr.fits) hr.not_pad
          | cons d' ds =>
              obtain rfl := hd.unique hs.1
              exact ⟨ds ++ es, rfl,
                .wrapped (q := { q with head := q.head + (d.length + sizeofBlock) })
                  (by simp only; omega) hs.2 hold hpad hes⟩

end

end Taomee.Shmq
