import Mathlib.Algebra.Group.Int.Defs
import Mathlib.Algebra.GroupWithZero.Nat
import Mathlib.Data.List.Chain
import Mathlib.Data.List.Nodup
import Mathlib.Logic.Function.Basic

/-!
# Circular doubly linked lists

Nodes are linked through `next` and `prev` fields that stay outside of what the nodes hold. A list
is a ring through its head. A family of disjoint rings is kept by adding a node at a tail and by
unlinking one.
-/

namespace Taomee

/-- What is left of a list without one of its elements. -/
theorem filter_ne_of_nodup {α : Type} [DecidableEq α] {as bs : List α} {t : α} (h : (as ++ t :: bs).Nodup) :
    (as ++ t :: bs).filter (· ≠ t) = as ++ bs := by
  have hnd := h
  rw [List.nodup_append] at hnd
  have has : t ∉ as := fun hta => hnd.2.2 t hta t List.mem_cons_self rfl
  have htest : ∀ a, decide (a ≠ t) = (a != t) := fun a => decide_not
  calc (as ++ t :: bs).filter (· ≠ t) = (as ++ t :: bs).filter (· != t) := List.filter_congr fun a _ => htest a
    _ = (as ++ t :: bs).erase t := (h.erase_eq_filter t).symm
    _ = as ++ (t :: bs).erase t := List.erase_append_right _ has
    _ = as ++ bs := by rw [List.erase_cons_head]

/-- The link fields of all nodes. -/
structure Links (P : Type) where
  next : P → P
  prev : P → P

namespace Links

variable {P : Type} [DecidableEq P]

def setNext (m : Links P) (a b : P) : Links P := { m with next := Function.update m.next a b }
def setPrev (m : Links P) (a b : P) : Links P := { m with prev := Function.update m.prev a b }

/-- `x` between the neighbours `p` and `n`. -/
def insert (m : Links P) (x p n : P) : Links P :=
  (((m.setPrev n x).setNext x n).setPrev x p).setNext p x

/-- `x` in front of the head, behind the last node. -/
def addTail (m : Links P) (x h : P) : Links P := m.insert x (m.prev h) h

/-- `p` and `n` made neighbours. -/
def bridge (m : Links P) (p n : P) : Links P := (m.setPrev n p).setNext p n

/-- The neighbours of `x` made neighbours of each other. -/
def unlink (m : Links P) (x : P) : Links P := m.bridge (m.prev x) (m.next x)

/-- The fields of `x` itself. -/
def withLinks (m : Links P) (x n p : P) : Links P := (m.setNext x n).setPrev x p

/-! ## One ring -/

omit [DecidableEq P] in
/-- `a` and `b` are neighbours. -/
def Adj (m : Links P) (a b : P) : Prop := m.next a = b ∧ m.prev b = a

omit [DecidableEq P] in
/-- The nodes `xs` form the list of the head `h`, in this order. -/
structure Ring (m : Links P) (h : P) (xs : List P) : Prop where
  nodup : (h :: xs).Nodup
  chain : (h :: xs ++ [h]).IsChain m.Adj

variable {m m' : Links P} {h x : P} {xs as bs : List P}

omit [DecidableEq P] in
theorem isChain_congr : ∀ {l : List P}, l.IsChain m.Adj → (∀ a ∈ l.dropLast, m'.next a = m.next a) →
    (∀ b ∈ l.tail, m'.prev b = m.prev b) → l.IsChain m'.Adj
  | [], _, _, _ => .nil
  | [a], _, _, _ => .singleton a
  | a :: b :: l, hc, hn, hp => by
      rw [List.isChain_cons_cons] at hc ⊢
      refine ⟨⟨?_, ?_⟩, isChain_congr hc.2 (fun c hc => hn c ?_) fun c hc => hp c ?_⟩
      · rw [hn a (by simp)]
        exact hc.1.1
      · rw [hp b (by simp)]
        exact hc.1.2
      · exact List.mem_cons_of_mem _ hc
      · exact List.mem_cons_of_mem _ hc

omit [DecidableEq P] in
/-- A ring depends on the links of its own nodes only. -/
theorem Ring.congr (hr : Ring m h xs) (hn : ∀ a ∈ h :: xs, m'.next a = m.next a)
    (hp : ∀ a ∈ h :: xs, m'.prev a = m.prev a) : Ring m' h xs where
  nodup := hr.nodup
  chain := by
    refine isChain_congr hr.chain (fun a ha => hn a ?_) fun a ha => hp a ?_
    · rwa [List.dropLast_concat] at ha
    · simpa [or_comm] using ha

omit [DecidableEq P] in
theorem Ring.next (hr : Ring m h (as ++ x :: bs)) : m.next x = bs.headD h := by
  have hc := hr.chain
  cases bs with
  | nil =>
      have : (h :: as) ++ x :: h :: [] = h :: (as ++ [x]) ++ [h] := by simp
      rw [← this, List.isChain_append_cons_cons] at hc
      exact hc.2.1.1
  | cons b bs =>
      have : (h :: as) ++ x :: b :: (bs ++ [h]) = h :: (as ++ x :: b :: bs) ++ [h] := by simp
      rw [← this, List.isChain_append_cons_cons] at hc
      exact hc.2.1.1

omit [DecidableEq P] in
theorem Ring.next_head (hr : Ring m h xs) : m.next h = xs.headD h := by
  have hc := hr.chain
  cases xs with
  | nil => exact (List.isChain_cons_cons.mp hc).1.1
  | cons a xs => exact (List.isChain_cons_cons.mp hc).1.1

omit [DecidableEq P] in
theorem chain_unique : ∀ {a : P} {xs ys : List P}, (a :: xs ++ [h]).IsChain m.Adj → (a :: ys ++ [h]).IsChain m.Adj →
    h ∉ xs → h ∉ ys → xs = ys
  | _, [], [], _, _, _, _ => rfl
  | a, [], y :: ys, hx, hy, _, hny => by
      have hh : m.next a = h := (List.isChain_cons_cons.mp hx).1.1
      have hn : m.next a = y := (List.isChain_cons_cons.mp hy).1.1
      exact absurd (List.mem_cons.mpr (.inl (hh.symm.trans hn))) hny
  | a, x :: xs, [], hx, hy, hnx, _ => by
      have hn : m.next a = x := (List.isChain_cons_cons.mp hx).1.1
      have hh : m.next a = h := (List.isChain_cons_cons.mp hy).1.1
      exact absurd (List.mem_cons.mpr (.inl (hh.symm.trans hn))) hnx
  | a, x :: xs, y :: ys, hx, hy, hnx, hny => by
      obtain ⟨hax, hx⟩ := List.isChain_cons_cons.mp hx
      obtain ⟨hay, hy⟩ := List.isChain_cons_cons.mp hy
      obtain rfl : x = y := hax.1.symm.trans hay.1
      rw [chain_unique hx hy (fun hm => hnx (List.mem_cons_of_mem _ hm)) fun hm => hny (List.mem_cons_of_mem _ hm)]

omit [DecidableEq P] in
/-- The links tell the nodes of a list. -/
theorem Ring.unique {ys : List P} (hx : Ring m h xs) (hy : Ring m h ys) : xs = ys :=
  chain_unique hx.chain hy.chain (List.nodup_cons.mp hx.nodup).1 (List.nodup_cons.mp hy.nodup).1

/-! ## Adding at the tail -/

theorem addTail_next (m : Links P) (x h a : P) : (m.addTail x h).next a =
    if a = m.prev h then x else if a = x then h else m.next a := by
  simp [addTail, insert, setNext, setPrev, Function.update_apply]

theorem addTail_prev (m : Links P) (x h a : P) : (m.addTail x h).prev a =
    if a = x then m.prev h else if a = h then x else m.prev a := by
  simp [addTail, insert, setNext, setPrev, Function.update_apply]

omit [DecidableEq P] in
theorem Ring.exists_last (hr : Ring m h xs) :
    ∃ ys l, h :: xs = ys ++ [l] ∧ m.prev h = l ∧ (ys ++ [l]).IsChain m.Adj := by
  obtain ⟨ys, l, hl⟩ : ∃ ys l, h :: xs = ys ++ [l] :=
    ⟨(h :: xs).dropLast, (h :: xs).getLast (by simp), (List.dropLast_append_getLast _).symm⟩
  have hc := hr.chain
  rw [hl, List.append_assoc, List.singleton_append, List.isChain_append_cons_cons] at hc
  exact ⟨ys, l, hl, hc.2.1.2, hc.1⟩

theorem Ring.addTail (hr : Ring m h xs) (hx : x ∉ h :: xs) : Ring (m.addTail x h) h (xs ++ [x]) := by
  obtain ⟨ys, l, hl, hprev, hchain⟩ := hr.exists_last
  have hnd := hr.nodup
  have hxl : x ≠ l := fun he => hx (by rw [hl, he]; simp)
  have hxh : h ≠ x := fun he => hx (by rw [he]; simp)
  refine ⟨?_, ?_⟩
  · rw [← List.cons_append, List.nodup_append]
    refine ⟨hnd, List.nodup_singleton x, fun a ha b hb => ?_⟩
    rw [List.mem_singleton.mp hb]
    exact fun he => hx (he ▸ ha)
  · have hcat : h :: (xs ++ [x]) ++ [h] = ys ++ l :: x :: [h] := by
      rw [← List.cons_append, hl]
      simp
    rw [hcat, List.isChain_append_cons_cons, List.isChain_cons_cons]
    refine ⟨isChain_congr hchain (fun a ha => ?_) (fun b hb => ?_), ⟨?_, ?_⟩, ⟨?_, ?_⟩, .singleton h⟩
    · -- the last node is not among the nodes in front of it
      rw [List.dropLast_concat] at ha
      rw [hl, List.nodup_append] at hnd
      have hal : a ≠ l := hnd.2.2 a ha l (by simp)
      have hax : a ≠ x := fun he => hx (by rw [hl, ← he]; exact List.mem_append_left _ ha)
      rw [addTail_next, hprev, if_neg hal, if_neg hax]
    · -- the head is not among the nodes behind it
      have hb' : b ∈ xs := by
        rw [← hl] at hb
        exact hb
      have hbx : b ≠ x := fun he => hx (he ▸ List.mem_cons_of_mem _ hb')
      have hbh : b ≠ h := fun he => (List.nodup_cons.mp hnd).1 (he ▸ hb')
      rw [addTail_prev, if_neg hbx, if_neg hbh]
    · rw [addTail_next, if_pos hprev.symm]
    · rw [addTail_prev, if_pos rfl, hprev]
    · rw [addTail_next, hprev, if_neg hxl, if_pos rfl]
    · rw [addTail_prev, if_neg hxh, if_pos rfl]

theorem Ring.addTail_frame (hr : Ring m h xs) {a : P} (ha : a ∉ h :: xs) (hax : a ≠ x) :
    (m.addTail x h).next a = m.next a ∧ (m.addTail x h).prev a = m.prev a := by
  obtain ⟨ys, l, hl, hprev, -⟩ := hr.exists_last
  have hal : a ≠ l := fun he => ha (by rw [hl, he]; simp)
  have hah : a ≠ h := fun he => ha (by rw [he]; simp)
  rw [addTail_next, addTail_prev, hprev, if_neg hal, if_neg hax, if_neg hax, if_neg hah]
  exact ⟨rfl, rfl⟩

/-! ## Unlinking -/

theorem unlink_next (m : Links P) (x a : P) :
    (m.unlink x).next a = if a = m.prev x then m.next x else m.next a := by
  simp [unlink, bridge, setNext, setPrev, Function.update_apply]

theorem unlink_prev (m : Links P) (x a : P) :
    (m.unlink x).prev a = if a = m.next x then m.prev x else m.prev a := by
  simp [unlink, bridge, setNext, setPrev, Function.update_apply]

omit [DecidableEq P] in
theorem Ring.split (hr : Ring m h (as ++ x :: bs)) :
    ∃ ys p n zs, h :: as = ys ++ [p] ∧ bs ++ [h] = n :: zs ∧ m.prev x = p ∧ m.next x = n ∧
      (ys ++ [p]).IsChain m.Adj ∧ (n :: zs).IsChain m.Adj := by
  obtain ⟨ys, p, hp⟩ : ∃ ys p, h :: as = ys ++ [p] :=
    ⟨(h :: as).dropLast, (h :: as).getLast (by simp), (List.dropLast_append_getLast _).symm⟩
  obtain ⟨n, zs, hn⟩ : ∃ n zs, bs ++ [h] = n :: zs := List.exists_cons_of_ne_nil (by simp)
  have hc := hr.chain
  have hcat : h :: (as ++ x :: bs) ++ [h] = ys ++ p :: x :: n :: zs := by
    rw [← List.cons_append, hp]
    simp [← hn]
  rw [hcat, List.isChain_append_cons_cons, List.isChain_cons_cons] at hc
  exact ⟨ys, p, n, zs, hp, hn, hc.2.1.2, hc.2.2.1.1, hc.1, hc.2.2.2⟩

theorem Ring.unlink (hr : Ring m h (as ++ x :: bs)) : Ring (m.unlink x) h (as ++ bs) := by
  obtain ⟨ys, p, n, zs, hp, hn, hprev, hnext, hys, hzs⟩ := hr.split
  have hnd := hr.nodup
  rw [← List.cons_append, List.nodup_append] at hnd
  obtain ⟨hndl, hndr, hdis⟩ := hnd
  refine ⟨?_, ?_⟩
  · rw [← List.cons_append, List.nodup_append]
    exact ⟨hndl, (List.nodup_cons.mp hndr).2, fun a ha b hb => hdis a ha b (List.mem_cons_of_mem _ hb)⟩
  · have hcat : h :: (as ++ bs) ++ [h] = ys ++ p :: n :: zs := by
      rw [← List.cons_append, hp, ← hn]
      simp
    rw [hcat, List.isChain_append_cons_cons]
    have hpl : p ∈ h :: as := by
      rw [hp]
      simp
    refine ⟨isChain_congr hys (fun a ha => ?_) (fun b hb => ?_), ⟨?_, ?_⟩,
      isChain_congr hzs (fun a ha => ?_) fun b hb => ?_⟩
    · -- `p` is the last of the nodes in front of `x`
      rw [List.dropLast_concat] at ha
      rw [hp, List.nodup_append] at hndl
      rw [unlink_next, hprev, if_neg (hndl.2.2 a ha p (by simp))]
    · -- the next node is behind `x` or the head, and so none of those between
      have hb' : b ∈ as := by
        rw [← hp] at hb
        exact hb
      have hbn : b ≠ n := by
        rintro rfl
        have : b ∈ bs ++ [h] := by
          rw [hn]
          simp
        rcases List.mem_append.mp this with hb | hb
        · exact hdis b (List.mem_cons_of_mem _ hb') b (List.mem_cons_of_mem _ hb) rfl
        · rw [List.mem_singleton.mp hb] at hb'
          exact (List.nodup_cons.mp hndl).1 hb'
      rw [unlink_prev, hnext, if_neg hbn]
    · rw [unlink_next, hprev, if_pos rfl, hnext]
    · rw [unlink_prev, hnext, if_pos rfl, hprev]
    · have ha' : a ∈ bs := by
        rw [← hn, List.dropLast_concat] at ha
        exact ha
      have hap : a ≠ p := fun he => hdis p hpl a (List.mem_cons_of_mem _ ha') he.symm
      rw [unlink_next, hprev, if_neg hap]
    · have hbn : b ≠ n := by
        rintro rfl
        have hnd2 : (bs ++ [h]).Nodup := by
          rw [List.nodup_append]
          refine ⟨(List.nodup_cons.mp hndr).2, List.nodup_singleton h, fun a ha b hb => ?_⟩
          rw [List.mem_singleton.mp hb]
          exact fun he => hdis h (by simp) a (List.mem_cons_of_mem _ ha) he.symm
        rw [hn] at hnd2
        exact (List.nodup_cons.mp hnd2).1 hb
      rw [unlink_prev, hnext, if_neg hbn]

theorem Ring.unlink_frame (hr : Ring m h (as ++ x :: bs)) {a : P} (ha : a ∉ h :: (as ++ x :: bs)) :
    (m.unlink x).next a = m.next a ∧ (m.unlink x).prev a = m.prev a := by
  obtain ⟨ys, p, n, zs, hp, hn, hprev, hnext, -, -⟩ := hr.split
  have hap : a ≠ p := by
    rintro rfl
    have : a ∈ h :: as := by
      rw [hp]
      simp
    exact ha (by rw [← List.cons_append]; exact List.mem_append_left _ this)
  have han : a ≠ n := by
    rintro rfl
    have : a ∈ bs ++ [h] := by
      rw [hn]
      simp
    rcases List.mem_append.mp this with hb | hb
    · exact ha (by simp [hb])
    · exact ha (by simp [List.mem_singleton.mp hb])
  rw [unlink_next, unlink_prev, hprev, hnext, if_neg hap, if_neg han]
  exact ⟨rfl, rfl⟩

/-- The fields of a node outside of a ring are no part of it. -/
theorem Ring.withLinks (hr : Ring m h xs) (hx : x ∉ h :: xs) (n p : P) : Ring (m.withLinks x n p) h xs := by
  refine hr.congr (fun a ha => ?_) fun a ha => ?_
  · have : a ≠ x := fun he => hx (he ▸ ha)
    simp [Links.withLinks, setNext, setPrev, this]
  · have : a ≠ x := fun he => hx (he ▸ ha)
    simp [Links.withLinks, setNext, setPrev, this]

/-! ## Disjoint rings -/

/-- The lists of the heads `head i`. -/
structure Rings {I : Type} (m : Links P) (head : I → P) (lists : I → List P) : Prop where
  ring : ∀ i, Ring m (head i) (lists i)
  disjoint : ∀ i j, i ≠ j → ∀ a ∈ head i :: lists i, a ∉ head j :: lists j

variable {I : Type} [DecidableEq I] {head : I → P} {lists : I → List P} {i : I}

omit [DecidableEq I] in
theorem Rings.withLinks (hr : Rings m head lists) (hx : ∀ j, x ∉ head j :: lists j) (n p : P) :
    Rings (m.withLinks x n p) head lists where
  ring := fun j => (hr.ring j).withLinks (hx j) n p
  disjoint := hr.disjoint

theorem Rings.addTail (hr : Rings m head lists) (hx : ∀ j, x ∉ head j :: lists j) (i : I) :
    Rings (m.addTail x (head i)) head (Function.update lists i (lists i ++ [x])) where
  ring := by
    intro j
    by_cases hj : j = i
    · subst hj
      rw [Function.update_self]
      exact (hr.ring j).addTail (hx j)
    · rw [Function.update_of_ne hj]
      refine (hr.ring j).congr (fun a ha => ?_) fun a ha => ?_
      · exact ((hr.ring i).addTail_frame (hr.disjoint j i hj a ha) fun he : a = x => hx j (he ▸ ha)).1
      · exact ((hr.ring i).addTail_frame (hr.disjoint j i hj a ha) fun he : a = x => hx j (he ▸ ha)).2
  disjoint := by
    intro j k hjk a ha
    by_cases hj : j = i
    · subst hj
      rw [Function.update_self, ← List.cons_append] at ha
      rw [Function.update_of_ne (Ne.symm hjk)]
      rcases List.mem_append.mp ha with ha | ha
      · exact hr.disjoint j k hjk a ha
      · rw [List.mem_singleton.mp ha]
        exact hx k
    · rw [Function.update_of_ne hj] at ha
      by_cases hk : k = i
      · subst hk
        rw [Function.update_self, ← List.cons_append]
        intro hak
        rcases List.mem_append.mp hak with hak | hak
        · exact hr.disjoint j k hjk a ha hak
        · exact hx j (List.mem_singleton.mp hak ▸ ha)
      · rw [Function.update_of_ne hk]
        exact hr.disjoint j k hjk a ha

theorem Rings.unlink (hr : Rings m head lists) (hl : lists i = as ++ x :: bs) :
    Rings (m.unlink x) head (Function.update lists i (as ++ bs)) ∧
      ∀ j, x ∉ head j :: Function.update lists i (as ++ bs) j := by
  have hi := hr.ring i
  rw [hl] at hi
  have hsub : ∀ a, a ∈ head i :: (as ++ bs) → a ∈ head i :: lists i := by
    intro a ha
    rw [hl]
    simp only [List.mem_cons, List.mem_append] at ha ⊢
    tauto
  have hxi : x ∉ head i :: (as ++ bs) := by
    have hnd := hi.nodup
    rw [← List.cons_append, List.nodup_append] at hnd
    rw [← List.cons_append]
    intro hx
    rcases List.mem_append.mp hx with hx | hx
    · exact hnd.2.2 x hx x (by simp) rfl
    · exact (List.nodup_cons.mp hnd.2.1).1 hx
  refine ⟨⟨fun j => ?_, fun j k hjk a ha => ?_⟩, fun j => ?_⟩
  · by_cases hj : j = i
    · subst hj
      rw [Function.update_self]
      exact hi.unlink
    · rw [Function.update_of_ne hj]
      refine (hr.ring j).congr (fun a ha => ?_) fun a ha => ?_
      · exact (hi.unlink_frame (by rw [← hl]; exact hr.disjoint j i hj a ha)).1
      · exact (hi.unlink_frame (by rw [← hl]; exact hr.disjoint j i hj a ha)).2
  · by_cases hj : j = i
    · subst hj
      rw [Function.update_self] at ha
      rw [Function.update_of_ne (Ne.symm hjk)]
      exact hr.disjoint j k hjk a (hsub a ha)
    · rw [Function.update_of_ne hj] at ha
      by_cases hk : k = i
      · subst hk
        rw [Function.update_self]
        exact fun hak => hr.disjoint j k hjk a ha (hsub a hak)
      · rw [Function.update_of_ne hk]
        exact hr.disjoint j k hjk a ha
  · by_cases hj : j = i
    · subst hj
      rw [Function.update_self]
      exact hxi
    · rw [Function.update_of_ne hj]
      refine fun hx => hr.disjoint j i hj x hx ?_
      rw [hl]
      simp

end Links

end Taomee
