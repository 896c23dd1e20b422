import Taomee.Timer.Timer

/-!
# The timer lists as lists

The links of the timers form five disjoint rings, and every timer that is there stands in exactly
one of them. Each function changes the rings as it changes the lists that they stand for.
-/

namespace Taomee.Timer

open Taomee.Links

/-- The links of `s` stand for the lists `L`. -/
structure Shape (s : Timers) (L : Fin 5 → List Nat) : Prop where
  rings : Rings s.links Ptr.head fun i => (L i).map Ptr.entry
  alloc : ∀ t, s.timers t ≠ none ↔ ∃ i, t ∈ L i
  fresh : ∀ t, s.timers t ≠ none → t < s.fresh
  sprites : ∀ head t, t ∈ s.spriteLists head → s.timers t ≠ none
  vec : ∀ i, s.vecExpire i = 2 ^ (i.val + 2)

/-- `L` with the timer `t` taken out of its list. -/
def without (L : Fin 5 → List Nat) (t : Nat) : Fin 5 → List Nat := fun i => (L i).filter (· ≠ t)

/-- `L` with the timer `t` at the tail of the list `i`. -/
def appended (L : Fin 5 → List Nat) (t : Nat) (i : Fin 5) : Fin 5 → List Nat :=
  Function.update L i (L i ++ [t])

variable {s : Timers} {L : Fin 5 → List Nat} {t t' : Nat} {i j : Fin 5}

/-! ## Membership -/

theorem mem_without : t' ∈ without L t i ↔ t' ∈ L i ∧ t' ≠ t := by
  simp [without]

theorem mem_appended : t' ∈ appended L t i j ↔ t' ∈ L j ∨ (t' = t ∧ j = i) := by
  unfold appended
  by_cases h : j = i
  · subst h
    simp
  · simp [h]

theorem without_of_notMem (h : t ∉ L i) : without L t i = L i :=
  List.filter_eq_self.mpr fun t' ht' => by
    have : t' ≠ t := fun he => h (he ▸ ht')
    simpa using this

theorem appended_of_ne (h : j ≠ i) : appended L t i j = L j := Function.update_of_ne h _ _

theorem appended_self : appended L t i i = L i ++ [t] := Function.update_self _ _ _

/-! ## Rings -/

theorem Shape.nodup (h : Shape s L) (i : Fin 5) : (L i).Nodup :=
  List.Nodup.of_map Ptr.entry (List.nodup_cons.mp (h.rings.ring i).nodup).2

theorem Shape.unique (h : Shape s L) (hi : t ∈ L i) (hj : t ∈ L j) : i = j := by
  by_contra hij
  exact h.rings.disjoint i j hij (.entry t) (List.mem_cons_of_mem _ (List.mem_map_of_mem hi))
    (List.mem_cons_of_mem _ (List.mem_map_of_mem hj))

theorem entry_notMem {m : List Nat} : Ptr.entry t ∉ Ptr.head j :: m.map Ptr.entry ↔ t ∉ m := by
  simp

theorem rings_appended {m : Links Ptr} (h : Rings m Ptr.head fun i => (L i).map Ptr.entry)
    (ht : ∀ j, t ∉ L j) (i : Fin 5) :
    Rings (m.addTail (.entry t) (.head i)) Ptr.head fun j => (appended L t i j).map Ptr.entry := by
  have := h.addTail (x := .entry t) (fun j => entry_notMem.mpr (ht j)) i
  convert this using 2 with j
  unfold appended
  by_cases hj : j = i
  · subst hj
    simp
  · simp [hj]

theorem rings_without {m : Links Ptr} (h : Rings m Ptr.head fun i => (L i).map Ptr.entry)
    (ht : t ∈ L i) (hu : ∀ j, t ∈ L j → j = i) (hnd : (L i).Nodup) (n p : Ptr) :
    Rings ((m.unlink (.entry t)).withLinks (.entry t) n p) Ptr.head
      fun j => (without L t j).map Ptr.entry := by
  obtain ⟨as, bs, hl⟩ := List.append_of_mem ht
  obtain ⟨hr, hx⟩ := @Links.Rings.unlink _ _ _ (.entry t) (as.map Ptr.entry)
    (bs.map Ptr.entry) _ _ _ _ i h (by simp [hl])
  convert hr.withLinks hx n p using 2 with j
  by_cases hj : j = i
  · subst hj
    rw [hl] at hnd
    unfold without
    rw [Function.update_self, ← List.map_append, hl, filter_ne_of_nodup hnd]
  · rw [Function.update_of_ne hj, without_of_notMem fun htj => hj (hu j htj)]

theorem Shape.rings_without (h : Shape s L) (ht : s.timers t ≠ none) (n p : Ptr) :
    Rings ((s.links.unlink (.entry t)).withLinks (.entry t) n p) Ptr.head
      fun j => (without L t j).map Ptr.entry := by
  obtain ⟨i, hi⟩ := (h.alloc t).mp ht
  exact Timer.rings_without h.rings hi (fun j hj => h.unique hj hi) (h.nodup i) n p

theorem Shape.unique_lists {s' : Timers} {L' : Fin 5 → List Nat} (h : Shape s L) (h' : Shape s' L')
    (hl : s'.links = s.links) : L' = L := by
  funext i
  have hr := h'.rings.ring i
  rw [hl] at hr
  exact List.map_injective_iff.mpr (fun a b hab => Ptr.entry.inj hab) (hr.unique (h.rings.ring i))

/-- The first list takes what is at most four seconds away. -/
theorem Shape.vecIdx_zero (h : Shape s L) {diff : Int} (hd : diff ≤ 4) : s.vecIdx diff = 0 := by
  unfold Timers.vecIdx
  rw [List.find?_cons_of_pos (by rw [decide_eq_true_eq, h.vec]; exact hd)]
  rfl

/-! ## The order in a list -/

/-- The timer `t` stands behind `x`. -/
def Behind (l : List Nat) (x t : Nat) : Prop := List.Sublist [x, t] l

theorem behind_iff {as bs : List Nat} {x : Nat} (hnd : (as ++ x :: bs).Nodup) :
    Behind (as ++ x :: bs) x t ↔ t ∈ bs := by
  have hx : x ∉ as := by
    rw [List.nodup_append] at hnd
    exact fun hm => hnd.2.2 x hm x List.mem_cons_self rfl
  constructor
  · intro h
    obtain ⟨l₁, l₂, heq, h₁, h₂⟩ := List.sublist_append_iff.mp h
    cases l₁ with
    | nil =>
        rw [List.nil_append] at heq
        rw [← heq, List.cons_sublist_cons, List.singleton_sublist] at h₂
        exact h₂
    | cons y l₁ =>
        obtain rfl := (List.cons.inj heq).1
        exact absurd (h₁.subset List.mem_cons_self) hx
  · intro h
    exact ((List.singleton_sublist.mpr h).cons_cons x).trans (List.sublist_append_right as _)

theorem Behind.of_concat {l : List Nat} {x : Nat} (h : Behind (l ++ [t']) x t) : t = t' ∨ Behind l x t := by
  obtain ⟨l₁, l₂, heq, h₁, h₂⟩ := List.sublist_append_iff.mp h
  rcases List.sublist_singleton.mp h₂ with rfl | rfl
  · rw [List.append_nil] at heq
    rw [← heq] at h₁
    exact .inr h₁
  · have hlast := congrArg List.getLast? heq
    rw [List.getLast?_concat] at hlast
    exact .inl (Option.some.inj hlast)

/-! ## What the functions do to the lists -/

theorem Shape.setMinExptm (h : Shape s L) (e : Int) (i : Fin 5) : Shape (s.setMinExptm e i) L := by
  unfold Timers.setMinExptm
  split
  · exact ⟨h.rings, h.alloc, h.fresh, h.sprites, h.vec⟩
  · exact h

theorem Shape.emit (h : Shape s L) (e : Event) : Shape (s.emit e) L :=
  ⟨h.rings, h.alloc, h.fresh, h.sprites, h.vec⟩

theorem Shape.setNow (h : Shape s L) (now : Int) : Shape { s with now := now } L :=
  ⟨h.rings, h.alloc, h.fresh, h.sprites, h.vec⟩

theorem Shape.notMem_fresh (h : Shape s L) (i : Fin 5) : s.fresh ∉ L i := fun hm =>
  absurd (h.fresh _ ((h.alloc _).mpr ⟨i, hm⟩)) (Nat.lt_irrefl _)

theorem Shape.linkFresh (h : Shape s L) (ts : TimerStruct) (head : Nat) (i : Fin 5) {s' : Timers}
    (hlinks : s'.links = s.links.addTail (.entry s.fresh) (.head i))
    (htimers : s'.timers = Function.update s.timers s.fresh (some ts)) (hfresh : s'.fresh = s.fresh + 1)
    (hsprites : s'.spriteLists =
      Function.update s.spriteLists head (s.spriteLists head ++ [s.fresh]))
    (hvec : s'.vecExpire = s.vecExpire) : Shape s' (appended L s.fresh i) where
  rings := by
    rw [hlinks]
    exact rings_appended h.rings h.notMem_fresh i
  alloc := by
    intro t
    simp only [htimers, mem_appended, Function.update_apply]
    split
    · rename_i he
      simp [he]
    · rename_i he
      simp [he, h.alloc]
  fresh := by
    intro t ht
    rw [htimers, Function.update_apply] at ht
    rw [hfresh]
    split at ht
    · rename_i he
      omega
    · exact Nat.lt_succ_of_lt (h.fresh t ht)
  sprites := by
    intro head' t ht
    rw [hsprites, Function.update_apply] at ht
    rw [htimers, Function.update_apply]
    split
    · exact Option.some_ne_none _
    · rename_i he
      split at ht
      · rcases List.mem_append.mp ht with ht | ht
        · exact h.sprites head t ht
        · exact absurd (List.mem_singleton.mp ht) he
      · exact h.sprites head' t ht
  vec := by rw [hvec]; exact h.vec

theorem Shape.newTimer (h : Shape s L) (head function owner data : Nat) (expire : Int) :
    Shape (s.newTimer head function owner data expire).1
      (appended L s.fresh (s.vecIdx (toI32 (expire - s.now)))) := by
  refine Shape.emit (Shape.setMinExptm ?_ _ _) _
  exact h.linkFresh ⟨expire, owner, data, some function, 0⟩ head _ rfl rfl rfl rfl rfl

/-- A timer relinked at the tail of a list, with new data. -/
theorem Shape.relink (h : Shape s L) (ht : s.timers t ≠ none) (n p : Ptr) (ts : TimerStruct)
    (i : Fin 5) {s' : Timers}
    (hlinks : s'.links =
      ((s.links.unlink (.entry t)).withLinks (.entry t) n p).addTail (.entry t) (.head i))
    (htimers : s'.timers = Function.update s.timers t (some ts)) (hfresh : s'.fresh = s.fresh)
    (hsprites : s'.spriteLists = s.spriteLists) (hvec : s'.vecExpire = s.vecExpire) :
    Shape s' (appended (without L t) t i) where
  rings := by
    rw [hlinks]
    exact rings_appended (h.rings_without ht n p) (fun j hj => (mem_without.mp hj).2 rfl) i
  alloc := by
    intro t'
    simp only [htimers, mem_appended, mem_without, Function.update_apply]
    split
    · rename_i he
      simp [he]
    · rename_i he
      simp [he, h.alloc]
  fresh := by
    intro t' ht'
    rw [hfresh]
    rw [htimers, Function.update_apply] at ht'
    split at ht'
    · rename_i he
      exact he ▸ h.fresh t ht
    · exact h.fresh t' ht'
  sprites := by
    intro head t' ht'
    rw [hsprites] at ht'
    rw [htimers, Function.update_apply]
    split
    · exact Option.some_ne_none _
    · exact h.sprites head t' ht'
  vec := by rw [hvec]; exact h.vec

theorem Shape.modExpireTime (h : Shape s L) {ts : TimerStruct} (ht : s.timers t = some ts)
    (h0 : ts.expire ≠ 0) (e : Int) :
    Shape (s.modExpireTime t e) (appended (without L t) t (s.vecIdx (e - s.now))) := by
  unfold Timers.modExpireTime
  simp only [ht, if_neg h0]
  refine Shape.emit (Shape.setMinExptm ?_ _ _) _
  exact h.relink (by rw [ht]; exact Option.some_ne_none _) (.entry t) (.entry t)
    { ts with expire := e } _ rfl rfl rfl rfl rfl

theorem Shape.moveTimer (h : Shape s L) {ts : TimerStruct} (ht : s.timers t = some ts) (i : Fin 5) :
    Shape ((s.listDel t).listAddTail t i) (appended (without L t) t i) :=
  h.relink (by rw [ht]; exact Option.some_ne_none _) .null .null ts i rfl
    (by rw [← ht, Function.update_eq_self]; rfl) rfl rfl rfl

theorem Shape.markTimer (h : Shape s L) (t : Nat) : Shape (s.doRemoveTimer t false) L where
  rings := h.rings
  alloc := by
    intro t'
    rw [← h.alloc]
    simp only [Timers.doRemoveTimer, Bool.false_eq_true, ↓reduceIte, Timers.setTimer,
      Function.update_apply]
    split
    · rename_i he
      simp [he]
    · rfl
  fresh := by
    intro t' ht'
    refine h.fresh t' fun hn => ht' ?_
    simp only [Timers.doRemoveTimer, Bool.false_eq_true, ↓reduceIte, Timers.setTimer,
      Function.update_apply]
    split
    · rename_i he
      rw [he] at hn
      simp [hn]
    · exact hn
  sprites := by
    intro head t' ht'
    obtain ⟨hmem, hne⟩ := List.mem_filter.mp ht'
    have hne : t' ≠ t := by simpa using hne
    have := h.sprites head t' hmem
    simpa [Timers.doRemoveTimer, Timers.setTimer, Function.update_of_ne hne] using this
  vec := h.vec

theorem Shape.freeTimer (h : Shape s L) (ht : s.timers t ≠ none) :
    Shape (s.doRemoveTimer t true) (without L t) where
  rings := h.rings_without ht .null .null
  alloc := by
    intro t'
    simp only [Timers.doRemoveTimer, ↓reduceIte, Timers.setTimer, Timers.listDel,
      Function.update_apply, mem_without]
    split
    · rename_i he
      simp [he]
    · rename_i he
      simp [he, h.alloc]
  fresh := by
    intro t' ht'
    refine h.fresh t' fun hn => ht' ?_
    simp only [Timers.doRemoveTimer, ↓reduceIte, Timers.setTimer, Timers.listDel,
      Function.update_apply]
    split
    · rfl
    · exact hn
  sprites := by
    intro head t' ht'
    obtain ⟨hmem, hne⟩ := List.mem_filter.mp ht'
    have hne : t' ≠ t := by simpa using hne
    have := h.sprites head t' hmem
    simpa [Timers.doRemoveTimer, Timers.setTimer, Timers.listDel, Function.update_of_ne hne] using this
  vec := h.vec

theorem shape_setup (stale : Fin 5 → Int) (now : Int) :
    Shape ((Timers.boot stale).setupTimer now) fun _ => [] where
  rings :=
    { ring := fun i => ⟨List.nodup_singleton _, List.isChain_cons_cons.mpr
        ⟨⟨rfl, rfl⟩, .singleton _⟩⟩
      disjoint := fun i j hij a ha => by
        rw [List.mem_singleton.mp ha]
        simpa using hij }
  alloc := by simp [Timers.setupTimer, Timers.boot]
  fresh := by simp [Timers.setupTimer, Timers.boot]
  sprites := by simp [Timers.setupTimer, Timers.boot]
  vec := fun _ => rfl

end Taomee.Timer
