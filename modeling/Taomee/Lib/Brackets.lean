import Mathlib.Data.List.Count
import Mathlib.Data.List.Infix

/-!
# Bracket matching

A closing bracket closes the last opening bracket that is still open. Brackets that match have
balanced text between them. The stack of a scanner that reads from the left is the list of the opening
brackets that are still open.
-/

namespace Taomee.Brackets

variable {α : Type} [DecidableEq α] {o c : α}

/-- As many closing brackets `c` as opening brackets `o`, and no more of them in front of any place. -/
structure Balanced (o c : α) (s : List α) : Prop where
  count : s.count c = s.count o
  before : ∀ v w, s = v ++ w → v.count c ≤ v.count o

/-- Position `k` lies between an opening bracket and the one that closes it, both included. -/
def Inside (o c : α) (s : List α) (k : Nat) : Prop :=
  ∃ x b y, s = x ++ o :: (b ++ c :: y) ∧ Balanced o c b ∧ x.length ≤ k ∧ k ≤ x.length + b.length + 1

/-- The opening brackets of `s` that are still open, the last one first. -/
inductive Opened (o c : α) : List α → List Nat → Prop
  | none {s} (h : ∀ v w, s = v ++ w → w.count o ≤ w.count c) : Opened o c s []
  | push {s b loc} (h : Opened o c s loc) (hb : Balanced o c b) :
      Opened o c (s ++ o :: b) (s.length :: loc)

/-! ## Balanced text -/

theorem balanced_nil : Balanced o c [] where
  count := rfl
  before := by
    intro v w h
    rw [(List.append_eq_nil_iff.mp h.symm).1]
    exact Nat.le_refl _

theorem Balanced.append {s t : List α} (hs : Balanced o c s) (ht : Balanced o c t) :
    Balanced o c (s ++ t) where
  count := by rw [List.count_append, List.count_append, hs.count, ht.count]
  before := by
    intro v w h
    rcases List.append_eq_append_iff.mp h with ⟨u, rfl, hu⟩ | ⟨u, hu, -⟩
    · rw [List.count_append, List.count_append, hs.count]
      exact Nat.add_le_add_left (ht.before u w hu) _
    · exact hs.before v u hu

theorem balanced_singleton {x : α} (ho : x ≠ o) (hc : x ≠ c) : Balanced o c [x] where
  count := by simp [ho, hc]
  before := by
    intro v w h
    have hle : v.count c ≤ [x].count c := by
      rw [h]
      exact (List.sublist_append_left v w).count_le c
    simp only [List.count_singleton, hc, beq_iff_eq, ↓reduceIte] at hle
    omega

theorem Balanced.wrap (hne : o ≠ c) {s : List α} (h : Balanced o c s) :
    Balanced o c (o :: (s ++ [c])) where
  count := by
    simp [List.count_append, h.count, hne, hne.symm]
  before := by
    intro v w hv
    cases v with
    | nil => exact Nat.le_refl _
    | cons x v =>
        rw [List.cons_append, List.cons.injEq] at hv
        obtain ⟨rfl, hv⟩ := hv
        rw [List.count_cons_self, List.count_cons_of_ne hne]
        rcases List.append_eq_append_iff.mp hv with ⟨u, rfl, hu⟩ | ⟨u, hu, -⟩
        · have hle : u.count c ≤ [c].count c := by
            rw [hu]
            exact (List.sublist_append_left u w).count_le c
          rw [List.count_singleton_self] at hle
          rw [List.count_append, List.count_append, h.count]
          omega
        · exact (h.before v u hu).trans (Nat.le_succ _)

/-- Balanced text behind an opening bracket tells where the bracket stands. -/
theorem balanced_unique (hne : o ≠ c) {x x' b b' : List α} (h : x ++ o :: b = x' ++ o :: b')
    (hb : Balanced o c b) (hb' : Balanced o c b') : x = x' := by
  have key : ∀ {x x' b b' : List α}, x ++ o :: b = x' ++ o :: b' → Balanced o c b →
      Balanced o c b' → ¬ x.length < x'.length := by
    intro x x' b b' h hb hb' hlt
    -- the second bracket stands in the balanced text behind the first one
    obtain ⟨w, hw⟩ := List.prefix_of_prefix_length_le (List.prefix_append x (o :: b))
      (h ▸ List.prefix_append x' (o :: b')) hlt.le
    subst hw
    rw [List.append_assoc, List.append_cancel_left_eq] at h
    cases w with
    | nil => simp at hlt
    | cons z w =>
        rw [List.cons_append, List.cons.injEq] at h
        obtain ⟨-, rfl⟩ := h
        have h1 := hb.before w _ rfl
        have h2 := hb.count
        rw [List.count_append, List.count_append, List.count_cons_self, List.count_cons_of_ne hne,
          hb'.count] at h2
        omega
  have hlen : x.length = x'.length := Nat.le_antisymm (Nat.le_of_not_lt (key h.symm hb' hb))
    (Nat.le_of_not_lt (key h hb hb'))
  exact (List.append_inj h hlen).1

/-! ## The stack of a scanner -/

theorem opened_nil : Opened o c [] [] := by
  refine .none fun v w h => ?_
  rw [(List.append_eq_nil_iff.mp h.symm).2]
  exact Nat.le_refl _

theorem Opened.append {s b : List α} {loc : List Nat} (h : Opened o c s loc) (hb : Balanced o c b) :
    Opened o c (s ++ b) loc := by
  cases h with
  | none h =>
      refine .none fun v w hv => ?_
      rcases List.append_eq_append_iff.mp hv with ⟨u, -, rfl⟩ | ⟨u, hu, rfl⟩
      · -- the rest of a balanced text has at least as many closing brackets
        have h1 := hb.count
        have h2 := hb.before u w rfl
        rw [List.count_append, List.count_append] at h1
        omega
      · rw [List.count_append, List.count_append, hb.count]
        exact Nat.add_le_add_right (h v u hu) _
  | push h hb' =>
      rw [List.append_assoc, List.cons_append]
      exact .push h (hb'.append hb)

theorem Opened.open {s : List α} {loc : List Nat} (h : Opened o c s loc) :
    Opened o c (s ++ [o]) (s.length :: loc) := .push h balanced_nil

theorem Opened.close_none (hne : o ≠ c) {s : List α} (h : Opened o c s []) : Opened o c (s ++ [c]) [] := by
  cases h with
  | none h =>
      refine .none fun v w hv => ?_
      rcases List.append_eq_append_iff.mp hv with ⟨u, -, hu⟩ | ⟨u, hu, rfl⟩
      · have hle : w.count o ≤ [c].count o := by
          rw [hu]
          exact (List.sublist_append_right u w).count_le o
        simp only [List.count_singleton, beq_iff_eq, hne.symm, ↓reduceIte] at hle
        omega
      · have := h v u hu
        simp only [List.count_append, List.count_singleton, beq_iff_eq, hne.symm, ↓reduceIte]
        omega

/-- The bracket that the next closing bracket closes. -/
theorem Opened.last {s : List α} {p : Nat} {loc : List Nat} (h : Opened o c s (p :: loc)) :
    ∃ x b, s = x ++ o :: b ∧ Balanced o c b ∧ x.length = p ∧ Opened o c x loc := by
  cases h with
  | push h hb => exact ⟨_, _, rfl, hb, rfl, h⟩

theorem Opened.close (hne : o ≠ c) {s : List α} {p : Nat} {loc : List Nat} (h : Opened o c s (p :: loc)) :
    Opened o c (s ++ [c]) loc := by
  obtain ⟨x, b, rfl, hb, -, hx⟩ := h.last
  rw [List.append_assoc]
  exact hx.append (hb.wrap hne)

theorem Opened.not_balanced {s : List α} (hne : o ≠ c) (h : Opened o c s []) {x b : List α}
    (hs : s = x ++ o :: b) : ¬ Balanced o c b := by
  intro hb
  cases h with
  | none h =>
      have := h x (o :: b) hs
      rw [List.count_cons_self, List.count_cons_of_ne hne, hb.count] at this
      omega

/-- The positions of open brackets lie in what was read. -/
theorem Opened.lt {s : List α} {loc : List Nat} (h : Opened o c s loc) : ∀ p ∈ loc, p < s.length := by
  induction h with
  | none => exact fun p hp => absurd hp List.not_mem_nil
  | push h hb ih =>
      intro p hp
      rw [List.length_append, List.length_cons]
      rcases List.mem_cons.mp hp with rfl | hp
      · omega
      · have := ih p hp
        omega

/-! ## One more character -/

theorem Inside.append {s : List α} {k : Nat} (h : Inside o c s k) (t : List α) : Inside o c (s ++ t) k := by
  obtain ⟨x, b, y, rfl, h⟩ := h
  exact ⟨x, b, y ++ t, by simp, h⟩

theorem inside_concat {s : List α} {z : α} {k : Nat} : Inside o c (s ++ [z]) k ↔
    Inside o c s k ∨ (z = c ∧ ∃ x b, s = x ++ o :: b ∧ Balanced o c b ∧ x.length ≤ k ∧ k ≤ s.length) := by
  constructor
  · rintro ⟨x, b, y, hs, hb, h1, h2⟩
    rcases List.eq_nil_or_concat' y with rfl | ⟨y', w, rfl⟩
    · right
      have hs : s ++ [z] = (x ++ o :: b) ++ [c] := by simpa using hs
      obtain ⟨rfl, hz⟩ := List.append_inj' hs rfl
      refine ⟨List.cons.inj hz |>.1, x, b, rfl, hb, h1, ?_⟩
      rw [List.length_append, List.length_cons]
      omega
    · left
      have hs : s ++ [z] = (x ++ o :: (b ++ c :: y')) ++ [w] := by simpa using hs
      obtain ⟨rfl, -⟩ := List.append_inj' hs rfl
      exact ⟨x, b, y', rfl, hb, h1, h2⟩
  · rintro (h | ⟨rfl, x, b, rfl, hb, h1, h2⟩)
    · exact h.append [z]
    · refine ⟨x, b, [], by simp, hb, h1, ?_⟩
      rw [List.length_append, List.length_cons] at h2
      omega

/-- A character that is no closing bracket puts nothing inside. -/
theorem inside_concat_ne {s : List α} {z : α} {k : Nat} (hz : z ≠ c) :
    Inside o c (s ++ [z]) k ↔ Inside o c s k := by
  rw [inside_concat]
  exact ⟨fun h => h.resolve_right fun h => hz h.1, .inl⟩

/-- A closing bracket without an open one puts nothing inside. -/
theorem inside_concat_none (hne : o ≠ c) {s : List α} {k : Nat} (h : Opened o c s []) :
    Inside o c (s ++ [c]) k ↔ Inside o c s k := by
  rw [inside_concat]
  refine ⟨fun hi => hi.resolve_right ?_, .inl⟩
  rintro ⟨-, x, b, hs, hb, -⟩
  exact h.not_balanced hne hs hb

/-- A closing bracket puts inside what stands behind the last open one. -/
theorem inside_concat_close (hne : o ≠ c) {s : List α} {p k : Nat} {loc : List Nat}
    (h : Opened o c s (p :: loc)) :
    Inside o c (s ++ [c]) k ↔ Inside o c s k ∨ (p ≤ k ∧ k ≤ s.length) := by
  rw [inside_concat]
  obtain ⟨x, b, rfl, hb, rfl, -⟩ := h.last
  refine or_congr_right ?_
  constructor
  · rintro ⟨-, x', b', hs, hb', h1, h2⟩
    obtain rfl := balanced_unique hne hs hb hb'
    exact ⟨h1, h2⟩
  · rintro ⟨h1, h2⟩
    exact ⟨rfl, x, b, rfl, hb, h1, h2⟩

end Taomee.Brackets
