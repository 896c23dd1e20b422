import Mathlib.Data.List.Infix
import Mathlib.Data.List.MinMax

/-!
# Dictionaries of words and the longest node

A dictionary is a list of words over an arbitrary alphabet. A node is a prefix of a word. The node
of a text is its longest suffix that is a node: it is all a matcher has to remember of the text.
-/

namespace Taomee.Words

variable {α : Type}

/-! ## Nodes -/

/-- `u` is the empty word or a prefix of a word of `P`. -/
def IsNode (P : List (List α)) (u : List α) : Prop := u = [] ∨ ∃ w ∈ P, u <+: w

/-- Some word of `P` ends where `u` ends. -/
def Hit (P : List (List α)) (u : List α) : Prop := ∃ w ∈ P, w <:+ u

/-- Some word of `P` occurs in `u` without gaps. -/
def Occurs (P : List (List α)) (u : List α) : Prop := ∃ w ∈ P, w <:+: u

theorem IsNode.of_prefix {P : List (List α)} {u v : List α} (h : IsNode P v) (huv : u <+: v) :
    IsNode P u := by
  rcases h with rfl | ⟨w, hw, hv⟩
  · exact Or.inl (List.prefix_nil.mp huv)
  · exact Or.inr ⟨w, hw, huv.trans hv⟩

theorem IsNode.of_append {P : List (List α)} {u v : List α} (h : IsNode P (u ++ v)) : IsNode P u :=
  h.of_prefix (List.prefix_append u v)

theorem isNode_of_mem {P : List (List α)} {w : List α} (hw : w ∈ P) : IsNode P w :=
  Or.inr ⟨w, hw, List.prefix_refl w⟩

theorem isNode_concat {P : List (List α)} {w u : List α} :
    IsNode (P ++ [w]) u ↔ IsNode P u ∨ u <+: w := by
  constructor
  · rintro (rfl | ⟨v, hv, huv⟩)
    · exact Or.inl (Or.inl rfl)
    · rcases List.mem_append.mp hv with hv | hv
      · exact Or.inl (Or.inr ⟨v, hv, huv⟩)
      · rw [List.mem_singleton.mp hv] at huv
        exact Or.inr huv
  · rintro ((rfl | ⟨v, hv, huv⟩) | huw)
    · exact Or.inl rfl
    · exact Or.inr ⟨v, List.mem_append_left _ hv, huv⟩
    · exact Or.inr ⟨w, List.mem_append_right _ (List.mem_singleton_self w), huw⟩

variable [DecidableEq α]

instance (P : List (List α)) (u : List α) : Decidable (IsNode P u) :=
  inferInstanceAs (Decidable (u = [] ∨ ∃ w ∈ P, u <+: w))

instance (P : List (List α)) (u : List α) : Decidable (Hit P u) :=
  inferInstanceAs (Decidable (∃ w ∈ P, w <:+ u))

instance (P : List (List α)) (u : List α) : Decidable (Occurs P u) :=
  inferInstanceAs (Decidable (∃ w ∈ P, w <:+: u))

/-- The longest suffix of a text that is a node. -/
def node (P : List (List α)) : List α → List α
  | [] => []
  | a :: t => if IsNode P (a :: t) then a :: t else node P t

variable {P : List (List α)}

theorem node_suffix (t : List α) : node P t <:+ t := by
  induction t with
  | nil => exact List.suffix_refl _
  | cons a t ih =>
      unfold node
      split
      · exact List.suffix_refl _
      · exact ih.trans (List.suffix_cons a t)

theorem isNode_node (t : List α) : IsNode P (node P t) := by
  induction t with
  | nil => exact Or.inl rfl
  | cons a t ih =>
      unfold node
      split
      · assumption
      · exact ih

/-- Every node that ends the text ends its longest node. -/
theorem suffix_node {t u : List α} (hu : u <:+ t) (hn : IsNode P u) : u <:+ node P t := by
  induction t with
  | nil => rw [List.suffix_nil.mp hu]; exact List.nil_suffix
  | cons a t ih =>
      unfold node
      split
      · exact hu
      · rename_i hnot
        rcases List.suffix_cons_iff.mp hu with rfl | hut
        · exact absurd hn hnot
        · exact ih hut

theorem suffix_node_iff {t u : List α} (hn : IsNode P u) : u <:+ node P t ↔ u <:+ t :=
  ⟨fun h => h.trans (node_suffix t), fun h => suffix_node h hn⟩

theorem node_of_isNode {u : List α} (h : IsNode P u) : node P u = u :=
  (node_suffix u).eq_of_length_le (suffix_node (List.suffix_refl u) h).length_le

omit [DecidableEq α] in
theorem suffix_antisymm {u v : List α} (h : u <:+ v) (h' : v <:+ u) : u = v :=
  h.eq_of_length (le_antisymm h.length_le h'.length_le)

/-- The longest node of a text is determined by the nodes that end the text. -/
theorem node_congr {t t' : List α} (h : ∀ u, IsNode P u → (u <:+ t ↔ u <:+ t')) :
    node P t = node P t' :=
  suffix_antisymm
    (suffix_node ((h _ (isNode_node t)).mp (node_suffix t)) (isNode_node t))
    (suffix_node ((h _ (isNode_node t')).mpr (node_suffix t')) (isNode_node t'))

/-- One more symbol: the node of the text stands for the text. -/
theorem node_concat (t : List α) (a : α) : node P (t ++ [a]) = node P (node P t ++ [a]) := by
  apply node_congr
  intro u hu
  rw [List.suffix_concat_iff, List.suffix_concat_iff]
  constructor
  · rintro (h | ⟨v, rfl, hv⟩)
    · exact Or.inl h
    · exact Or.inr ⟨v, rfl, suffix_node hv hu.of_append⟩
  · rintro (h | ⟨v, rfl, hv⟩)
    · exact Or.inl h
    · exact Or.inr ⟨v, rfl, hv.trans (node_suffix t)⟩

/-! ## Failure -/

/-- The longest node that ends `u` and is shorter than `u`. -/
def fail (P : List (List α)) (u : List α) : List α := node P u.tail

theorem fail_length_lt {u : List α} (h : u ≠ []) : (fail P u).length < u.length := by
  have hle := (node_suffix (P := P) u.tail).length_le
  have hpos := List.length_pos_iff.mpr h
  rw [List.length_tail] at hle
  unfold fail
  omega

theorem fail_singleton (a : α) : fail P [a] = [] := rfl

/-- A missing child of `u` is where the failure node of `u` goes. -/
theorem node_concat_of_not_isNode {u : List α} {a : α} (hu : u ≠ []) (hn : ¬ IsNode P (u ++ [a])) :
    node P (u ++ [a]) = node P (fail P u ++ [a]) := by
  cases u with
  | nil => exact absurd rfl hu
  | cons b u =>
      rw [List.cons_append] at hn ⊢
      rw [node, if_neg hn, node_concat]
      rfl

/-- The failure node of a child of `u` is where the failure node of `u` goes. -/
theorem fail_concat {u : List α} {a : α} (hu : u ≠ []) :
    fail P (u ++ [a]) = node P (fail P u ++ [a]) := by
  cases u with
  | nil => exact absurd rfl hu
  | cons b u => exact node_concat u a

theorem node_singleton_of_not_isNode {a : α} (hn : ¬ IsNode P [a]) : node P [a] = [] := by
  rw [node, if_neg hn]
  rfl

/-! ## Words that end at a node -/

theorem hit_node_iff {t : List α} : Hit P (node P t) ↔ Hit P t := by
  constructor
  · rintro ⟨w, hw, h⟩
    exact ⟨w, hw, h.trans (node_suffix t)⟩
  · rintro ⟨w, hw, h⟩
    exact ⟨w, hw, suffix_node h (isNode_of_mem hw)⟩

/-- A word that ends `u` is `u` itself or ends the failure node of `u`. -/
theorem suffix_fail_iff {u w : List α} (hw : w ∈ P) (hu : u ≠ []) :
    w <:+ u ↔ w = u ∨ w <:+ fail P u := by
  cases u with
  | nil => exact absurd rfl hu
  | cons a u =>
      rw [List.suffix_cons_iff]
      exact or_congr Iff.rfl (suffix_node_iff (isNode_of_mem hw)).symm

theorem hit_fail_iff {u : List α} (hu : u ≠ []) : Hit P u ↔ u ∈ P ∨ Hit P (fail P u) := by
  constructor
  · rintro ⟨w, hw, h⟩
    rcases (suffix_fail_iff hw hu).mp h with rfl | h
    · exact Or.inl hw
    · exact Or.inr ⟨w, hw, h⟩
  · rintro (h | ⟨w, hw, h⟩)
    · exact ⟨u, h, List.suffix_refl u⟩
    · exact ⟨w, hw, (suffix_fail_iff hw hu).mpr (Or.inr h)⟩

/-- `w` is a longest word among those that end `t`. -/
def LongestHit (P : List (List α)) (t w : List α) : Prop :=
  w ∈ P ∧ w <:+ t ∧ ∀ v ∈ P, v <:+ t → v.length ≤ w.length

theorem LongestHit.of_node {t w : List α} (h : LongestHit P (node P t) w) : LongestHit P t w :=
  ⟨h.1, h.2.1.trans (node_suffix t), fun v hv hvt => h.2.2 v hv (suffix_node hvt (isNode_of_mem hv))⟩

omit [DecidableEq α] in
theorem LongestHit.self {u : List α} (hu : u ∈ P) : LongestHit P u u :=
  ⟨hu, List.suffix_refl u, fun _ _ h => h.length_le⟩

theorem LongestHit.of_fail {u w : List α} (hu : u ≠ []) (hn : u ∉ P) (h : LongestHit P (fail P u) w) :
    LongestHit P u w := by
  refine ⟨h.1, (suffix_fail_iff h.1 hu).mpr (Or.inr h.2.1), fun v hv hvu => ?_⟩
  rcases (suffix_fail_iff hv hu).mp hvu with rfl | hvu
  · exact absurd hv hn
  · exact h.2.2 v hv hvu

omit [DecidableEq α] in
theorem LongestHit.hit {t w : List α} (h : LongestHit P t w) : Hit P t := ⟨w, h.1, h.2.1⟩

omit [DecidableEq α] in
theorem LongestHit.unique {t v w : List α} (hv : LongestHit P t v) (hw : LongestHit P t w) : v = w := by
  have hlen := le_antisymm (hw.2.2 v hv.1 hv.2.1) (hv.2.2 w hw.1 hw.2.1)
  exact (List.suffix_of_suffix_length_le hv.2.1 hw.2.1 hlen.le).eq_of_length hlen

/-- Where a word ends, a longest one ends. -/
theorem Hit.exists_longest {t : List α} (h : Hit P t) : ∃ w, LongestHit P t w := by
  cases hw : (P.filter fun w => w <:+ t).argmax List.length with
  | none =>
      obtain ⟨w, hwP, hwt⟩ := h
      rw [List.argmax_eq_none, List.filter_eq_nil_iff] at hw
      exact absurd (by simpa using hwt) (hw w hwP)
  | some w =>
      have hmem := List.mem_filter.mp (List.argmax_mem hw)
      refine ⟨w, hmem.1, by simpa using hmem.2, fun v hv hvt => ?_⟩
      exact List.le_of_mem_argmax (List.mem_filter.mpr ⟨hv, by simpa using hvt⟩) hw

instance (P : List (List α)) (t w : List α) : Decidable (LongestHit P t w) :=
  inferInstanceAs (Decidable (w ∈ P ∧ w <:+ t ∧ ∀ v ∈ P, v <:+ t → v.length ≤ w.length))

/-! ## Occurrences -/

omit [DecidableEq α] in
/-- A word occurs in a text when it ends one of its prefixes. -/
theorem occurs_iff_prefix_hit {t : List α} : Occurs P t ↔ ∃ u, u <+: t ∧ Hit P u := by
  constructor
  · rintro ⟨w, hw, x, y, rfl⟩
    exact ⟨x ++ w, List.prefix_append _ _, w, hw, List.suffix_append _ _⟩
  · rintro ⟨u, hu, w, hw, h⟩
    exact ⟨w, hw, h.isInfix.trans hu.isInfix⟩

omit [DecidableEq α] in
/-- Reading one more letter: a word occurred before, or ends here. -/
theorem occurs_concat {t : List α} {c : α} : Occurs P (t ++ [c]) ↔ Occurs P t ∨ Hit P (t ++ [c]) := by
  simp only [occurs_iff_prefix_hit, List.prefix_concat_iff]
  constructor
  · rintro ⟨u, rfl | hu, hh⟩
    · exact .inr hh
    · exact .inl ⟨u, hu, hh⟩
  · rintro (⟨u, hu, hh⟩ | hh)
    · exact ⟨u, .inr hu, hh⟩
    · exact ⟨_, .inl rfl, hh⟩

omit [DecidableEq α] in
theorem Occurs.mono {t t' : List α} (h : Occurs P t) (ht : t <:+: t') : Occurs P t' := by
  obtain ⟨w, hw, hwt⟩ := h
  exact ⟨w, hw, hwt.trans ht⟩

end Taomee.Words
