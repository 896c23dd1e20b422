import Mathlib.Data.List.Perm.Subperm
import Taomee.Dirty.Lemmas.Build

/-!
# The queue of Build_DFA

States leave the queue in the order of their depth, each once. So when a state is dequeued the
rows of all states of smaller depth are final, and after at most `acsmNumStates` iterations the
queue is empty and every row is final.
-/

namespace Taomee.Dirty

open Taomee.Words

variable {W : List (List UInt8)} {str : Int → List UInt8} {a0 : AcsmStruct}

theorem mem_alphabet (c : UInt8) : c ∈ alphabet :=
  List.mem_map.mpr ⟨c.toNat, List.mem_range.mpr c.toNat_lt, by simp⟩

theorem alphabet_nodup : alphabet.Nodup := by
  unfold alphabet
  refine List.Nodup.map_on ?_ List.nodup_range
  intro x hx y hy he
  rw [List.mem_range] at hx hy
  have := congrArg UInt8.toNat he
  rwa [UInt8.toNat_ofNat_of_lt' hx, UInt8.toNat_ofNat_of_lt' hy] at this

/-- The children of `r` on the bytes `l`, in the order in which they are queued. -/
def children (a0 : AcsmStruct) (r : Int) (l : List UInt8) : List Int :=
  (l.filter fun c => a0.next r c ≠ acsmFailState).map (a0.next r)

theorem children_cons (r : Int) (c : UInt8) (l : List UInt8) : children a0 r (c :: l) =
    (if a0.next r c ≠ acsmFailState then [a0.next r c] else []) ++ children a0 r l := by
  unfold children
  by_cases h : a0.next r c = acsmFailState <;> simp [h]

theorem mem_children {r t : Int} {l : List UInt8} :
    t ∈ children a0 r l ↔ ∃ c ∈ l, a0.next r c ≠ acsmFailState ∧ a0.next r c = t := by
  simp only [children, List.mem_map, List.mem_filter, ne_eq, decide_not, Bool.not_eq_true',
    decide_eq_false_iff_not, and_assoc]

theorem children_nodup (h : Trie (IsNode W) a0.acsmNumStates str a0.next) {r : Int}
    (hr : Live a0.acsmNumStates r) : (children a0 r alphabet).Nodup := by
  refine List.Nodup.map_on ?_ (alphabet_nodup.filter _)
  intro c hc d hd he
  have hne : a0.next r c ≠ acsmFailState := by simpa using (List.mem_filter.mp hc).2
  exact (h.edge_inj hr hr hne he).2

/-! ## One row -/

theorem visitRow_spec (h0 : TrieInv W str a0) (hW : HasWords a0 W) {r : Int}
    (hr : Live a0.acsmNumStates r) (hr0 : r ≠ 0) (fuel : Nat) (l : List UInt8) :
    ∀ {D : Int → UInt8 → Prop} {a : AcsmStruct} (q : List Int), BuildInv W str a0 D a → l.Nodup →
      (∀ c ∈ l, ¬ D r c) → ShallowDone a0 str D r →
      ∃ a', l.foldlM (visitChild (fuel + 1) r) (a, q) = some (a', q ++ children a0 r l) ∧
        BuildInv W str a0 (fun s d => D s d ∨ (s = r ∧ d ∈ l)) a' := by
  induction l with
  | nil =>
      intro D a q h _ _ _
      refine ⟨a, by simp [children], ?_⟩
      have he : (fun s d => D s d ∨ (s = r ∧ d ∈ ([] : List UInt8))) = D := by
        funext s d
        simp
      rw [he]
      exact h
  | cons c l ih =>
      intro D a q h hnd hnot hD
      obtain ⟨hcl, hnd⟩ := List.nodup_cons.mp hnd
      obtain ⟨b, hb, hinv⟩ := visitChild_spec h h0 hW hr hr0 (hnot c List.mem_cons_self) hD fuel q
      obtain ⟨a', ha, hinv'⟩ := ih (if a0.next r c ≠ acsmFailState then q ++ [a0.next r c] else q)
        hinv hnd
        (by
          rintro d hd (hh | ⟨_, rfl⟩)
          · exact hnot d (List.mem_cons_of_mem _ hd) hh
          · exact hcl hd)
        (fun p hp hlt d => Or.inl (hD p hp hlt d))
      refine ⟨a', ?_, ?_⟩
      · rw [List.foldlM_cons, hb]
        refine ha.trans ?_
        rw [children_cons]
        split <;> simp
      · have he : (fun s d => D s d ∨ (s = r ∧ d ∈ c :: l)) =
            fun s d => (D s d ∨ (s = r ∧ d = c)) ∨ (s = r ∧ d ∈ l) := by
          funext s d
          simp only [List.mem_cons, or_assoc, ← and_or_left]
        rw [he]
        exact hinv'

/-! ## The queue -/

/-- The edges out of state 0 and of the states `S`. -/
def RowsOf (S : List Int) (s : Int) (_ : UInt8) : Prop := s = 0 ∨ s ∈ S

/-- `S` are the states that have left the queue `Q`. -/
structure QueueInv (str : Int → List UInt8) (a0 : AcsmStruct) (S Q : List Int) : Prop where
  nodup : (S ++ Q).Nodup
  live : ∀ t ∈ S ++ Q, Live a0.acsmNumStates t ∧ t ≠ 0
  child : ∀ s c, (s = 0 ∨ s ∈ S) → a0.next s c ≠ acsmFailState → a0.next s c ∈ S ++ Q
  parent : ∀ t ∈ S ++ Q, ∃ s c, (s = 0 ∨ s ∈ S) ∧ a0.next s c = t
  sorted : Q.Pairwise fun s t => (str s).length ≤ (str t).length
  span : ∀ r Q', Q = r :: Q' → ∀ t ∈ Q, (str t).length ≤ (str r).length + 1

/-- A state of smaller depth than the whole queue has left it. -/
theorem QueueInv.left {S Q : List Int} (h : QueueInv str a0 S Q) (h0 : TrieInv W str a0) {d : Nat}
    (hQ : ∀ t ∈ Q, d ≤ (str t).length) :
    ∀ k p, (str p).length = k → k < d → Live a0.acsmNumStates p → p = 0 ∨ p ∈ S := by
  intro k
  induction k using Nat.strongRecOn with
  | ind k ih =>
      intro p hk hlt hp
      by_cases hp0 : p = 0
      · exact Or.inl hp0
      · obtain ⟨s, c, hs, hne, he, hstr⟩ := h0.trie.exists_edge hp hp0
        have hlen : (str s).length < k := by
          rw [← hk, hstr]
          simp
        have hmem := h.child s c (ih _ hlen s rfl (by omega) hs) hne
        rw [he] at hmem
        rcases List.mem_append.mp hmem with hmem | hmem
        · exact Or.inr hmem
        · have := hQ p hmem
          omega

theorem QueueInv.shallowDone {S Q : List Int} {r : Int} (h : QueueInv str a0 S (r :: Q))
    (h0 : TrieInv W str a0) : ShallowDone a0 str (RowsOf S) r := by
  intro p hp hlt _
  refine h.left h0 (d := (str r).length) ?_ _ p rfl hlt hp
  intro t ht
  rcases List.mem_cons.mp ht with rfl | ht
  · exact Nat.le_refl _
  · exact (List.pairwise_cons.mp h.sorted).1 t ht

theorem QueueInv.step {S Q : List Int} {r : Int} (h : QueueInv str a0 S (r :: Q))
    (h0 : TrieInv W str a0) :
    QueueInv str a0 (S ++ [r]) (Q ++ children a0 r alphabet) := by
  obtain ⟨hrl, hr0⟩ := h.live r (by simp)
  have hrS : ¬ (r = 0 ∨ r ∈ S) := by
    rintro (hh | hh)
    · exact hr0 hh
    · have := (List.nodup_append.mp h.nodup).2.2
      exact this r hh r List.mem_cons_self rfl
  have hsplit : (S ++ [r]) ++ (Q ++ children a0 r alphabet) =
      (S ++ r :: Q) ++ children a0 r alphabet := by simp
  have hlen : ∀ t ∈ children a0 r alphabet, (str t).length = (str r).length + 1 := by
    intro t ht
    obtain ⟨c, _, hne, rfl⟩ := mem_children.mp ht
    rw [(h0.trie.next_of_ne hrl hne).2.2]
    simp
  have hS : ∀ s, s ∈ S → Live a0.acsmNumStates s := fun s hs => (h.live s (by simp [hs])).1
  refine ⟨?_, ?_, ?_, ?_, ?_, ?_⟩
  · rw [hsplit]
    refine List.nodup_append.mpr ⟨h.nodup, children_nodup h0.trie hrl, ?_⟩
    rintro t ht u hu rfl
    -- the source of the edge to `t` would be both in `S` and `r`
    obtain ⟨c, _, hne, hc⟩ := mem_children.mp hu
    obtain ⟨s, d, hs, hd⟩ := h.parent t ht
    have hsl : Live a0.acsmNumStates s := by
      rcases hs with rfl | hs
      · exact h0.trie.live_zero
      · exact hS s hs
    have := (h0.trie.edge_inj hrl hsl hne (hc.trans hd.symm)).1
    exact hrS (this ▸ hs)
  · rw [hsplit]
    intro t ht
    rcases List.mem_append.mp ht with ht | ht
    · exact h.live t ht
    · obtain ⟨c, _, hne, rfl⟩ := mem_children.mp ht
      refine ⟨h0.trie.live_next hrl hne, ?_⟩
      have := (h0.trie.next_of_ne hrl hne).1
      omega
  · rw [hsplit]
    intro s c hs hne
    by_cases hsr : s = r
    · subst hsr
      exact List.mem_append_right _ (mem_children.mpr ⟨c, mem_alphabet c, hne, rfl⟩)
    · refine List.mem_append_left _ (h.child s c ?_ hne)
      rcases hs with hs | hs
      · exact Or.inl hs
      · exact Or.inr (by simpa [hsr] using hs)
  · rw [hsplit]
    intro t ht
    rcases List.mem_append.mp ht with ht | ht
    · obtain ⟨s, c, hs, he⟩ := h.parent t ht
      exact ⟨s, c, hs.imp_right fun hh => List.mem_append_left _ hh, he⟩
    · obtain ⟨c, _, _, rfl⟩ := mem_children.mp ht
      exact ⟨r, c, Or.inr (by simp), rfl⟩
  · refine List.pairwise_append.mpr ⟨(List.pairwise_cons.mp h.sorted).2, ?_, ?_⟩
    · exact List.pairwise_of_forall_mem_list fun s hs t ht => by rw [hlen s hs, hlen t ht]
    · intro s hs t ht
      rw [hlen t ht]
      exact h.span r Q rfl s (List.mem_cons_of_mem _ hs)
  · intro r' Q' he t ht
    have hr' : (str r).length ≤ (str r').length := by
      have hmem : r' ∈ Q ++ children a0 r alphabet := by rw [he]; exact List.mem_cons_self
      rcases List.mem_append.mp hmem with hmem | hmem
      · exact (List.pairwise_cons.mp h.sorted).1 r' hmem
      · rw [hlen r' hmem]
        omega
    rcases List.mem_append.mp ht with ht | ht
    · have := h.span r Q rfl t (List.mem_cons_of_mem _ ht)
      omega
    · rw [hlen t ht]
      omega

/-- The numbers `1, .., n` bound the number of states that are ever queued. -/
theorem QueueInv.length_le {S Q : List Int} (h : QueueInv str a0 S Q) :
    (S ++ Q).length ≤ a0.acsmNumStates.toNat := by
  have hsub : S ++ Q ⊆ (List.range a0.acsmNumStates.toNat).map fun k : Nat => (k : Int) + 1 := by
    intro t ht
    obtain ⟨⟨hpos, hle⟩, hne⟩ := h.live t ht
    have hlt : (t - 1).toNat < a0.acsmNumStates.toNat := by omega
    have heq : ((t - 1).toNat : Int) + 1 = t := by omega
    exact List.mem_map.mpr ⟨(t - 1).toNat, List.mem_range.mpr hlt, heq⟩
  simpa using (h.nodup.subperm hsub).length_le

theorem bfsLoop_spec (h0 : TrieInv W str a0) (hW : HasWords a0 W) (fuel : Nat) :
    ∀ {S Q : List Int} {a : AcsmStruct}, QueueInv str a0 S Q → BuildInv W str a0 (RowsOf S) a →
      a0.acsmNumStates.toNat ≤ fuel + S.length →
      ∃ a', bfsLoop fuel a Q = some a' ∧
        BuildInv W str a0 (fun s _ => Live a0.acsmNumStates s) a' := by
  have hdone : ∀ {S : List Int} {a : AcsmStruct}, QueueInv str a0 S [] →
      BuildInv W str a0 (RowsOf S) a → BuildInv W str a0 (fun s _ => Live a0.acsmNumStates s) a := by
    intro S a hq h
    have hall : ∀ s c, Live a0.acsmNumStates s → RowsOf S s c := fun s _ hs =>
      hq.left h0 (d := (str s).length + 1) (by simp) _ s rfl (by omega) hs
    exact ⟨h.frame, h.num, fun s c hs _ => h.edge s c hs (hall s c hs),
      fun s c hs hn => absurd hs hn, h.root, fun s c hs _ => h.seen s c hs (hall s c hs),
      fun s c hs hn => absurd hs hn⟩
  induction fuel with
  | zero =>
      intro S Q a hq h hlen
      cases Q with
      | nil => exact ⟨a, rfl, hdone hq h⟩
      | cons r Q =>
          have := hq.length_le
          simp only [List.length_append, List.length_cons] at this
          omega
  | succ fuel ih =>
      intro S Q a hq h hlen
      cases Q with
      | nil => exact ⟨a, rfl, hdone hq h⟩
      | cons r Q =>
          obtain ⟨hrl, hr0⟩ := hq.live r (by simp)
          have hrS : ∀ c ∈ alphabet, ¬ RowsOf S r c := by
            rintro c _ (hh | hh)
            · exact hr0 hh
            · exact (List.nodup_append.mp hq.nodup).2.2 r hh r List.mem_cons_self rfl
          obtain ⟨b, hb, hinv⟩ := visitRow_spec h0 hW hrl hr0 fuel alphabet Q h alphabet_nodup hrS
            (hq.shallowDone h0)
          have he : (fun s d => RowsOf S s d ∨ (s = r ∧ d ∈ alphabet)) = RowsOf (S ++ [r]) := by
            funext s d
            simp only [RowsOf, mem_alphabet, and_true, List.mem_append, List.mem_singleton, or_assoc]
          rw [he] at hinv
          obtain ⟨a', ha, hinv'⟩ := ih (hq.step h0) hinv (by simp; omega)
          refine ⟨a', ?_, hinv'⟩
          unfold bfsLoop
          rw [hb]
          exact ha

end Taomee.Dirty
