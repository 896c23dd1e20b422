import Mathlib.Data.List.Nodup
import Mathlib.Data.List.Range
import Taomee.Dirty.Lemmas.AddPattern

/-!
# Build_DFA

The breadth-first loop turns the trie `a0` into the matcher. The invariant is stated on edges: an
edge `(s, c)` is done once the transition of `s` on `c` is final. A state is seen once the edge
that leads to it is done; from then on its failure state and its pattern are final.
-/

namespace Taomee.Dirty

open Taomee.Words

variable {W : List (List UInt8)} {str : Int → List UInt8} {a0 : AcsmStruct}

/-- The pattern of state `t` is final: none, or that of the node of a longest word ending at `t`. -/
def LongestOk (W : List (List UInt8)) (str : Int → List UInt8) (a0 a : AcsmStruct) (t : Int) : Prop :=
  (a.longest t = -1 ∧ ¬ Hit W (str t)) ∨
    ∃ x, Live a0.acsmNumStates x ∧ LongestHit W (str t) (str x) ∧ a.longest t = a0.longest x

/-- The state of the table when exactly the edges `D` are done. -/
structure BuildInv (W : List (List UInt8)) (str : Int → List UInt8) (a0 : AcsmStruct)
    (D : Int → UInt8 → Prop) (a : AcsmStruct) : Prop where
  frame : Frame a0 a
  num : a.acsmNumStates = a0.acsmNumStates
  edge : ∀ s c, Live a0.acsmNumStates s → D s c →
    Live a0.acsmNumStates (a.next s c) ∧ str (a.next s c) = node W (str s ++ [c])
  todo : ∀ s c, Live a0.acsmNumStates s → ¬ D s c → a.next s c = a0.next s c
  root : a.longest 0 = -1
  seen : ∀ s c, Live a0.acsmNumStates s → D s c → a0.next s c ≠ acsmFailState →
    (Live a0.acsmNumStates (a.failOf (a0.next s c)) ∧
      str (a.failOf (a0.next s c)) = fail W (str (a0.next s c))) ∧
    LongestOk W str a0 a (a0.next s c)
  unseen : ∀ s c, Live a0.acsmNumStates s → ¬ D s c → a0.next s c ≠ acsmFailState →
    a.longest (a0.next s c) = a0.longest (a0.next s c)

/-! ## Edges determine their source -/

theorem Trie.edge_inj {Nd : List UInt8 → Prop} {n : Int} {next : Int → UInt8 → Int}
    (h : Trie Nd n str next) {s s' : Int} {c c' : UInt8} (hs : Live n s) (hs' : Live n s')
    (hne : next s c ≠ acsmFailState) (he : next s c = next s' c') : s = s' ∧ c = c' := by
  have h1 := (h.next_of_ne hs hne).2.2
  have h2 := (h.next_of_ne hs' (he ▸ hne)).2.2
  rw [he, h2] at h1
  obtain ⟨h3, h4⟩ := List.append_inj' h1 rfl
  exact ⟨(h.inj _ _ hs' hs h3).symm, by simpa using h4.symm⟩

/-- A live state other than 0 is the end of an edge. -/
theorem Trie.exists_edge {n : Int} {next : Int → UInt8 → Int} (h : Trie (IsNode W) n str next)
    {t : Int} (ht : Live n t) (hne : t ≠ 0) :
    ∃ s c, Live n s ∧ next s c ≠ acsmFailState ∧ next s c = t ∧ str t = str s ++ [c] := by
  obtain ⟨u, c, hu⟩ : ∃ u c, str t = u ++ [c] := by
    rcases List.eq_nil_or_concat (str t) with he | ⟨u, c, he⟩
    · exact absurd he (h.str_ne_nil ht hne)
    · exact ⟨u, c, by simpa using he⟩
  have hn := h.node t ht
  rw [hu] at hn
  obtain ⟨s, hs, rfl⟩ := h.cover u (h.closed _ _ hn)
  have hne' := h.child s c hs hn
  refine ⟨s, c, hs, hne', ?_, hu⟩
  exact h.inj _ _ (h.live_next hs hne') ht ((h.next_of_ne hs hne').2.2.trans hu.symm)

/-! ## One edge -/

/-- All edges out of states of smaller depth than `r` are done. -/
def ShallowDone (a0 : AcsmStruct) (str : Int → List UInt8) (D : Int → UInt8 → Prop) (r : Int) : Prop :=
  ∀ p, Live a0.acsmNumStates p → (str p).length < (str r).length → ∀ c, D p c

variable {D : Int → UInt8 → Prop} {a : AcsmStruct}

theorem BuildInv.longestOk (h : BuildInv W str a0 D a) (h0 : TrieInv W str a0)
    (hW : HasWords a0 W) {r x : Int} (hD : ShallowDone a0 str D r) (hx : Live a0.acsmNumStates x)
    (hlen : (str x).length ≤ (str r).length) : LongestOk W str a0 a x := by
  by_cases hx0 : x = 0
  · subst hx0
    refine Or.inl ⟨h.root, ?_⟩
    rintro ⟨w, hw, hsuf⟩
    rw [h0.trie.root, List.suffix_nil] at hsuf
    exact hW.nonempty w hw hsuf
  · obtain ⟨s, c, hs, hne, he, hstr⟩ := h0.trie.exists_edge hx hx0
    have hlt : (str s).length < (str r).length := by
      have := congrArg List.length hstr
      simp only [List.length_append, List.length_singleton] at this
      omega
    exact he ▸ (h.seen s c hs (hD s hs hlt c) hne).2

theorem failLoop_of_ne {c : UInt8} {fs : Int} (fuel : Nat) (h : a.next fs c ≠ acsmFailState) :
    failLoop a c (fuel + 1) fs = some (a.next fs c) := by
  unfold failLoop
  exact if_neg h

theorem live_ne_fail {n s : Int} (h : Live n s) : s ≠ acsmFailState := by
  have := h.1
  unfold acsmFailState
  omega

/-- The pattern of a child is final once its failure state has passed its pattern on. -/
theorem longestOk_child (h0 : TrieInv W str a0) (hW : HasWords a0 W) (hf : Frame a0 a)
    {s x : Int} (hs : Live a0.acsmNumStates s) (hs0 : s ≠ 0) (hx : str x = fail W (str s))
    (hl : a.longest s = a0.longest s) (hok : LongestOk W str a0 a x) :
    LongestOk W str a0
      (if a.longest x ≠ -1 then addMatchListEntry a s (a.longest x) else a) s := by
  have hne := h0.trie.str_ne_nil hs hs0
  rcases h0.accept s hs with ⟨hacc, hnot⟩ | ⟨j, hacc, hj⟩
  · -- no word is the node itself: the child inherits what its failure state has
    rcases hok with ⟨hx1, hxn⟩ | ⟨y, hy, hlong, hxy⟩
    · rw [if_neg (by simp [hx1])]
      refine Or.inl ⟨hl.trans hacc, fun hh => ?_⟩
      rw [hit_fail_iff hne, ← hx] at hh
      exact hh.elim hnot hxn
    · have hpos : a.longest x ≠ -1 := by
        rw [hxy]
        rcases h0.accept y hy with ⟨_, hy'⟩ | ⟨i, hi, _⟩
        · exact absurd hlong.1 hy'
        · omega
      rw [if_pos hpos]
      refine Or.inr ⟨y, hy, (hx ▸ hlong).of_fail hne hnot, ?_⟩
      rw [addMatchListEntry_longest, if_pos ⟨rfl, Or.inl (by omega)⟩, hxy]
  · -- a word is the node itself, and no shorter word replaces it
    have hmem : str s ∈ W := List.mem_of_getElem? hj
    refine Or.inr ⟨s, hs, LongestHit.self hmem, ?_⟩
    split
    · rename_i hpos
      rw [addMatchListEntry_longest, if_neg, hl]
      rintro ⟨_, hlt | hlt⟩
      · omega
      · rcases hok with ⟨hx1, _⟩ | ⟨y, hy, hlong, hxy⟩
        · exact hpos hx1
        · rcases h0.accept y hy with ⟨_, hy'⟩ | ⟨i, hi, hi'⟩
          · exact hy' hlong.1
          · rw [hl, hxy, hacc, hi, hf.patterns, (hW.word _ _ hj).1, (hW.word _ _ hi').1] at hlt
            have h1 := hlong.2.1.length_le
            have h2 := fail_length_lt (P := W) hne
            rw [hx] at h1
            omega
    · exact hl

/-! ### No child -/

/-- Where there is no child, the transition may be set to the longest node that the text ends with. -/
theorem BuildInv.setNext (h : BuildInv W str a0 D a) (h0 : TrieInv W str a0) {r x : Int} {c : UInt8}
    (hr : Live a0.acsmNumStates r) (hr0 : r ≠ 0) (hchild : a0.next r c = acsmFailState)
    (hx : Live a0.acsmNumStates x) (hstr : str x = node W (fail W (str r) ++ [c])) :
    BuildInv W str a0 (fun s d => D s d ∨ (s = r ∧ d = c)) (a.setNext r c x) := by
  refine { frame := h.frame.trans (a.setNext_frame r c _), num := h.num, edge := fun s d hs hd => ?_,
           todo := fun s d hs hd => ?_, root := ?_, seen := fun s d hs hd hne => ?_, unseen := fun s d hs hd hne => ?_ }
  · rw [AcsmStruct.setNext_next]
    by_cases hsr : s = r ∧ d = c
    · obtain ⟨rfl, rfl⟩ := hsr
      simp only [and_self, ↓reduceIte]
      refine ⟨hx, hstr.trans (node_concat_of_not_isNode (h0.trie.str_ne_nil hs hr0) ?_).symm⟩
      exact (h0.trie.next_eq_fail_iff hs).mp hchild
    · rw [if_neg hsr]
      exact h.edge s d hs (hd.resolve_right hsr)
  · rw [AcsmStruct.setNext_next, if_neg fun hh => hd (Or.inr hh)]
    exact h.todo s d hs fun hh => hd (Or.inl hh)
  · rw [AcsmStruct.setNext_longest]
    exact h.root
  · have hd' : D s d := hd.resolve_right (by rintro ⟨rfl, rfl⟩; exact hne hchild)
    have hseen := h.seen s d hs hd' hne
    unfold LongestOk at hseen ⊢
    rw [AcsmStruct.setNext_longest, AcsmStruct.setNext_failOf]
    exact hseen
  · rw [AcsmStruct.setNext_longest]
    exact h.unseen s d hs (fun hh => hd (Or.inl hh)) hne

/-! ### A child -/

/-- The table after `x` has become the failure state of `t` and has passed its pattern on. -/
def inherit (a : AcsmStruct) (t x : Int) : AcsmStruct :=
  if (a.setFail t x).longest x ≠ -1 then addMatchListEntry (a.setFail t x) t ((a.setFail t x).longest x)
  else a.setFail t x

theorem inherit_next (a : AcsmStruct) (t x : Int) : (inherit a t x).next = a.next := by
  unfold inherit
  split <;> simp

theorem inherit_num (a : AcsmStruct) (t x : Int) : (inherit a t x).acsmNumStates = a.acsmNumStates := by
  unfold inherit
  split <;> simp

theorem inherit_failOf (a : AcsmStruct) (t x k : Int) :
    (inherit a t x).failOf k = if k = t then x else a.failOf k := by
  unfold inherit
  split
  · rw [addMatchListEntry_failOf, AcsmStruct.setFail_failOf]
  · rw [AcsmStruct.setFail_failOf]

theorem inherit_longest_of_ne {t k : Int} (hk : k ≠ t) (x : Int) : (inherit a t x).longest k = a.longest k := by
  unfold inherit
  split
  · rw [addMatchListEntry_longest, if_neg fun hh => hk hh.1, AcsmStruct.setFail_longest]
  · rw [AcsmStruct.setFail_longest]

theorem inherit_frame (a : AcsmStruct) (t x : Int) : Frame a (inherit a t x) := by
  unfold inherit
  split
  · exact (a.setFail_frame t x).trans (addMatchListEntry_frame _ _ _)
  · exact a.setFail_frame t x

/-- With its failure state and its pattern a child is final. -/
theorem BuildInv.inherit (h : BuildInv W str a0 D a) (h0 : TrieInv W str a0) {r x : Int} {c : UInt8}
    (hr : Live a0.acsmNumStates r) (hrc : ¬ D r c) (hchild : a0.next r c ≠ acsmFailState)
    (hx : Live a0.acsmNumStates x) (hxfail : str x = fail W (str (a0.next r c)))
    (hok : LongestOk W str a0 (inherit a (a0.next r c) x) (a0.next r c)) :
    BuildInv W str a0 (fun s d => D s d ∨ (s = r ∧ d = c)) (inherit a (a0.next r c) x) := by
  obtain ⟨htpos, _, htstr⟩ := h0.trie.next_of_ne hr hchild
  have htl := h0.trie.live_next hr hchild
  refine { frame := h.frame.trans (inherit_frame a _ x), num := (inherit_num a _ x).trans h.num,
           edge := fun s d hs hd => ?_, todo := fun s d hs hd => ?_, root := ?_,
           seen := fun s d hs hd hne => ?_, unseen := fun s d hs hd hne => ?_ }
  · rw [inherit_next]
    by_cases hsr : s = r ∧ d = c
    · obtain ⟨rfl, rfl⟩ := hsr
      rw [h.todo s d hs hrc]
      refine ⟨htl, htstr.trans (node_of_isNode ?_).symm⟩
      rw [← htstr]
      exact h0.trie.node _ htl
    · exact h.edge s d hs (hd.resolve_right hsr)
  · rw [inherit_next]
    exact h.todo s d hs fun hh => hd (Or.inl hh)
  · rw [inherit_longest_of_ne (by omega)]
    exact h.root
  · by_cases hsr : s = r ∧ d = c
    · obtain ⟨rfl, rfl⟩ := hsr
      rw [inherit_failOf, if_pos rfl]
      exact ⟨⟨hx, hxfail⟩, hok⟩
    · have hk : a0.next s d ≠ a0.next r c := fun he => hsr (h0.trie.edge_inj hs hr hne he)
      have hseen := h.seen s d hs (hd.resolve_right hsr) hne
      unfold LongestOk at hseen ⊢
      rw [inherit_failOf, if_neg hk, inherit_longest_of_ne hk]
      exact hseen
  · have hk : a0.next s d ≠ a0.next r c := fun he => hd (Or.inr (h0.trie.edge_inj hs hr hne he))
    rw [inherit_longest_of_ne hk]
    exact h.unseen s d hs (fun hh => hd (Or.inl hh)) hne

/-! ### The step -/

/-- The failure state of a state whose parent is done is final. -/
theorem BuildInv.failOf (h : BuildInv W str a0 D a) (h0 : TrieInv W str a0) {r : Int}
    (hr : Live a0.acsmNumStates r) (hr0 : r ≠ 0) (hD : ShallowDone a0 str D r) :
    Live a0.acsmNumStates (a.failOf r) ∧ str (a.failOf r) = fail W (str r) := by
  obtain ⟨s, d, hs, hne, he, hstr⟩ := h0.trie.exists_edge hr hr0
  have hlt : (str s).length < (str r).length := by
    rw [hstr]
    simp
  exact he ▸ (h.seen s d hs (hD s hs hlt d) hne).1

/-- And so is its row. -/
theorem BuildInv.row (h : BuildInv W str a0 D a) (h0 : TrieInv W str a0) {r : Int}
    (hr : Live a0.acsmNumStates r) (hr0 : r ≠ 0) (hD : ShallowDone a0 str D r) (c : UInt8) :
    Live a0.acsmNumStates (a.next (a.failOf r) c) ∧
      str (a.next (a.failOf r) c) = node W (fail W (str r) ++ [c]) := by
  obtain ⟨hfl, hfs⟩ := h.failOf h0 hr hr0 hD
  have hlt : (str (a.failOf r)).length < (str r).length := by
    rw [hfs]
    exact fail_length_lt (h0.trie.str_ne_nil hr hr0)
  rw [← hfs]
  exact h.edge _ c hfl (hD _ hfl hlt c)

theorem visitChild_spec (h : BuildInv W str a0 D a) (h0 : TrieInv W str a0) (hW : HasWords a0 W)
    {r : Int} {c : UInt8} (hr : Live a0.acsmNumStates r) (hr0 : r ≠ 0) (hrc : ¬ D r c)
    (hD : ShallowDone a0 str D r) (fuel : Nat) (q : List Int) :
    ∃ a', visitChild (fuel + 1) r (a, q) c =
        some (a', if a0.next r c ≠ acsmFailState then q ++ [a0.next r c] else q) ∧
      BuildInv W str a0 (fun s d => D s d ∨ (s = r ∧ d = c)) a' := by
  obtain ⟨hxl, hxs⟩ := h.row h0 hr hr0 hD c
  have hnext : (a.acsmStateTable r).nextState c = a0.next r c := h.todo r c hr hrc
  by_cases hchild : a0.next r c = acsmFailState
  · -- no child: the transition goes where the failure state goes
    refine ⟨a.setNext r c (a.next (a.failOf r) c), ?_, h.setNext h0 hr hr0 hchild hxl hxs⟩
    unfold visitChild
    simp only [hnext, hchild, ne_eq, not_true_eq_false, ↓reduceIte]
    rfl
  · -- a child: its failure state and its pattern become final
    obtain ⟨htpos, _, htstr⟩ := h0.trie.next_of_ne hr hchild
    have htl := h0.trie.live_next hr hchild
    have ht0 : a0.next r c ≠ 0 := by omega
    have hxfail : str (a.next (a.failOf r) c) = fail W (str (a0.next r c)) := by
      rw [hxs, htstr, fail_concat (h0.trie.str_ne_nil hr hr0)]
    have hlen : (str (a.next (a.failOf r) c)).length ≤ (str r).length := by
      have hlt := fail_length_lt (P := W) (h0.trie.str_ne_nil htl ht0)
      rw [← hxfail, htstr, List.length_append, List.length_singleton] at hlt
      omega
    have hxok : LongestOk W str a0 (a.setFail (a0.next r c) (a.next (a.failOf r) c)) (a.next (a.failOf r) c) := by
      have hok := h.longestOk h0 hW hD hxl hlen
      unfold LongestOk at hok ⊢
      rw [AcsmStruct.setFail_longest]
      exact hok
    have hok : LongestOk W str a0 (inherit a (a0.next r c) (a.next (a.failOf r) c)) (a0.next r c) :=
      longestOk_child h0 hW (h.frame.trans (a.setFail_frame _ _)) htl ht0 hxfail
        (by rw [AcsmStruct.setFail_longest]; exact h.unseen r c hr hrc hchild) hxok
    refine ⟨_, ?_, h.inherit h0 hr hrc hchild hxl hxfail hok⟩
    have hloop : failLoop a c (fuel + 1) (a.acsmStateTable r).failState = some (a.next (a.failOf r) c) :=
      failLoop_of_ne fuel (live_ne_fail hxl)
    unfold visitChild
    simp only [hnext, hchild, ne_eq, not_false_eq_true, ↓reduceIte, hloop]
    rfl

end Taomee.Dirty
