import Taomee.Dirty.Lemmas.Bfs
import Taomee.Dirty.Lemmas.Normalise

/-!
# acsmCompile builds the matcher of the stored words

`Built` is what the table holds after a compile, relative to the trie it was built from; `Compiled`
is what the queries see of it.
-/

namespace Taomee.Dirty

open Taomee.Words

variable {W : List (List UInt8)} {str : Int → List UInt8} {a0 : AcsmStruct}

/-! ## The root -/

theorem closeRoot_next (a : AcsmStruct) (s : Int) (c : UInt8) :
    (closeRoot a).next s c =
      if s = 0 ∧ a.next 0 c = acsmFailState then 0 else a.next s c := by
  by_cases hs : s = 0
  · subst hs
    simp [closeRoot, AcsmStruct.setState, AcsmStruct.next]
  · simp [closeRoot, AcsmStruct.setState, AcsmStruct.next, hs]

theorem closeRoot_longest (a : AcsmStruct) : (closeRoot a).longest = a.longest := by
  funext k
  by_cases hk : k = 0 <;> simp [closeRoot, AcsmStruct.setState, AcsmStruct.longest, hk]

/-- The first loop of `Build_DFA` queues the children of the root and fails them to the root. -/
theorem queueRootChildren (h0 : TrieInv W str a0) (l : List UInt8) : ∀ (a : AcsmStruct) (q : List Int),
    (∀ c, a.next 0 c = if a0.next 0 c = acsmFailState then 0 else a0.next 0 c) →
    ∃ a', l.foldl queueRootChild (a, q) = (a', q ++ children a0 0 l) ∧ Frame a a' ∧
      a'.acsmNumStates = a.acsmNumStates ∧ a'.next = a.next ∧ a'.longest = a.longest ∧
      ∀ k, a'.failOf k = if k ∈ children a0 0 l then 0 else a.failOf k := by
  induction l with
  | nil =>
      intro a q _
      exact ⟨a, by simp [children], Frame.refl a, rfl, rfl, rfl, by simp [children]⟩
  | cons c l ih =>
      intro a q ha
      rw [List.foldl_cons, children_cons]
      have hq : (a.acsmStateTable 0).nextState c =
          if a0.next 0 c = acsmFailState then 0 else a0.next 0 c := ha c
      by_cases hc : a0.next 0 c = acsmFailState
      · have he : queueRootChild (a, q) c = (a, q) := by
          unfold queueRootChild
          dsimp only
          rw [hq, if_pos hc]
          simp
        rw [he]
        simpa [hc] using ih a q ha
      · have hpos := (h0.trie.next_of_ne h0.trie.live_zero hc).1
        have he : queueRootChild (a, q) c = (a.setFail (a0.next 0 c) 0, q ++ [a0.next 0 c]) := by
          unfold queueRootChild
          dsimp only
          rw [hq, if_neg hc, if_pos ⟨hc, by omega⟩]
        rw [he]
        obtain ⟨a', hf, hfr, hn, hnx, hlg, hfl⟩ := ih (a.setFail (a0.next 0 c) 0) (q ++ [a0.next 0 c])
          (by rw [AcsmStruct.setFail_next]; exact ha)
        refine ⟨a', ?_, (a.setFail_frame _ _).trans hfr, hn, ?_, ?_, ?_⟩
        · rw [hf]
          simp [hc]
        · rw [hnx, AcsmStruct.setFail_next]
        · rw [hlg, AcsmStruct.setFail_longest]
        · intro k
          rw [hfl, AcsmStruct.setFail_failOf]
          by_cases hk : k = a0.next 0 c <;> simp [hk, hc]

theorem rootInv (h0 : TrieInv W str a0) (hW : HasWords a0 W) : ∃ a',
    alphabet.foldl queueRootChild (closeRoot a0, []) = (a', children a0 0 alphabet) ∧
      BuildInv W str a0 (RowsOf []) a' ∧ QueueInv str a0 [] (children a0 0 alphabet) := by
  have hroot := h0.trie.live_zero
  obtain ⟨a', hf, hfr, hn, hnx, hlg, hfl⟩ := queueRootChildren h0 alphabet (closeRoot a0) []
    (fun c => by rw [closeRoot_next]; simp)
  rw [List.nil_append] at hf
  have hempty : ∀ t, ¬ Hit W (str t) → a'.longest t = a0.longest t := fun t _ => by
    rw [hlg, closeRoot_longest]
  have hlong : ∀ t, a'.longest t = a0.longest t := fun t => by rw [hlg, closeRoot_longest]
  have hnil : ¬ Hit W [] := by
    rintro ⟨w, hw, hsuf⟩
    exact hW.nonempty w hw (List.suffix_nil.mp hsuf)
  refine ⟨a', hf, ⟨?_, hn, ?_, ?_, ?_, ?_, ?_⟩, ⟨?_, ?_, ?_, ?_, ?_, ?_⟩⟩
  · exact ⟨hfr.maxStates, hfr.patterns, hfr.total, hfr.flag⟩
  · rintro s c hs (rfl | hh)
    · rw [hnx, closeRoot_next, h0.trie.root, List.nil_append]
      by_cases hc : a0.next 0 c = acsmFailState
      · rw [if_pos ⟨rfl, hc⟩]
        refine ⟨hroot, h0.trie.root.trans (node_singleton_of_not_isNode ?_).symm⟩
        simpa [h0.trie.root] using (h0.trie.next_eq_fail_iff hroot).mp hc
      · rw [if_neg fun hh => hc hh.2]
        have hstr := (h0.trie.next_of_ne hroot hc).2.2
        rw [h0.trie.root, List.nil_append] at hstr
        refine ⟨h0.trie.live_next hroot hc, hstr.trans (node_of_isNode ?_).symm⟩
        rw [← hstr]
        exact h0.trie.node _ (h0.trie.live_next hroot hc)
    · cases hh
  · intro s c hs hn
    have hs0 : s ≠ 0 := fun hh => hn (Or.inl hh)
    rw [hnx, closeRoot_next, if_neg fun hh => hs0 hh.1]
  · rw [hlong]
    rcases h0.accept 0 hroot with ⟨h, _⟩ | ⟨j, _, hj⟩
    · exact h
    · rw [h0.trie.root] at hj
      exact absurd rfl (hW.nonempty [] (List.mem_of_getElem? hj))
  · rintro s c hs (rfl | hh) hne
    · have hl := h0.trie.live_next hroot hne
      have hstr := (h0.trie.next_of_ne hroot hne).2.2
      rw [h0.trie.root, List.nil_append] at hstr
      have hmem : a0.next 0 c ∈ children a0 0 alphabet :=
        mem_children.mpr ⟨c, mem_alphabet c, hne, rfl⟩
      refine ⟨?_, ?_⟩
      · rw [hfl, if_pos hmem, hstr, fail_singleton]
        exact ⟨hroot, h0.trie.root⟩
      · rcases h0.accept _ hl with ⟨ha, hnot⟩ | ⟨j, ha, hj⟩
        · refine Or.inl ⟨(hlong _).trans ha, fun hh => ?_⟩
          rw [hit_fail_iff (by rw [hstr]; simp), hstr, fail_singleton] at hh
          exact hh.elim (hstr ▸ hnot) hnil
        · exact Or.inr ⟨_, hl, LongestHit.self (List.mem_of_getElem? hj), hlong _⟩
    · cases hh
  · exact fun s c _ _ _ => hlong _
  · exact children_nodup h0.trie hroot
  · intro t ht
    obtain ⟨c, _, hne, rfl⟩ := mem_children.mp ht
    refine ⟨h0.trie.live_next hroot hne, ?_⟩
    have := (h0.trie.next_of_ne hroot hne).1
    omega
  · rintro s c (rfl | hh) hne
    · exact mem_children.mpr ⟨c, mem_alphabet c, hne, rfl⟩
    · cases hh
  · intro t ht
    obtain ⟨c, _, _, rfl⟩ := mem_children.mp ht
    exact ⟨0, c, Or.inl rfl, rfl⟩
  all_goals
    have hlen : ∀ t ∈ children a0 0 alphabet, (str t).length = 1 := by
      intro t ht
      obtain ⟨c, _, hne, rfl⟩ := mem_children.mp ht
      rw [(h0.trie.next_of_ne hroot hne).2.2, h0.trie.root]
      rfl
  · exact List.pairwise_of_forall_mem_list fun s hs t ht => by rw [hlen s hs, hlen t ht]
  · intro r Q he t ht
    rw [hlen t ht]
    omega

/-! ## The finished table -/

/-- The table `a` is the matcher built from the trie `a0` of the words `W`. -/
structure Built (W : List (List UInt8)) (str : Int → List UInt8) (a0 a : AcsmStruct) : Prop where
  trie : TrieInv W str a0
  frame : Frame a0 a
  num : a.acsmNumStates = a0.acsmNumStates
  edge : ∀ s c, Live a0.acsmNumStates s →
    Live a0.acsmNumStates (a.next s c) ∧ str (a.next s c) = node W (str s ++ [c])
  longest : ∀ s, Live a0.acsmNumStates s → LongestOk W str a0 a s

theorem buildDfa_spec (h0 : TrieInv W str a0) (hW : HasWords a0 W) {fuel : Nat}
    (hfuel : W.flatten.length ≤ fuel) :
    ∃ a, buildDfa fuel (closeRoot a0) = some a ∧ Built W str a0 a := by
  obtain ⟨b, hb, hinv, hq⟩ := rootInv h0 hW
  have hsize := h0.size
  obtain ⟨a, ha, hfin⟩ := bfsLoop_spec h0 hW fuel hq hinv (by simp; omega)
  refine ⟨a, ?_, ⟨h0, hfin.frame, hfin.num, fun s c hs => hfin.edge s c hs hs, ?_⟩⟩
  · unfold buildDfa
    rw [hb]
    exact ha
  · intro s hs
    have hshallow : ShallowDone a0 str (fun s _ => Live a0.acsmNumStates s) s :=
      fun p hp _ _ => hp
    exact hfin.longestOk h0 hW hshallow hs (Nat.le_refl _)

/-- The state after the bytes `u` have been read from state 0. -/
def stateAfter (a : AcsmStruct) (u : List UInt8) : Int := u.foldl a.next 0

@[simp] theorem stateAfter_nil (a : AcsmStruct) : stateAfter a [] = 0 := rfl

theorem stateAfter_concat (a : AcsmStruct) (u : List UInt8) (c : UInt8) :
    stateAfter a (u ++ [c]) = a.next (stateAfter a u) c := by
  simp [stateAfter]

theorem Built.stateAfter {a : AcsmStruct} (h : Built W str a0 a) (u : List UInt8) :
    Live a0.acsmNumStates (stateAfter a u) ∧ str (stateAfter a u) = node W u := by
  induction u using List.reverseRecOn with
  | nil => exact ⟨h.trie.trie.live_zero, h.trie.trie.root⟩
  | append_singleton u c ih =>
      rw [stateAfter_concat, node_concat, ← ih.2]
      exact h.edge _ c ih.1

/-- What the queries see: after any text, the pattern of the state is a longest stored word that
ends the text, or none when no word does. -/
structure Compiled (W : List (List UInt8)) (a : AcsmStruct) : Prop where
  words : HasWords a W
  longest : ∀ u, (a.longest (stateAfter a u) = -1 ∧ ¬ Hit W u) ∨
    ∃ (j : Nat) (w : List UInt8), a.longest (stateAfter a u) = j ∧ W[j]? = some w ∧ LongestHit W u w

theorem Built.compiled {a : AcsmStruct} (h : Built W str a0 a) (hW : HasWords a0 W) : Compiled W a := by
  refine ⟨hW.of_frame h.frame, fun u => ?_⟩
  obtain ⟨hl, hs⟩ := h.stateAfter u
  rcases h.longest _ hl with ⟨h1, h2⟩ | ⟨x, hx, hlong, he⟩
  · rw [hs, hit_node_iff] at h2
    exact Or.inl ⟨h1, h2⟩
  · rw [hs] at hlong
    rcases h.trie.accept x hx with ⟨_, hnot⟩ | ⟨j, hj, hget⟩
    · exact absurd hlong.1 hnot
    · exact Or.inr ⟨j, str x, he.trans hj, hget, hlong.of_node⟩

/-! ## acsmCompile -/

theorem sumLengths_spec {a : AcsmStruct} (Q : List (List UInt8)) : ∀ {P : List (List UInt8)},
    HasWords a (P ++ Q) → sumLengths a Q.length P.length = Q.flatten.length := by
  induction Q with
  | nil => intro P _; rfl
  | cons w Q ih =>
      intro P h
      have hget : (P ++ w :: Q)[P.length]? = some w := by simp
      have hassoc : P ++ w :: Q = P ++ [w] ++ Q := by simp
      have hrec := ih (P := P ++ [w]) (hassoc ▸ h)
      rw [List.length_append, List.length_singleton] at hrec
      rw [List.length_cons, sumLengths, (h.word _ _ hget).1]
      have hcast : ((P.length + 1 : Nat) : Int) = (P.length : Int) + 1 := rfl
      rw [← hcast, hrec]
      simp

/-- The handle on which the patterns are added: counters and rows initialised. -/
def acsmCompileInit (a : AcsmStruct) : AcsmStruct :=
  initStates { a with
    acsmMaxStates := 1 + sumLengths a a.totalPattern.toNat 0, acsmNumStates := 0 }

theorem trieInv_init {a : AcsmStruct} (hW : HasWords a W) :
    TrieInv [] (fun _ => []) (acsmCompileInit a) := by
  have hmax : (acsmCompileInit a).acsmMaxStates = 1 + W.flatten.length := by
    have := sumLengths_spec W (P := []) hW
    show 1 + sumLengths a a.totalPattern.toNat 0 = _
    rw [hW.total]
    simpa using this
  have hnum : (acsmCompileInit a).acsmNumStates = 0 := rfl
  have hrow : ∀ s, 0 ≤ s → s < (acsmCompileInit a).acsmMaxStates →
      (∀ c, (acsmCompileInit a).next s c = acsmFailState) ∧ (acsmCompileInit a).longest s = -1 := by
    intro s h0 h1
    have hs : 0 ≤ s ∧ s < 1 + sumLengths a a.totalPattern.toNat 0 := ⟨h0, h1⟩
    constructor
    · intro c
      simp only [acsmCompileInit, initStates, AcsmStruct.next, hs, and_self, ↓reduceIte]
    · simp only [acsmCompileInit, initStates, AcsmStruct.longest, hs, and_self, ↓reduceIte]
  have hzero : ∀ s, Live (acsmCompileInit a).acsmNumStates s → s = 0 := by
    intro s hs
    rw [hnum] at hs
    exact Int.le_antisymm hs.2 hs.1
  have hnil : ∀ u : List UInt8, IsNode [] u ↔ u = [] := by
    intro u
    constructor
    · rintro (h | ⟨w, hw, _⟩)
      · exact h
      · cases hw
    · exact Or.inl
  refine ⟨⟨?_, rfl, ?_, ?_, ?_, ?_, ?_, ?_⟩, ?_, ?_, ?_⟩
  · exact Int.le_refl 0
  · intro u c h
    exact h.of_append
  · intro s c hs
    rw [hzero s hs]
    exact Or.inl ((hrow 0 (Int.le_refl 0) (by omega)).1 c)
  · intro s t hs ht _
    rw [hzero s hs, hzero t ht]
  · intro s c _ hn
    rw [hnil] at hn
    simp at hn
  · intro s _
    exact Or.inl rfl
  · intro u hu
    exact ⟨0, ⟨Int.le_refl 0, Int.le_refl 0⟩, ((hnil u).mp hu).symm⟩
  · intro s hs hs'
    rw [hnum] at hs
    exact hrow s (by omega) hs'
  · intro s hs
    rw [hzero s hs]
    exact Or.inl ⟨(hrow 0 (Int.le_refl 0) (by omega)).2, by simp⟩
  · exact Int.le_refl 0

/-- A compile of stored words that fit into the table succeeds, whatever the table held before. -/
theorem acsmCompile_spec {a : AcsmStruct} (hW : HasWords a W)
    (hsize : 1 + (W.flatten.length : Int) ≤ maxState) {fuel : Nat} (hfuel : W.flatten.length ≤ fuel) :
    ∃ a0 str a', acsmCompile fuel a = some (a', 0) ∧ Built W str a0 a' ∧ HasWords a0 W ∧
      a0.flag = a.flag ∧
      addAllPatterns W.length (acsmCompileInit a) 0 = (a0, 0) := by
  have hsum : sumLengths a a.totalPattern.toNat 0 = W.flatten.length := by
    rw [hW.total]
    simpa using sumLengths_spec W (P := []) hW
  have hinit : HasWords (acsmCompileInit a) W := ⟨hW.total, hW.word, hW.nonempty⟩
  have hmax : (acsmCompileInit a).acsmMaxStates = 1 + sumLengths a a.totalPattern.toNat 0 := rfl
  obtain ⟨a0, str, hadd, h0, hf⟩ := addAllPatterns_spec W (P := []) (trieInv_init hW) hinit
    (by rw [hmax, hsum, List.nil_append]; omega)
  obtain ⟨a', ha, hb⟩ := buildDfa_spec h0 (hinit.of_frame hf) hfuel
  refine ⟨a0, str, a', ?_, hb, hinit.of_frame hf, hf.flag, hadd⟩
  have hlen : (acsmCompileInit a).totalPattern.toNat = W.length := by
    rw [hinit.total]
    simp
  have hgo : acsmCompile fuel a = compileStates fuel (acsmCompileInit a) :=
    if_neg (Int.not_lt.mpr (by rw [hsum]; exact hsize))
  rw [hgo, compileStates, hlen]
  have hadd' : addAllPatterns W.length (acsmCompileInit a) 0 = (a0, 0) := hadd
  simp only [hadd', show ¬ (0 : Int) = -1 by decide, ↓reduceIte, ha]

end Taomee.Dirty
