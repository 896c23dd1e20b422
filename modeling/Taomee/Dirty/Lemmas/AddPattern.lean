import Taomee.Dirty.Lemmas.Trie

/-!
# AddPatternStates

Each pattern in turn extends the trie by the prefixes of the pattern. With `acsmMaxStates` one more
than the sum of the lengths the table does not run out.
-/

namespace Taomee.Dirty

open Taomee.Words

/-- The patterns stored in a handle are the words `W`, in order, none of them empty. -/
structure HasWords (a : AcsmStruct) (W : List (List UInt8)) : Prop where
  total : a.totalPattern = W.length
  word : ∀ (j : Nat) w, W[j]? = some w → (a.acsmPatterns j).n = w.length ∧ (a.acsmPatterns j).word = w
  nonempty : ∀ w ∈ W, w ≠ []

theorem HasWords.of_frame {a a' : AcsmStruct} {W : List (List UInt8)} (h : HasWords a W)
    (hf : Frame a a') : HasWords a' W :=
  ⟨hf.total.trans h.total, by rw [hf.patterns]; exact h.word, h.nonempty⟩

/-- The states above the allocated ones are as `acsmCompile` initialised them. -/
def Fresh (a : AcsmStruct) : Prop :=
  ∀ s, a.acsmNumStates < s → s < a.acsmMaxStates →
    (∀ c, a.next s c = acsmFailState) ∧ a.longest s = -1

/-- The state of a handle after the patterns `P` have been added. -/
structure TrieInv (P : List (List UInt8)) (str : Int → List UInt8) (a : AcsmStruct) : Prop where
  trie : Trie (IsNode P) a.acsmNumStates str a.next
  fresh : Fresh a
  accept : ∀ s, Live a.acsmNumStates s →
    (a.longest s = -1 ∧ str s ∉ P) ∨ ∃ j : Nat, a.longest s = j ∧ P[j]? = some (str s)
  size : a.acsmNumStates ≤ P.flatten.length

/-! ## The two loops -/

theorem matchExisting_spec {Nd : List UInt8 → Prop} {n : Int} {str : Int → List UInt8}
    {a : AcsmStruct} (h : Trie Nd n str a.next) (pattern : List UInt8) :
    ∀ s, Live n s → ∃ t rest, matchExisting a s pattern = (t, rest) ∧ Live n t ∧
      str s ++ pattern = str t ++ rest ∧ (∀ c, rest.head? = some c → a.next t c = acsmFailState) ∧
      rest.length ≤ pattern.length := by
  induction pattern with
  | nil =>
      intro s hs
      exact ⟨s, [], rfl, hs, rfl, by simp, Nat.le_refl _⟩
  | cons c pattern ih =>
      intro s hs
      unfold matchExisting
      by_cases he : a.next s c = acsmFailState
      · refine ⟨s, c :: pattern, if_pos he, hs, rfl, ?_, Nat.le_refl _⟩
        intro d hd
        simp only [List.head?_cons, Option.some.injEq] at hd
        rw [← hd]
        exact he
      · obtain ⟨t, rest, hm, ht, happ, hhead, hlen⟩ := ih _ (h.live_next hs he)
        refine ⟨t, rest, (if_neg he).trans hm, ht, ?_, hhead, ?_⟩
        · rw [← happ, (h.next_of_ne hs he).2.2, List.append_assoc]
          rfl
        · exact Nat.le_succ_of_le hlen

/-- What `addNewStates` changes and what it keeps. -/
structure Added (a a' : AcsmStruct) (k : Nat) : Prop where
  frame : Frame a a'
  num : a'.acsmNumStates = a.acsmNumStates + k
  longest : a'.longest = a.longest
  fresh : Fresh a → Fresh a'

theorem Added.trans {a b c : AcsmStruct} {k l : Nat} (h : Added a b k) (h' : Added b c l) :
    Added a c (k + l) := by
  refine ⟨h.frame.trans h'.frame, ?_, h'.longest.trans h.longest, fun hf => h'.fresh (h.fresh hf)⟩
  rw [h'.num, h.num]
  omega

/-- One iteration of the second loop of `AddPatternStates`. -/
def addState (a : AcsmStruct) (s : Int) (c : UInt8) : AcsmStruct :=
  { a with acsmNumStates := a.acsmNumStates + 1 }.setNext s c (a.acsmNumStates + 1)

theorem addState_next (a : AcsmStruct) (s : Int) (c : UInt8) :
    (addState a s c).next = fun k d => if k = s ∧ d = c then a.acsmNumStates + 1 else a.next k d := by
  funext k d
  exact AcsmStruct.setNext_next _ _ _ _ _ _

theorem addState_added (a : AcsmStruct) {s : Int} (c : UInt8) (hs : Live a.acsmNumStates s) :
    Added a (addState a s c) 1 := by
  refine ⟨⟨rfl, rfl, rfl, rfl⟩, rfl, by rw [addState, AcsmStruct.setNext_longest]; rfl, ?_⟩
  intro hf k hk hk'
  have hks : k ≠ s := by
    obtain ⟨_, h1⟩ := hs
    have : (addState a s c).acsmNumStates = a.acsmNumStates + 1 := rfl
    omega
  have hk1 : a.acsmNumStates < k := by
    have : (addState a s c).acsmNumStates = a.acsmNumStates + 1 := rfl
    omega
  obtain ⟨h1, h2⟩ := hf k hk1 hk'
  refine ⟨fun d => ?_, ?_⟩
  · rw [addState_next]
    simp only [hks, false_and, ↓reduceIte]
    exact h1 d
  · rw [addState, AcsmStruct.setNext_longest]
    exact h2

theorem addNewStates_spec (rest : List UInt8) : ∀ {Nd : List UInt8 → Prop} {str : Int → List UInt8}
    {a : AcsmStruct} {s : Int}, Trie Nd a.acsmNumStates str a.next → Fresh a →
    Live a.acsmNumStates s → (∀ c, rest.head? = some c → a.next s c = acsmFailState) →
    a.acsmNumStates + rest.length < a.acsmMaxStates →
    ∃ a' t str', addNewStates a s rest = (a', some t) ∧ Added a a' rest.length ∧
      Trie (fun u => Nd u ∨ u <+: str s ++ rest) a'.acsmNumStates str' a'.next ∧
      Live a'.acsmNumStates t ∧ str' t = str s ++ rest ∧
      ∀ k, Live a.acsmNumStates k → str' k = str k := by
  induction rest with
  | nil =>
      intro Nd str a s ht hfr hs _ _
      refine ⟨a, s, str, rfl, ⟨Frame.refl a, by simp, rfl, id⟩, ?_, hs, by simp, fun _ _ => rfl⟩
      refine ht.congr fun u => ⟨fun hu => ?_, Or.inl⟩
      rcases hu with hu | ⟨v, hv⟩
      · exact hu
      · rw [List.append_nil] at hv
        exact ht.closed_append (hv ▸ ht.node s hs)
  | cons c rest ih =>
      intro Nd str a s ht hfr hs hhead hsize
      simp only [List.length_cons] at hsize
      have hmiss := hhead c rfl
      have hnew := hfr (a.acsmNumStates + 1) (by omega) (by omega)
      have ht1 := ht.addState hs hmiss hnew.1
      rw [← addState_next a s c] at ht1
      have hadd := addState_added a c hs
      have hnum : (addState a s c).acsmNumStates = a.acsmNumStates + 1 := rfl
      have hpos := ht.nonneg
      have hrow : ∀ d, (addState a s c).next (a.acsmNumStates + 1) d = acsmFailState := by
        intro d
        have hne : a.acsmNumStates + 1 ≠ s := by
          obtain ⟨_, h1⟩ := hs
          omega
        rw [addState_next]
        simp only [hne, false_and, ↓reduceIte]
        exact hnew.1 d
      obtain ⟨a', t, str', he, hadd', ht', hlive, hstr, hkeep⟩ :=
        ih (a := addState a s c) (s := a.acsmNumStates + 1) ht1 (hadd.fresh hfr)
          ⟨by omega, Int.le_of_eq hnum.symm⟩ (fun d _ => hrow d)
          (by rw [hnum, hadd.frame.maxStates]; omega)
      have hgo : addNewStates a s (c :: rest) = (a', some t) := by
        unfold addNewStates
        have hlt : ¬ a.acsmNumStates + 1 ≥ a.acsmMaxStates := by omega
        simp only [hlt, ↓reduceIte]
        exact he
      have hself : (if a.acsmNumStates + 1 = a.acsmNumStates + 1 then str s ++ [c]
          else str (a.acsmNumStates + 1)) = str s ++ [c] := if_pos rfl
      refine ⟨a', t, str', hgo, ?_, ?_, hlive, ?_, ?_⟩
      · have h2 := hadd.trans hadd'
        rw [List.length_cons, Nat.add_comm]
        exact h2
      · refine ht'.congr fun u => ?_
        rw [hself, List.append_assoc]
        constructor
        · rintro (hu | hu)
          · exact Or.inl (Or.inl hu)
          · exact Or.inr hu
        · rintro ((hu | hu) | hu)
          · exact Or.inl hu
          · rw [hu]
            exact Or.inr ⟨rest, by simp⟩
          · exact Or.inr hu
      · rw [hstr, hself, List.append_assoc]
        rfl
      · intro k hk
        obtain ⟨h0, h1⟩ := hk
        have hkn : k ≠ a.acsmNumStates + 1 := by omega
        rw [hkeep k ⟨h0, by rw [hnum]; omega⟩]
        simp only [hkn, ↓reduceIte]

/-! ## One pattern -/

theorem addMatchListEntry_frame (a : AcsmStruct) (s i : Int) : Frame a (addMatchListEntry a s i) := by
  unfold addMatchListEntry
  dsimp only
  split
  · exact a.setLongest_frame s i
  · exact Frame.refl a

@[simp] theorem addMatchListEntry_next (a : AcsmStruct) (s i : Int) :
    (addMatchListEntry a s i).next = a.next := by
  unfold addMatchListEntry
  dsimp only
  split
  · exact a.setLongest_next s i
  · rfl

@[simp] theorem addMatchListEntry_failOf (a : AcsmStruct) (s i : Int) :
    (addMatchListEntry a s i).failOf = a.failOf := by
  unfold addMatchListEntry
  dsimp only
  split
  · exact a.setLongest_failOf s i
  · rfl

@[simp] theorem addMatchListEntry_numStates (a : AcsmStruct) (s i : Int) :
    (addMatchListEntry a s i).acsmNumStates = a.acsmNumStates := by
  unfold addMatchListEntry
  dsimp only
  split <;> rfl

theorem addMatchListEntry_longest (a : AcsmStruct) (s i k : Int) :
    (addMatchListEntry a s i).longest k =
      if k = s ∧ (a.longest s < 0 ∨ (a.acsmPatterns (a.longest s)).n < (a.acsmPatterns i).n) then i
      else a.longest k := by
  unfold addMatchListEntry
  dsimp only
  split
  · rename_i h
    rw [AcsmStruct.setLongest_longest]
    by_cases hk : k = s
    · simp only [hk, ↓reduceIte, true_and]
      exact (if_pos h).symm
    · simp only [hk, ↓reduceIte, false_and]
  · rename_i h
    rw [if_neg]
    exact fun hh => h hh.2

theorem addPatternStates_spec {P : List (List UInt8)} {str : Int → List UInt8} {a : AcsmStruct}
    {w : List UInt8} (h : TrieInv P str a) (hw : (a.acsmPatterns P.length).word = w)
    (hn : ∀ (j : Nat) v, P[j]? = some v → (a.acsmPatterns j).n = v.length)
    (hlen : (a.acsmPatterns P.length).n = w.length)
    (hsize : ((P ++ [w]).flatten.length : Int) < a.acsmMaxStates) :
    ∃ a' str', addPatternStates a P.length = (a', 0) ∧ TrieInv (P ++ [w]) str' a' ∧ Frame a a' := by
  obtain ⟨s, rest, hm, hs, happ, hhead, hrl⟩ := matchExisting_spec h.trie w 0 h.trie.live_zero
  rw [h.trie.root, List.nil_append] at happ
  have hfl : ((P ++ [w]).flatten.length : Int) = P.flatten.length + w.length := by simp
  obtain ⟨b, t, str', hb, hadd, ht, hlive, hstr, hkeep⟩ := addNewStates_spec rest h.trie h.fresh hs
    hhead (by have := h.size; omega)
  rw [← happ] at ht hstr
  refine ⟨addMatchListEntry b t P.length, str', ?_, ?_, hadd.frame.trans (addMatchListEntry_frame _ _ _)⟩
  · unfold addPatternStates
    rw [hw, hm]
    simp only [hb]
  have hpb : b.acsmPatterns = a.acsmPatterns := hadd.frame.patterns
  -- the state of a node that was there before keeps its pattern; the new states have none
  have hbefore : ∀ k, Live b.acsmNumStates k →
      (b.longest k = -1 ∧ str' k ∉ P) ∨ ∃ j : Nat, b.longest k = j ∧ P[j]? = some (str' k) := by
    intro k hk
    rw [hadd.longest]
    by_cases hko : k ≤ a.acsmNumStates
    · rw [hkeep k ⟨hk.1, hko⟩]
      exact h.accept k ⟨hk.1, hko⟩
    · refine Or.inl ⟨(h.fresh k (by omega) ?_).2, fun hmem => ?_⟩
      · have h1 := hk.2
        have h2 := hadd.num
        have h3 := h.size
        omega
      · obtain ⟨k', hk', hstr'⟩ := h.trie.cover _ (isNode_of_mem hmem)
        have hk'' : Live b.acsmNumStates k' := ⟨hk'.1, by have := hk'.2; rw [hadd.num]; omega⟩
        have := ht.inj k k' hk hk'' (by rw [hkeep k' hk', hstr'])
        have := hk'.2
        omega
  refine ⟨?_, ?_, ?_, ?_⟩
  · rw [addMatchListEntry_next, addMatchListEntry_numStates]
    exact ht.congr fun u => isNode_concat
  · intro k hk hk'
    rw [addMatchListEntry_numStates] at hk
    rw [(addMatchListEntry_frame b t P.length).maxStates] at hk'
    obtain ⟨h1, h2⟩ := hadd.fresh h.fresh k hk hk'
    refine ⟨by rw [addMatchListEntry_next]; exact h1, ?_⟩
    rw [addMatchListEntry_longest, if_neg, h2]
    intro hh
    have := hlive.2
    omega
  · intro k hk
    rw [addMatchListEntry_numStates] at hk
    rw [addMatchListEntry_longest, hpb]
    by_cases hkt : k = t
    · subst hkt
      rcases hbefore k hk with ⟨hl, _⟩ | ⟨j, hl, hj⟩
      · right
        refine ⟨P.length, ?_, by rw [hstr]; simp⟩
        rw [if_pos ⟨rfl, Or.inl (by omega)⟩]
      · right
        refine ⟨j, ?_, ?_⟩
        · rw [if_neg, hl]
          rintro ⟨_, hlt | hlt⟩
          · omega
          · rw [hl, hn j _ hj, hlen, hstr] at hlt
            omega
        · rw [List.getElem?_append_left (List.getElem?_eq_some_iff.mp hj).1]
          exact hj
    · rw [if_neg fun hh => hkt hh.1]
      rcases hbefore k hk with ⟨hl, hnot⟩ | ⟨j, hl, hj⟩
      · refine Or.inl ⟨hl, fun hmem => ?_⟩
        rcases List.mem_append.mp hmem with hmem | hmem
        · exact hnot hmem
        · rw [List.mem_singleton, ← hstr] at hmem
          exact hkt (ht.inj k t hk hlive hmem)
      · refine Or.inr ⟨j, hl, ?_⟩
        rw [List.getElem?_append_left (List.getElem?_eq_some_iff.mp hj).1]
        exact hj
  · rw [addMatchListEntry_numStates, hadd.num, hfl]
    have := h.size
    omega

/-! ## All patterns -/

theorem addAllPatterns_spec (Q : List (List UInt8)) : ∀ {P : List (List UInt8)}
    {str : Int → List UInt8} {a : AcsmStruct}, TrieInv P str a → HasWords a (P ++ Q) →
    ((P ++ Q).flatten.length : Int) < a.acsmMaxStates →
    ∃ a' str', addAllPatterns Q.length a P.length = (a', 0) ∧ TrieInv (P ++ Q) str' a' ∧
      Frame a a' := by
  induction Q with
  | nil =>
      intro P str a h _ _
      exact ⟨a, str, rfl, by rw [List.append_nil]; exact h, Frame.refl a⟩
  | cons w Q ih =>
      intro P str a h hW hsize
      have hassoc : P ++ w :: Q = P ++ [w] ++ Q := by simp
      rw [hassoc] at hW hsize ⊢
      have hget : (P ++ [w] ++ Q)[P.length]? = some w := by simp
      obtain ⟨hn, hw⟩ := hW.word _ _ hget
      have hfl : ((P ++ [w]).flatten.length : Int) < a.acsmMaxStates := by
        rw [List.flatten_append, List.length_append] at hsize
        omega
      obtain ⟨b, str', hb, hinv, hf⟩ := addPatternStates_spec h hw
        (fun j v hj => (hW.word j v (by
          rw [List.append_assoc, List.getElem?_append_left (List.getElem?_eq_some_iff.mp hj).1]
          exact hj)).1) hn hfl
      obtain ⟨a', str'', ha, hinv', hf'⟩ := ih hinv (hW.of_frame hf) (by rw [hf.maxStates]; exact hsize)
      refine ⟨a', str'', ?_, hinv', hf.trans hf'⟩
      rw [List.length_append, List.length_singleton] at ha
      rw [List.length_cons, addAllPatterns, hb]
      simpa using ha

end Taomee.Dirty
