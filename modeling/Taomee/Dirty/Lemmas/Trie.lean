import Taomee.Lib.Words
import Taomee.Dirty.Acsm

/-!
# The trie phase of acsmCompile

`AddPatternStates` keeps a numbering of the nodes of the words added so far: state `s` stands for
the node `str s`, and the transitions are the edges between nodes.
-/

namespace Taomee.Dirty

open Taomee.Words

/-! ## What the table updates leave alone -/

/-- The fields that building the automaton does not touch. -/
structure Frame (a a' : AcsmStruct) : Prop where
  maxStates : a'.acsmMaxStates = a.acsmMaxStates
  patterns : a'.acsmPatterns = a.acsmPatterns
  total : a'.totalPattern = a.totalPattern
  flag : a'.flag = a.flag

theorem Frame.refl (a : AcsmStruct) : Frame a a := ⟨rfl, rfl, rfl, rfl⟩

theorem Frame.trans {a b c : AcsmStruct} (h : Frame a b) (h' : Frame b c) : Frame a c :=
  ⟨h'.maxStates.trans h.maxStates, h'.patterns.trans h.patterns, h'.total.trans h.total,
    h'.flag.trans h.flag⟩

namespace AcsmStruct

/-- The transition table, the failure states and the pattern of each state. -/
def next (a : AcsmStruct) (s : Int) (c : UInt8) : Int := (a.acsmStateTable s).nextState c
def failOf (a : AcsmStruct) (s : Int) : Int := (a.acsmStateTable s).failState
def longest (a : AcsmStruct) (s : Int) : Int := (a.acsmStateTable s).longestPatternIndex

theorem setNext_frame (a : AcsmStruct) (s : Int) (c : UInt8) (v : Int) : Frame a (a.setNext s c v) :=
  ⟨rfl, rfl, rfl, rfl⟩

theorem setFail_frame (a : AcsmStruct) (s v : Int) : Frame a (a.setFail s v) := ⟨rfl, rfl, rfl, rfl⟩

theorem setLongest_frame (a : AcsmStruct) (s v : Int) : Frame a (a.setLongest s v) :=
  ⟨rfl, rfl, rfl, rfl⟩

@[simp] theorem setNext_numStates (a : AcsmStruct) (s : Int) (c : UInt8) (v : Int) :
    (a.setNext s c v).acsmNumStates = a.acsmNumStates := rfl

@[simp] theorem setFail_numStates (a : AcsmStruct) (s v : Int) :
    (a.setFail s v).acsmNumStates = a.acsmNumStates := rfl

@[simp] theorem setLongest_numStates (a : AcsmStruct) (s v : Int) :
    (a.setLongest s v).acsmNumStates = a.acsmNumStates := rfl

theorem setNext_next (a : AcsmStruct) (s : Int) (c : UInt8) (v k : Int) (d : UInt8) :
    (a.setNext s c v).next k d = if k = s ∧ d = c then v else a.next k d := by
  by_cases hk : k = s
  · subst hk
    by_cases hd : d = c <;> simp [setNext, setState, next, hd]
  · simp [setNext, setState, next, hk]

@[simp] theorem setNext_failOf (a : AcsmStruct) (s : Int) (c : UInt8) (v : Int) :
    (a.setNext s c v).failOf = a.failOf := by
  funext k
  by_cases hk : k = s <;> simp [setNext, setState, failOf, hk]

@[simp] theorem setNext_longest (a : AcsmStruct) (s : Int) (c : UInt8) (v : Int) :
    (a.setNext s c v).longest = a.longest := by
  funext k
  by_cases hk : k = s <;> simp [setNext, setState, longest, hk]

@[simp] theorem setFail_next (a : AcsmStruct) (s v : Int) : (a.setFail s v).next = a.next := by
  funext k d
  by_cases hk : k = s <;> simp [setFail, setState, next, hk]

theorem setFail_failOf (a : AcsmStruct) (s v k : Int) :
    (a.setFail s v).failOf k = if k = s then v else a.failOf k := by
  by_cases hk : k = s <;> simp [setFail, setState, failOf, hk]

@[simp] theorem setFail_longest (a : AcsmStruct) (s v : Int) : (a.setFail s v).longest = a.longest := by
  funext k
  by_cases hk : k = s <;> simp [setFail, setState, longest, hk]

@[simp] theorem setLongest_next (a : AcsmStruct) (s v : Int) : (a.setLongest s v).next = a.next := by
  funext k d
  by_cases hk : k = s <;> simp [setLongest, setState, next, hk]

@[simp] theorem setLongest_failOf (a : AcsmStruct) (s v : Int) :
    (a.setLongest s v).failOf = a.failOf := by
  funext k
  by_cases hk : k = s <;> simp [setLongest, setState, failOf, hk]

theorem setLongest_longest (a : AcsmStruct) (s v k : Int) :
    (a.setLongest s v).longest k = if k = s then v else a.longest k := by
  by_cases hk : k = s <;> simp [setLongest, setState, longest, hk]

end AcsmStruct

/-! ## Numbered tries -/

/-- `s` is one of the states `0, .., n`. -/
def Live (n s : Int) : Prop := 0 ≤ s ∧ s ≤ n

/-- `next` is the edge relation of the prefix-closed set `Nd` of nodes, whose members are numbered
`0, .., n` by `str`. -/
structure Trie (Nd : List UInt8 → Prop) (n : Int) (str : Int → List UInt8)
    (next : Int → UInt8 → Int) : Prop where
  nonneg : 0 ≤ n
  root : str 0 = []
  closed : ∀ u c, Nd (u ++ [c]) → Nd u
  edge : ∀ s c, Live n s → next s c = acsmFailState ∨
    (0 < next s c ∧ next s c ≤ n ∧ str (next s c) = str s ++ [c])
  inj : ∀ s t, Live n s → Live n t → str s = str t → s = t
  child : ∀ s c, Live n s → Nd (str s ++ [c]) → next s c ≠ acsmFailState
  node : ∀ s, Live n s → Nd (str s)
  cover : ∀ u, Nd u → ∃ s, Live n s ∧ str s = u

namespace Trie

variable {Nd : List UInt8 → Prop} {n : Int} {str : Int → List UInt8} {next : Int → UInt8 → Int}

theorem live_zero (h : Trie Nd n str next) : Live n 0 := ⟨Int.le_refl 0, h.nonneg⟩

theorem next_of_ne (h : Trie Nd n str next) {s : Int} {c : UInt8} (hs : Live n s)
    (hne : next s c ≠ acsmFailState) :
    0 < next s c ∧ next s c ≤ n ∧ str (next s c) = str s ++ [c] :=
  (h.edge s c hs).resolve_left hne

theorem live_next (h : Trie Nd n str next) {s : Int} {c : UInt8} (hs : Live n s)
    (hne : next s c ≠ acsmFailState) : Live n (next s c) := by
  obtain ⟨hpos, hle, _⟩ := h.next_of_ne hs hne
  exact ⟨Int.le_of_lt hpos, hle⟩

theorem next_eq_fail_iff (h : Trie Nd n str next) {s : Int} {c : UInt8} (hs : Live n s) :
    next s c = acsmFailState ↔ ¬ Nd (str s ++ [c]) := by
  constructor
  · intro he hn
    exact h.child s c hs hn he
  · intro hn
    by_contra hne
    apply hn
    rw [← (h.next_of_ne hs hne).2.2]
    exact h.node _ (h.live_next hs hne)

theorem closed_append (h : Trie Nd n str next) {u v : List UInt8} (hn : Nd (u ++ v)) : Nd u := by
  induction v using List.reverseRecOn with
  | nil => simpa using hn
  | append_singleton v c ih =>
      rw [← List.append_assoc] at hn
      exact ih (h.closed _ _ hn)

theorem str_ne_nil (h : Trie Nd n str next) {s : Int} (hs : Live n s) (hne : s ≠ 0) : str s ≠ [] := by
  intro he
  exact hne (h.inj s 0 hs h.live_zero (he.trans h.root.symm))

theorem congr {Nd' : List UInt8 → Prop} (h : Trie Nd n str next) (hn : ∀ u, Nd' u ↔ Nd u) :
    Trie Nd' n str next := by
  have he : Nd' = Nd := funext fun u => propext (hn u)
  rw [he]
  exact h

theorem addState (h : Trie Nd n str next) {s : Int} {c : UInt8} (hs : Live n s)
    (hmiss : next s c = acsmFailState) (hfresh : ∀ d, next (n + 1) d = acsmFailState) :
    Trie (fun u => Nd u ∨ u = str s ++ [c]) (n + 1)
      (fun k => if k = n + 1 then str s ++ [c] else str k)
      (fun k d => if k = s ∧ d = c then n + 1 else next k d) := by
  have hnew : ¬ Nd (str s ++ [c]) := (h.next_eq_fail_iff hs).mp hmiss
  have hpos := h.nonneg
  have hold : ∀ k, Live (n + 1) k → k ≠ n + 1 → Live n k := by
    intro k hk hne
    obtain ⟨h0, h1⟩ := hk
    exact ⟨h0, by omega⟩
  have hsne : s ≠ n + 1 := by
    obtain ⟨_, h1⟩ := hs
    omega
  refine ⟨by omega, ?_, ?_, ?_, ?_, ?_, ?_, ?_⟩
  · have h0 : (0 : Int) ≠ n + 1 := by omega
    simp only [h0, ↓reduceIte]
    exact h.root
  · rintro u d (hu | hu)
    · exact Or.inl (h.closed u d hu)
    · rw [(List.append_inj' hu rfl).1]
      exact Or.inl (h.node s hs)
  · intro k d hk
    by_cases hkn : k = n + 1
    · subst hkn
      have : ¬ (n + 1 = s ∧ d = c) := fun hh => hsne hh.1.symm
      simp only [this, ↓reduceIte]
      exact Or.inl (hfresh d)
    · have hk' := hold k hk hkn
      by_cases hkd : k = s ∧ d = c
      · obtain ⟨rfl, rfl⟩ := hkd
        right
        simp only [and_self, ↓reduceIte, hsne]
        exact ⟨by omega, Int.le_refl _, trivial⟩
      · simp only [hkd, ↓reduceIte, hkn]
        rcases h.edge k d hk' with he | ⟨hp, hle, hstr⟩
        · exact Or.inl he
        · right
          have hne : next k d ≠ n + 1 := by omega
          simp only [hne, ↓reduceIte]
          exact ⟨hp, by omega, hstr⟩
  · intro k t hk ht he
    by_cases hkn : k = n + 1
    · by_cases htn : t = n + 1
      · rw [hkn, htn]
      · simp only [hkn, htn, ↓reduceIte] at he
        exact absurd (he ▸ h.node t (hold t ht htn)) hnew
    · by_cases htn : t = n + 1
      · simp only [hkn, htn, ↓reduceIte] at he
        exact absurd (he ▸ h.node k (hold k hk hkn)) hnew
      · simp only [hkn, htn, ↓reduceIte] at he
        exact h.inj k t (hold k hk hkn) (hold t ht htn) he
  · intro k d hk hn
    by_cases hkn : k = n + 1
    · simp only [hkn, ↓reduceIte] at hn
      rcases hn with hn | hn
      · exact absurd (h.closed _ _ hn) hnew
      · have := congrArg List.length hn
        simp at this
    · have hk' := hold k hk hkn
      simp only [hkn, ↓reduceIte] at hn
      by_cases hkd : k = s ∧ d = c
      · simp only [hkd, and_self, ↓reduceIte, acsmFailState]
        omega
      · simp only [hkd, ↓reduceIte]
        rcases hn with hn | hn
        · exact h.child k d hk' hn
        · obtain ⟨h1, h2⟩ := List.append_inj' hn rfl
          exact absurd ⟨h.inj k s hk' hs h1, by simpa using h2⟩ hkd
  · intro k hk
    by_cases hkn : k = n + 1
    · simp only [hkn, ↓reduceIte]
      exact Or.inr trivial
    · simp only [hkn, ↓reduceIte]
      exact Or.inl (h.node k (hold k hk hkn))
  · rintro u (hu | hu)
    · obtain ⟨k, ⟨h0, h1⟩, rfl⟩ := h.cover u hu
      have hkn : k ≠ n + 1 := by omega
      exact ⟨k, ⟨h0, by omega⟩, by simp only [hkn, ↓reduceIte]⟩
    · exact ⟨n + 1, ⟨by omega, Int.le_refl _⟩, by simp only [↓reduceIte, hu]⟩

end Trie

end Taomee.Dirty
