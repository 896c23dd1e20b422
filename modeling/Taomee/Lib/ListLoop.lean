import Mathlib.Data.List.Basic

/-!
# Loops over circular lists

A loop starts behind the head and goes from node to node until it is back. The plain loop reads the
next node after its body, the safe one keeps it from before. A loop stops early where its body does,
at a node that holds no entry, and when the turns given are used up.
-/

namespace Taomee.ListLoop

variable {σ P A : Type*} [DecidableEq P]

/-- How the nodes of a list are read: the next one, the entry that a node holds, the head. -/
structure Cursor (σ P A : Type*) where
  next : σ → P → P
  entryOf : P → Option A
  head : P

variable (c : Cursor σ P A) (body : σ → A → Option σ)

/-- The loop that reads the next node after its body, at the node `pos`. -/
def forEachFrom : (turns : Nat) → σ → P → Option σ
  | 0, _, _ => none
  | turns + 1, s, pos =>
      if pos = c.head then some s
      else
        (c.entryOf pos).bind fun a =>
          (body s a).bind fun s => forEachFrom turns s (c.next s pos)

/-- The loop that keeps the next node `n` from before its body, at the node `pos`. -/
def forEachSafeFrom : (turns : Nat) → σ → (pos n : P) → Option σ
  | 0, _, _, _ => none
  | turns + 1, s, pos, n =>
      if pos = c.head then some s
      else
        (c.entryOf pos).bind fun a =>
          (body s a).bind fun s => forEachSafeFrom turns s n (c.next s n)

def forEach (turns : Nat) (s : σ) : Option σ := forEachFrom c body turns s (c.next s c.head)

def forEachSafe (turns : Nat) (s : σ) : Option σ :=
  let pos := c.next s c.head
  forEachSafeFrom c body turns s pos (c.next s pos)

variable {c body} {R : σ → σ → Prop}

/-! ## What a loop keeps -/

theorem forEachFrom_keeps (hrefl : ∀ s, R s s) (htrans : ∀ s₁ s₂ s₃, R s₁ s₂ → R s₂ s₃ → R s₁ s₃)
    (hbody : ∀ s a s', body s a = some s' → R s s') :
    ∀ {turns : Nat} {s s' : σ} {pos : P}, forEachFrom c body turns s pos = some s' → R s s'
  | turns + 1, s, s', pos, h => by
      unfold forEachFrom at h
      by_cases hp : pos = c.head
      · rw [if_pos hp] at h
        obtain rfl := Option.some.inj h
        exact hrefl s
      · rw [if_neg hp] at h
        obtain ⟨a, -, h⟩ := Option.bind_eq_some_iff.mp h
        obtain ⟨s₁, hs₁, h⟩ := Option.bind_eq_some_iff.mp h
        exact htrans s s₁ s' (hbody s a s₁ hs₁) (forEachFrom_keeps hrefl htrans hbody h)

theorem forEachSafeFrom_keeps (hrefl : ∀ s, R s s) (htrans : ∀ s₁ s₂ s₃, R s₁ s₂ → R s₂ s₃ → R s₁ s₃)
    (hbody : ∀ s a s', body s a = some s' → R s s') :
    ∀ {turns : Nat} {s s' : σ} {pos n : P}, forEachSafeFrom c body turns s pos n = some s' → R s s'
  | turns + 1, s, s', pos, n, h => by
      unfold forEachSafeFrom at h
      by_cases hp : pos = c.head
      · rw [if_pos hp] at h
        obtain rfl := Option.some.inj h
        exact hrefl s
      · rw [if_neg hp] at h
        obtain ⟨a, -, h⟩ := Option.bind_eq_some_iff.mp h
        obtain ⟨s₁, hs₁, h⟩ := Option.bind_eq_some_iff.mp h
        exact htrans s s₁ s' (hbody s a s₁ hs₁) (forEachSafeFrom_keeps hrefl htrans hbody h)

theorem forEach_keeps (hrefl : ∀ s, R s s) (htrans : ∀ s₁ s₂ s₃, R s₁ s₂ → R s₂ s₃ → R s₁ s₃)
    (hbody : ∀ s a s', body s a = some s' → R s s') {turns : Nat} {s s' : σ}
    (h : forEach c body turns s = some s') : R s s' := forEachFrom_keeps hrefl htrans hbody h

theorem forEachSafe_keeps (hrefl : ∀ s, R s s) (htrans : ∀ s₁ s₂ s₃, R s₁ s₂ → R s₂ s₃ → R s₁ s₃)
    (hbody : ∀ s a s', body s a = some s' → R s s') {turns : Nat} {s s' : σ}
    (h : forEachSafe c body turns s = some s') : R s s' := forEachSafeFrom_keeps hrefl htrans hbody h

omit [DecidableEq P] in
/-- One step after the other for the elements of a list. -/
theorem foldlM_keeps (hrefl : ∀ s, R s s) (htrans : ∀ s₁ s₂ s₃, R s₁ s₂ → R s₂ s₃ → R s₁ s₃)
    (hbody : ∀ s a s', body s a = some s' → R s s') :
    ∀ {as : List A} {s s' : σ}, as.foldlM body s = some s' → R s s'
  | [], s, s', h => by
      obtain rfl := Option.some.inj h
      exact hrefl s
  | a :: as, s, s', h => by
      rw [List.foldlM_cons] at h
      obtain ⟨s₁, hs₁, h⟩ := Option.bind_eq_some_iff.mp h
      exact htrans s s₁ s' (hbody s a s₁ hs₁) (foldlM_keeps hrefl htrans hbody h)

/-! ## A loop that ends

`I as s` says that the entries `as` are still ahead. -/

/-- The node of the first entry that is ahead, or the head. -/
def nodeAt (c : Cursor σ P A) (node : A → P) (as : List A) : P := (as.map node).headD c.head

variable {node : A → P} {I : List A → σ → Prop}

theorem forEachFrom_ends (hentry : ∀ a, c.entryOf (node a) = some a) (hhead : ∀ a, node a ≠ c.head)
    (hbody : ∀ a as s, I (a :: as) s →
      ∃ s', body s a = some s' ∧ I as s' ∧ c.next s' (node a) = nodeAt c node as) :
    ∀ {turns : Nat} {as : List A} {s : σ}, I as s → as.length < turns →
      ∃ s', forEachFrom c body turns s (nodeAt c node as) = some s' ∧ I [] s'
  | turns + 1, [], s, hi, _ => ⟨s, if_pos rfl, hi⟩
  | turns + 1, a :: as, s, hi, hlt => by
      obtain ⟨s₁, hs₁, hi₁, hnext⟩ := hbody a as s hi
      obtain ⟨s', hs', hi'⟩ := forEachFrom_ends hentry hhead hbody hi₁ (Nat.lt_of_succ_lt_succ hlt)
      refine ⟨s', ?_, hi'⟩
      have hpos : nodeAt c node (a :: as) = node a := rfl
      unfold forEachFrom
      rw [hpos, if_neg (hhead a), hentry, Option.bind_some, hs₁, Option.bind_some, hnext]
      exact hs'

theorem forEachSafeFrom_ends (hentry : ∀ a, c.entryOf (node a) = some a) (hhead : ∀ a, node a ≠ c.head)
    (hnext : ∀ a as s, I (a :: as) s → c.next s (node a) = nodeAt c node as)
    (hbody : ∀ a as s, I (a :: as) s → ∃ s', body s a = some s' ∧ I as s') :
    ∀ {turns : Nat} {as : List A} {s : σ}, I as s → as.length < turns →
      ∃ s', forEachSafeFrom c body turns s (nodeAt c node as) (c.next s (nodeAt c node as)) = some s' ∧ I [] s'
  | turns + 1, [], s, hi, _ => ⟨s, if_pos rfl, hi⟩
  | turns + 1, a :: as, s, hi, hlt => by
      obtain ⟨s₁, hs₁, hi₁⟩ := hbody a as s hi
      obtain ⟨s', hs', hi'⟩ := forEachSafeFrom_ends hentry hhead hnext hbody hi₁ (Nat.lt_of_succ_lt_succ hlt)
      refine ⟨s', ?_, hi'⟩
      have hpos : nodeAt c node (a :: as) = node a := rfl
      unfold forEachSafeFrom
      rw [hpos, if_neg (hhead a), hentry, Option.bind_some, hs₁, Option.bind_some, hnext a as s hi]
      exact hs'

/-- With a turn for every entry the loop ends. -/
theorem forEach_ends (c : Cursor σ P A) (node : A → P) (hentry : ∀ a, c.entryOf (node a) = some a) (hhead : ∀ a, node a ≠ c.head)
    (hbody : ∀ a as s, I (a :: as) s →
      ∃ s', body s a = some s' ∧ I as s' ∧ c.next s' (node a) = nodeAt c node as)
    {turns : Nat} {as : List A} {s : σ} (hi : I as s) (hfirst : c.next s c.head = nodeAt c node as)
    (hlt : as.length < turns) : ∃ s', forEach c body turns s = some s' ∧ I [] s' := by
  unfold forEach
  rw [hfirst]
  exact forEachFrom_ends hentry hhead hbody hi hlt

/-- With a turn for every entry the safe loop ends. -/
theorem forEachSafe_ends (c : Cursor σ P A) (node : A → P) (hentry : ∀ a, c.entryOf (node a) = some a) (hhead : ∀ a, node a ≠ c.head)
    (hnext : ∀ a as s, I (a :: as) s → c.next s (node a) = nodeAt c node as)
    (hbody : ∀ a as s, I (a :: as) s → ∃ s', body s a = some s' ∧ I as s')
    {turns : Nat} {as : List A} {s : σ} (hi : I as s) (hfirst : c.next s c.head = nodeAt c node as)
    (hlt : as.length < turns) : ∃ s', forEachSafe c body turns s = some s' ∧ I [] s' := by
  unfold forEachSafe
  rw [hfirst]
  exact forEachSafeFrom_ends hentry hhead hnext hbody hi hlt

omit [DecidableEq P] in
theorem foldlM_ends (I : List A → σ → Prop) (hbody : ∀ a as s, I (a :: as) s → ∃ s', body s a = some s' ∧ I as s') :
    ∀ {as : List A} {s : σ}, I as s → ∃ s', as.foldlM body s = some s' ∧ I [] s'
  | [], s, hi => ⟨s, rfl, hi⟩
  | a :: as, s, hi => by
      obtain ⟨s₁, hs₁, hi₁⟩ := hbody a as s hi
      obtain ⟨s', hs', hi'⟩ := foldlM_ends I hbody hi₁
      refine ⟨s', ?_, hi'⟩
      rw [List.foldlM_cons]
      exact Option.bind_eq_some_iff.mpr ⟨s₁, hs₁, hs'⟩

end Taomee.ListLoop
