import Mathlib.Data.List.Basic
import Mathlib.Logic.Function.Basic
import Mathlib.Logic.Relation

/-!
# Entries whose callbacks are looked up again

An entry holds a callback and the index under which it is looked up again in a table, which is
emptied and filled anew when the code behind the callbacks is exchanged. An entry that is removed may
stay around. It keeps no callback and gets the index 0, under which nothing is ever registered.
-/

namespace Taomee

/-- What an entry holds. -/
structure Registry.Entry (C : Type) where
  callback : Option C
  index : Nat

/-- What happens to an entry. -/
inductive Registry.Mark (I : Type) where
  | removed (i : I)
  | called (i : I)
  deriving DecidableEq, Repr

/-- The entries that are there, the names given out so far, the entries that can be found by their
callback, the table, and what happened. -/
structure Registry (I C : Type) where
  entries : I → Option (Registry.Entry C)
  issued : I → Prop
  listed : I → Prop
  table : Nat → Option C
  marks : List (Registry.Mark I)

namespace Registry

variable {I C : Type}

/-- The names and the lists grow by at most the entries that `new` holds of. -/
structure Lists (r r' : Registry I C) (new : I → Prop) : Prop where
  issued : ∀ j, r'.issued j ↔ r.issued j ∨ new j
  listed : ∀ j, r'.listed j → r.listed j ∨ new j

/-- The entries and the names stay, and no entry is listed anew. -/
structure SameEntries (r r' : Registry I C) : Prop where
  entries : r'.entries = r.entries
  lists : Lists r r' fun _ => False

/-- The table and what happened stay. -/
structure SameTable (r r' : Registry I C) : Prop where
  table : r'.table = r.table
  marks : r'.marks = r.marks

/-- The steps, for a table of the given size. An entry that is added is new, only a listed one gets
another index, the index 0 is not registered. -/
inductive Step [DecidableEq I] (size : Nat) (r r' : Registry I C) : Prop
  | add (i : I) (e : Entry C) : ¬ r.issued i → e.index < size →
      r'.entries = Function.update r.entries i (some e) → Lists r r' (· = i) → SameTable r r' → Step size r r'
  | reindex (i : I) (e : Entry C) (index : Nat) : r.listed i → r.entries i = some e → index < size →
      r'.entries = Function.update r.entries i (some { e with index }) → Lists r r' (fun _ => False) →
      SameTable r r' → Step size r r'
  | reload (i : I) (e : Entry C) : r.entries i = some e →
      r'.entries = Function.update r.entries i (some { e with callback := r.table e.index }) →
      Lists r r' (fun _ => False) → SameTable r r' → Step size r r'
  | remove (i : I) (left : Option (Entry C)) : r.issued i → (∀ e, left = some e → e = ⟨none, 0⟩) →
      r'.entries = Function.update r.entries i left → Lists r r' (fun _ => False) → ¬ r'.listed i →
      r'.table = r.table → r'.marks = r.marks ++ [.removed i] → Step size r r'
  | call (i : I) (e : Entry C) : r.entries i = some e → e.callback ≠ none → SameEntries r r' →
      r'.table = r.table → r'.marks = r.marks ++ [.called i] → Step size r r'
  | register (n : Nat) (callback : Option C) : 0 < n → SameEntries r r' →
      r'.table = Function.update r.table n callback → r'.marks = r.marks → Step size r r'
  | unregister : SameEntries r r' → (∀ n, r'.table n = none) → r'.marks = r.marks → Step size r r'
  | rest : SameEntries r r' → SameTable r r' → Step size r r'

/-- What every run keeps. An entry that was removed can no more be found, holds nothing and would be
looked up under the index 0, and it was not called since. -/
structure Sound (size : Nat) (r : Registry I C) : Prop where
  zero : r.table 0 = none
  inTable : ∀ i e, r.entries i = some e → e.index < size
  gone : ∀ i, .removed i ∈ r.marks → r.issued i ∧ ¬ r.listed i ∧ ∀ e, r.entries i = some e → e = ⟨none, 0⟩
  never : ∀ before after i, r.marks = before ++ .removed i :: after → .called i ∉ after

variable {size : Nat} {r r' : Registry I C}

/-! ## What steps have in common -/

theorem Lists.stays (h : Lists r r' fun _ => False) {i : I} (hi : r.issued i ∧ ¬ r.listed i) :
    r'.issued i ∧ ¬ r'.listed i :=
  ⟨(h.issued i).mpr (.inl hi.1), fun hl => (h.listed i hl).elim hi.2 id⟩

/-- The order of what happened, with one more event at the end. -/
theorem never_concat {marks : List (Mark I)} {m : Mark I}
    (h : ∀ before after i, marks = before ++ .removed i :: after → .called i ∉ after)
    (hm : ∀ i, m = .called i → .removed i ∉ marks) :
    ∀ before after i, marks ++ [m] = before ++ .removed i :: after → .called i ∉ after := by
  intro before after i heq hcalled
  rcases List.eq_nil_or_concat after with rfl | ⟨after, last, rfl⟩
  · exact List.not_mem_nil hcalled
  · rw [List.concat_eq_append] at heq hcalled
    rw [← List.cons_append, ← List.append_assoc] at heq
    obtain ⟨hmarks, hlast⟩ := List.append_inj' heq rfl
    obtain rfl := List.singleton_inj.mp hlast
    rcases List.mem_append.mp hcalled with hin | hin
    · exact h before after i hmarks hin
    · refine hm i (List.mem_singleton.mp hin).symm ?_
      rw [hmarks]
      exact List.mem_append_right _ List.mem_cons_self

/-- One entry is set, to one that is in the table and empty if it was removed. -/
theorem Sound.setEntry [DecidableEq I] (h : Sound size r) {i : I} {e : Entry C} {new : I → Prop}
    (he : r'.entries = Function.update r.entries i (some e)) (hindex : e.index < size)
    (hgone : .removed i ∈ r.marks → e = ⟨none, 0⟩) (hnew : ∀ j, new j → ¬ r.issued j) (hl : Lists r r' new)
    (ht : SameTable r r') : Sound size r' where
  zero := by rw [ht.table]; exact h.zero
  inTable := by
    intro j e' hj
    rw [he, Function.update_apply] at hj
    by_cases hji : j = i
    · rw [if_pos hji] at hj
      exact Option.some.inj hj ▸ hindex
    · rw [if_neg hji] at hj
      exact h.inTable j e' hj
  gone := by
    intro j hj
    rw [ht.marks] at hj
    obtain ⟨hissued, hlisted, hempty⟩ := h.gone j hj
    refine ⟨(hl.issued j).mpr (.inl hissued), fun hl' => ?_, fun e' he' => ?_⟩
    · rcases hl.listed j hl' with hl' | hn
      · exact hlisted hl'
      · exact hnew j hn hissued
    · rw [he, Function.update_apply] at he'
      by_cases hji : j = i
      · rw [if_pos hji] at he'
        exact Option.some.inj he' ▸ hgone (hji ▸ hj)
      · rw [if_neg hji] at he'
        exact hempty e' he'
  never := by rw [ht.marks]; exact h.never

/-- No entry changes, and only an entry that was not removed is called. -/
theorem Sound.setRest (h : Sound size r) (hs : SameEntries r r') (h0 : r'.table 0 = none) {new : List (Mark I)}
    (hm : r'.marks = r.marks ++ new) (hnew : new = [] ∨ ∃ i, new = [.called i] ∧ .removed i ∉ r.marks) :
    Sound size r' where
  zero := h0
  inTable := by rw [hs.entries]; exact h.inTable
  gone := by
    intro i hi
    have hold : .removed i ∈ r.marks := by
      rw [hm] at hi
      rcases hnew with rfl | ⟨j, rfl, -⟩
      · simpa using hi
      · simpa using hi
    obtain ⟨hissued, hlisted, hempty⟩ := h.gone i hold
    obtain ⟨hissued', hlisted'⟩ := hs.lists.stays ⟨hissued, hlisted⟩
    exact ⟨hissued', hlisted', by rw [hs.entries]; exact hempty⟩
  never := by
    rw [hm]
    rcases hnew with rfl | ⟨i, rfl, hi⟩
    · rw [List.append_nil]
      exact h.never
    · refine never_concat h.never fun j hj => ?_
      rw [← Mark.called.inj hj]
      exact hi

/-! ## Runs -/

/-- A step keeps what holds of every run. -/
theorem Sound.step [DecidableEq I] (h0 : 0 < size) (h : Sound size r) (hs : Step size r r') : Sound size r' := by
  cases hs with
  | add i e hnew hindex he hl ht =>
      have hnone : ∀ j, j = i → ¬ r.issued j := by
        rintro j rfl
        exact hnew
      exact h.setEntry he hindex (fun hm => absurd (h.gone i hm).1 hnew) hnone hl ht
  | reindex i e index hlisted _ hindex he hl ht =>
      exact h.setEntry he hindex (fun hm => absurd hlisted (h.gone i hm).2.1) (fun _ => False.elim) hl ht
  | reload i e hi he hl ht =>
      refine h.setEntry he (h.inTable i e hi) (fun hm => ?_) (fun _ => False.elim) hl ht
      -- a removed entry is looked up under the index 0
      rw [(h.gone i hm).2.2 e hi, h.zero]
  | remove i left hissued hleft he hl hlisted ht hm =>
      refine ⟨by rw [ht]; exact h.zero, fun j e hj => ?_, fun j hj => ?_, ?_⟩
      · rw [he, Function.update_apply] at hj
        by_cases hji : j = i
        · rw [if_pos hji] at hj
          rw [hleft e hj]
          exact h0
        · rw [if_neg hji] at hj
          exact h.inTable j e hj
      · by_cases hji : j = i
        · subst hji
          refine ⟨(hl.issued j).mpr (.inl hissued), hlisted, fun e hj => ?_⟩
          rw [he, Function.update_self] at hj
          exact hleft e hj
        · have hold : .removed j ∈ r.marks := by
            rw [hm] at hj
            simpa [hji] using hj
          obtain ⟨hissued, hlisted, hempty⟩ := h.gone j hold
          obtain ⟨hissued', hlisted'⟩ := hl.stays ⟨hissued, hlisted⟩
          refine ⟨hissued', hlisted', fun e hj => ?_⟩
          rw [he, Function.update_of_ne hji] at hj
          exact hempty e hj
      · rw [hm]
        exact never_concat h.never fun _ => nofun
  | call i e hi hcb hsame ht hm =>
      refine h.setRest hsame (by rw [ht]; exact h.zero) hm (.inr ⟨i, rfl, fun hr => hcb ?_⟩)
      rw [(h.gone i hr).2.2 e hi]
  | register n cb hn hsame ht hm =>
      refine h.setRest hsame ?_ (by rw [hm, List.append_nil]) (.inl rfl)
      rw [ht, Function.update_of_ne (Nat.ne_of_lt hn)]
      exact h.zero
  | unregister hsame ht hm => exact h.setRest hsame (ht 0) (by rw [hm, List.append_nil]) (.inl rfl)
  | rest hsame ht =>
      exact h.setRest hsame (by rw [ht.table]; exact h.zero) (by rw [ht.marks, List.append_nil]) (.inl rfl)

/-- A run keeps it. -/
theorem Sound.steps [DecidableEq I] (h0 : 0 < size) (h : Sound size r)
    (hs : Relation.ReflTransGen (Step size) r r') : Sound size r' := by
  induction hs with
  | refl => exact h
  | tail _ hstep ih => exact ih.step h0 hstep

end Registry

end Taomee
