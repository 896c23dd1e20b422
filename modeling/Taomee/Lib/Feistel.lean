import Mathlib.Data.Prod.Basic
import Mathlib.Data.List.Basic

/-!
# Feistel networks

A round combines one half with a function of the other half and exchanges them. Running the rounds
backwards on the exchanged halves undoes them, whatever the round function is.
-/

namespace Taomee.Feistel

variable {α κ : Type*} {op : α → α → α} {f : κ → α → α}

/-- One round with the key `k`. -/
def round (op : α → α → α) (f : κ → α → α) (p : α × α) (k : κ) : α × α := (p.2, op p.1 (f k p.2))

/-- The rounds with the keys `ks`, one after the other. -/
def run (op : α → α → α) (f : κ → α → α) (ks : List κ) (p : α × α) : α × α := ks.foldl (round op f) p

@[simp] theorem run_nil (p : α × α) : run op f [] p = p := rfl

@[simp] theorem run_cons (k : κ) (ks : List κ) (p : α × α) :
    run op f (k :: ks) p = run op f ks (round op f p k) := rfl

theorem run_append (ks ls : List κ) (p : α × α) :
    run op f (ks ++ ls) p = run op f ls (run op f ks p) := List.foldl_append

/-- The rounds of the reversed keys undo the rounds of the keys. -/
theorem run_reverse (hop : ∀ a b, op (op a b) b = a) (ks : List κ) : ∀ p : α × α,
    run op f ks.reverse (run op f ks p).swap = p.swap := by
  induction ks with
  | nil => exact fun _ => rfl
  | cons k ks ih =>
      intro p
      rw [run_cons, List.reverse_cons, run_append, ih]
      simp only [round, hop, Prod.swap_prod_mk, run_nil, run_cons]
      rfl

/-- What a round keeps of both halves, the rounds keep. -/
theorem run_keeps {Q : α → Prop} (hQ : ∀ k a b, Q a → Q (op a (f k b))) (ks : List κ) : ∀ p : α × α,
    Q p.1 → Q p.2 → Q (run op f ks p).1 ∧ Q (run op f ks p).2 := by
  induction ks with
  | nil => exact fun _ h1 h2 => ⟨h1, h2⟩
  | cons k ks ih => exact fun p h1 h2 => ih _ h2 (hQ k _ _ h1)

/-- A change of both halves that the operation hands on and that the changed round function does not see. -/
theorem run_map (c : α → α) {f' : κ → α → α} (hop : ∀ a b, op (c a) b = c (op a b)) (ks : List κ)
    (hf : ∀ k ∈ ks, ∀ b, f' k (c b) = f k b) : ∀ p : α × α, run op f' ks (c p.1, c p.2) =
      (c (run op f ks p).1, c (run op f ks p).2) := by
  induction ks with
  | nil => exact fun _ => rfl
  | cons k ks ih =>
      intro p
      have hround : round op f' (c p.1, c p.2) k = (c (round op f p k).1, c (round op f p k).2) := by
        simp only [round, hf k List.mem_cons_self, hop]
      rw [run_cons, run_cons, hround]
      exact ih (fun k hk => hf k (List.mem_cons_of_mem _ hk)) _

end Taomee.Feistel
