import Mathlib.Data.List.Basic
import Mathlib.Logic.Function.Basic

/-!
# Programs that run side by side

A program asks the system that it shares with others, one call after the other, and goes on with the
answer. Between two calls the others may change what they like within the bounds of a relation, on which
the program relies; each call of its own keeps within what it guarantees to the others. What a program
establishes in this way it establishes in every interleaving.
-/

namespace Taomee

/-- A program whose call `c` is answered by an `Ans c`. -/
inductive Prog (C : Type) (Ans : C → Type) (α : Type) where
  | ret (a : α)
  | call (c : C) (next : Ans c → Prog C Ans α)

namespace Prog

variable {C : Type} {Ans : C → Type} {α β S I : Type}

def bind : Prog C Ans α → (α → Prog C Ans β) → Prog C Ans β
  | .ret a, f => f a
  | .call c next, f => .call c fun r => (next r).bind f

instance : Monad (Prog C Ans) where
  pure := .ret
  bind := bind

/-! ## Rely and guarantee -/

/-- From the state `s` on, with steps of `rely` by others, each call is a step of `guar`, and `post` holds
of the result from then on. -/
def Keeps (exec : S → (c : C) → Ans c → S → Prop) (rely guar : S → S → Prop) (post : α → S → Prop) :
    Prog C Ans α → S → Prop
  | .ret a, s => ∀ s', rely s s' → post a s'
  | .call c next, s => ∀ s', rely s s' → ∀ r s'', exec s' c r s'' →
      guar s' s'' ∧ (next r).Keeps exec rely guar post s''

variable {exec : S → (c : C) → Ans c → S → Prop} {rely guar : S → S → Prop} {s s' : S}

/-- Steps of others do not matter. -/
theorem Keeps.stable {post : α → S → Prop} (htrans : ∀ s₁ s₂ s₃, rely s₁ s₂ → rely s₂ s₃ → rely s₁ s₃) :
    ∀ {p : Prog C Ans α}, p.Keeps exec rely guar post s → rely s s' → p.Keeps exec rely guar post s'
  | .ret _, h, hr => fun s₂ hr₂ => h s₂ (htrans s s' s₂ hr hr₂)
  | .call _ _, h, hr => fun s₂ hr₂ => h s₂ (htrans s s' s₂ hr hr₂)

theorem Keeps.bind {mid : α → S → Prop} {post : β → S → Prop} (hrefl : ∀ s, rely s s) :
    ∀ {p : Prog C Ans α} {f : α → Prog C Ans β} {s : S}, p.Keeps exec rely guar mid s →
      (∀ a s', mid a s' → (f a).Keeps exec rely guar post s') → (p.bind f).Keeps exec rely guar post s
  | .ret a, _, s, h, hf => hf a s (h s (hrefl s))
  | .call _ _, _, _, h, hf => fun s' hs' r s'' hr =>
      ⟨(h s' hs' r s'' hr).1, Keeps.bind hrefl (h s' hs' r s'' hr).2 hf⟩

theorem Keeps.mono {post post' : α → S → Prop} (himp : ∀ a s, post a s → post' a s) :
    ∀ {p : Prog C Ans α} {s : S}, p.Keeps exec rely guar post s → p.Keeps exec rely guar post' s
  | .ret a, _, h => fun s' hs' => himp a s' (h s' hs')
  | .call _ _, _, h => fun s' hs' r s'' hr => ⟨(h s' hs' r s'' hr).1, (h s' hs' r s'' hr).2.mono himp⟩

/-- What neither the others nor the calls change holds in the end as well. -/
theorem Keeps.frame {post : α → S → Prop} {inv : S → Prop} (hrely : ∀ s s', inv s → rely s s' → inv s')
    (hguar : ∀ s s', inv s → guar s s' → inv s') : ∀ {p : Prog C Ans α} {s : S},
    p.Keeps exec rely guar post s → inv s → p.Keeps exec rely guar (fun a s' => post a s' ∧ inv s') s
  | .ret _, s, h, hi => fun s' hs' => ⟨h s' hs', hrely s s' hi hs'⟩
  | .call _ _, s, h, hi => fun s' hs' r s'' hr =>
      have hcall := h s' hs' r s'' hr
      ⟨hcall.1, hcall.2.frame hrely hguar (hguar s' s'' (hrely s s' hi hs') hcall.1)⟩

/-- One program after the other, where what comes after knows how the system has changed. -/
theorem Keeps.bind_rel {mid : α → S → Prop} {post : β → S → Prop} {R : S → S → Prop} (hrefl : ∀ s, rely s s)
    (hR : ∀ s, R s s) (hrely : ∀ s₁ s₂ s₃, R s₁ s₂ → rely s₂ s₃ → R s₁ s₃)
    (hguar : ∀ s₁ s₂ s₃, R s₁ s₂ → guar s₂ s₃ → R s₁ s₃) {p : Prog C Ans α} {f : α → Prog C Ans β}
    (h : p.Keeps exec rely guar mid s) (hf : ∀ a s', mid a s' → R s s' → (f a).Keeps exec rely guar post s') :
    (p.bind f).Keeps exec rely guar post s :=
  Keeps.bind hrefl (h.frame (hrely s) (hguar s) (hR s)) fun a s' h => hf a s' h.1 h.2

/-! ## Many programs -/

/-- One program makes its next call, or something happens beside the programs, which `env` allows. -/
inductive Step [DecidableEq I] (exec : I → S → (c : C) → Ans c → S → Prop) (env : S → S → Prop) :
    (I → Prog C Ans α) × S → (I → Prog C Ans α) × S → Prop
  | call {progs : I → Prog C Ans α} {s s' : S} {c : C} {r : Ans c} {next : Ans c → Prog C Ans α} (i : I) :
      progs i = .call c next → exec i s c r s' → Step exec env (progs, s) (Function.update progs i (next r), s')
  | env {progs : I → Prog C Ans α} {s s' : S} : env s s' → Step exec env (progs, s) (progs, s')

/-- One step after the other. -/
inductive Steps [DecidableEq I] (exec : I → S → (c : C) → Ans c → S → Prop) (env : S → S → Prop) :
    (I → Prog C Ans α) × S → (I → Prog C Ans α) × S → Prop
  | refl (x : (I → Prog C Ans α) × S) : Steps exec env x x
  | tail {x y z : (I → Prog C Ans α) × S} : Steps exec env x y → Step exec env y z → Steps exec env x z

section

variable [DecidableEq I] {execs : I → S → (c : C) → Ans c → S → Prop} {env : S → S → Prop}
variable {relies guars : I → S → S → Prop} {post : I → α → S → Prop} {x y : (I → Prog C Ans α) × S}

/-- What the programs keep under each other's steps they keep in every interleaving. -/
theorem keeps_of_steps (hrefl : ∀ i s, relies i s s)
    (htrans : ∀ i s₁ s₂ s₃, relies i s₁ s₂ → relies i s₂ s₃ → relies i s₁ s₃)
    (hothers : ∀ i j s s', i ≠ j → guars j s s' → relies i s s') (henv : ∀ i s s', env s s' → relies i s s')
    (h : ∀ i, (x.1 i).Keeps (execs i) (relies i) (guars i) (post i) x.2) (hs : Steps execs env x y) :
    ∀ i, (y.1 i).Keeps (execs i) (relies i) (guars i) (post i) y.2 := by
  induction hs with
  | refl => exact h
  | tail _ hstep ih =>
      intro j
      cases hstep with
      | @call progs s s' c r next i hi hexec =>
          have hcall : (progs i).Keeps (execs i) (relies i) (guars i) (post i) s := ih i
          rw [hi] at hcall
          obtain ⟨hguar, hnext⟩ := hcall s (hrefl i s) r s' hexec
          change (Function.update progs i (next r) j).Keeps (execs j) (relies j) (guars j) (post j) s'
          by_cases hj : j = i
          · subst hj
            rw [Function.update_self]
            exact hnext
          · rw [Function.update_of_ne hj]
            exact (ih j).stable (htrans j) (hothers j i s s' hj hguar)
      | env he => exact (ih j).stable (htrans j) (henv j _ _ he)

/-- What each call guarantees and the surroundings respect holds of the whole run. -/
theorem steps_keep {R : S → S → Prop} (hR : ∀ s, R s s) (hRtrans : ∀ s₁ s₂ s₃, R s₁ s₂ → R s₂ s₃ → R s₁ s₃)
    (hrefl : ∀ i s, relies i s s)
    (htrans : ∀ i s₁ s₂ s₃, relies i s₁ s₂ → relies i s₂ s₃ → relies i s₁ s₃)
    (hothers : ∀ i j s s', i ≠ j → guars j s s' → relies i s s') (henv : ∀ i s s', env s s' → relies i s s')
    (hguar : ∀ i s s', guars i s s' → R s s') (henvR : ∀ s s', env s s' → R s s')
    (h : ∀ i, (x.1 i).Keeps (execs i) (relies i) (guars i) (post i) x.2) (hs : Steps execs env x y) : R x.2 y.2 := by
  induction hs with
  | refl => exact hR _
  | tail hxy hstep ih =>
      refine hRtrans _ _ _ ih ?_
      cases hstep with
      | @call progs s s' c r next i hi hexec =>
          have hcall : (progs i).Keeps (execs i) (relies i) (guars i) (post i) s :=
            keeps_of_steps hrefl htrans hothers henv h hxy i
          rw [hi] at hcall
          exact hguar i s s' (hcall s (hrefl i s) r s' hexec).1
      | env he => exact henvR _ _ he

end

end Prog

end Taomee
