import Mathlib.Data.List.MinMax
import Taomee.Dirty.Lemmas.Walk

/-!
# The replacement as a function of the words

All that a round asks of the automaton is the length of the longest word that ends what was read.
So a replacement is determined by the words that were compiled.
-/

namespace Taomee.Dirty

open Taomee.Words

/-- The length of the longest word that ends `u`. -/
def matchLength (W : List (List UInt8)) (u : List UInt8) : Option Nat :=
  ((W.filter fun w => w <:+ u).map List.length).max?

/-- The loop of a round over the words `W`, after `u` was read. -/
def matchLoop (W : List (List UInt8)) (r : Round) (n : Nat) :
    Nat → Buf → List UInt8 → Nat → Int → Option (Buf × Int)
  | 0, tc, _, _, flag => some (tc, flag)
  | fuel + 1, tc, u, t, flag =>
      if t < n then
        if r.keep (tc t) then
          match matchLength W (u ++ [tc t]) with
          | none => matchLoop W r n fuel tc (u ++ [tc t]) (t + 1) flag
          | some len =>
              let t' := if r.skip then skipFillers tc n t else t
              match walk r.count r.write (t' + 1) len tc with
              | none => none
              | some tc' => matchLoop W r n fuel tc' (u ++ [tc t]) (t' + 1) 1
        else matchLoop W r n fuel tc u (t + 1) flag
      else some (tc, flag)

/-- The replacement over the words `W`. -/
def matchReplace (W : List (List UInt8)) (tc tc1 : Buf) (tx : List UInt8) (n jumpTag : Int) :
    Option (List UInt8 × Int) :=
  if n > maxStrBuffer then some (tx, -1)
  else
    let tc := tc.store (stringReplace (maskTags tc1 tx n jumpTag) n)
    match matchLoop W roundFull n.toNat n.toNat tc [] 0 0 with
    | none => none
    | some (tc0, flag) =>
        match matchLoop W roundAlpha n.toNat n.toNat tc [] 0 flag with
        | none => none
        | some (tc1, flag) =>
            match matchLoop W roundOther n.toNat n.toNat tc [] 0 flag with
            | none => none
            | some (tc2, flag) => some (mergeStars tx n.toNat tc0 tc1 tc2, flag)

variable {W : List (List UInt8)} {a : AcsmStruct}

theorem matchLength_of_longest {u w : List UInt8} (h : LongestHit W u w) :
    matchLength W u = some w.length := by
  unfold matchLength
  rw [List.max?_eq_some_iff]
  constructor
  · exact List.mem_map_of_mem (List.mem_filter.mpr ⟨h.1, by simpa using h.2.1⟩)
  · intro k hk
    obtain ⟨v, hv, rfl⟩ := List.mem_map.mp hk
    obtain ⟨hvW, hvu⟩ := List.mem_filter.mp hv
    exact h.2.2 v hvW (by simpa using hvu)

theorem matchLength_of_not_hit {u : List UInt8} (h : ¬ Hit W u) : matchLength W u = none := by
  unfold matchLength
  rw [List.max?_eq_none_iff, List.map_eq_nil_iff, List.filter_eq_nil_iff]
  intro w hw hsuf
  exact h ⟨w, hw, by simpa using hsuf⟩

/-- A round of the automaton is the round over its words. -/
theorem Compiled.replaceLoop_eq (h : Compiled W a) (r : Round) (n fuel : Nat) : ∀ tc u t flag,
    replaceLoop a r n fuel tc (stateAfter a u) t flag = matchLoop W r n fuel tc u t flag := by
  induction fuel with
  | zero => exact fun _ _ _ _ => rfl
  | succ fuel ih =>
      intro tc u t flag
      unfold replaceLoop matchLoop
      have hstate : (a.acsmStateTable (stateAfter a u)).nextState (tc t) =
          stateAfter a (u ++ [tc t]) := (stateAfter_concat a _ _).symm
      simp only [hstate]
      rcases h.longest (u ++ [tc t]) with ⟨hm, hno⟩ | ⟨j, w, hj, hwj, hlong⟩
      · have hindex : ¬ (a.acsmStateTable (stateAfter a (u ++ [tc t]))).longestPatternIndex ≠ -1 :=
          not_not_intro hm
        rw [if_neg hindex, matchLength_of_not_hit hno, ih, ih]
      · have hindex : (a.acsmStateTable (stateAfter a (u ++ [tc t]))).longestPatternIndex = j := hj
        have hne : (j : Int) ≠ -1 := by omega
        have hlen : ((a.acsmPatterns j).n).toNat = w.length := by
          rw [(h.words.word j w hwj).1, Int.toNat_natCast]
        rw [hindex, if_pos hne, hlen, matchLength_of_longest hlong]
        refine ite_congr rfl (fun _ => ite_congr rfl (fun _ => ?_) fun _ => ih tc u (t + 1) flag) fun _ => rfl
        dsimp only
        generalize walk r.count r.write _ w.length tc = walked
        cases walked with
        | none => rfl
        | some tc' => exact ih tc' _ _ 1

theorem Compiled.replaceRound_eq (h : Compiled W a) (r : Round) (n : Nat) (tc : Buf) (flag : Int) :
    replaceRound a r n tc flag = matchLoop W r n n tc [] 0 flag := by
  unfold replaceRound
  rw [← h.replaceLoop_eq, stateAfter_nil]

/-- The replacement depends on the words only. -/
theorem Compiled.replace_eq (h : Compiled W a) (tc tc1 : Buf) (tx : List UInt8) (n jumpTag : Int) :
    acsmPatternReplace a tc tc1 tx n jumpTag = matchReplace W tc tc1 tx n jumpTag := by
  have hround : replaceRound a = fun r n tc flag => matchLoop W r n n tc [] 0 flag := by
    funext r n tc flag
    exact h.replaceRound_eq r n tc flag
  unfold acsmPatternReplace matchReplace
  rewrite [hround]
  rfl

end Taomee.Dirty
