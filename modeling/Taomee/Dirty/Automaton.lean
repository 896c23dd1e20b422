import Taomee.Dirty.Lemmas.Compile

/-!
# The automaton finds the longest pattern that ends a text

`acsmCompile` on any stored patterns that fit into the table, whatever the table held before.
-/

namespace Taomee.Dirty

open Taomee.Words

variable {W : List (List UInt8)} {a : AcsmStruct}

/-- The pattern of a state names a longest one of the words `W` that end the text, or is -1. -/
def NamesLongest (W : List (List UInt8)) (a : AcsmStruct) (text : List UInt8) : Prop :=
  (a.longest (stateAfter a text) = -1 ↔ ∀ w ∈ W, ¬ w <:+ text) ∧
    (a.longest (stateAfter a text) ≠ -1 → ∃ j : Nat, a.longest (stateAfter a text) = j ∧
      ∃ w, W[j]? = some w ∧ w <:+ text ∧ ∀ v ∈ W, v <:+ text → v.length ≤ w.length)

theorem Compiled.namesLongest (h : Compiled W a) (text : List UInt8) : NamesLongest W a text := by
  rcases h.longest text with ⟨hnone, hno⟩ | ⟨j, w, hj, hw, -, hsuf, hlong⟩
  · refine ⟨⟨fun _ w hw hsuf => hno ⟨w, hw, hsuf⟩, fun _ => hnone⟩, fun hne => ?_⟩
    exact absurd hnone hne
  · have hmem : w ∈ W := List.mem_of_getElem? hw
    refine ⟨⟨fun hnone => ?_, fun hno => absurd hsuf (hno w hmem)⟩, fun _ => ⟨j, hj, w, hw, hsuf, hlong⟩⟩
    rw [hj] at hnone
    omega

/-- With the fuel that the states of the table need, a compile of non-empty patterns that fit into
the table returns 0, and the state after any text names a longest pattern that ends it. -/
theorem acsmCompile_namesLongest (a : AcsmStruct) (W : List (List UInt8)) (hW : HasWords a W)
    (hsize : 1 + (W.flatten.length : Int) ≤ maxState) (fuel : Nat) (hfuel : W.flatten.length ≤ fuel) :
    ∃ a', acsmCompile fuel a = some (a', 0) ∧ HasWords a' W ∧ ∀ text, NamesLongest W a' text := by
  obtain ⟨a0, str, a', hcompile, hbuilt, hW0, -, -⟩ := acsmCompile_spec hW hsize hfuel
  have hcompiled := hbuilt.compiled hW0
  exact ⟨a', hcompile, hcompiled.words, hcompiled.namesLongest⟩

/-- A handle that holds the patterns "he" and "she" in a table full of zeros. -/
def heShe : AcsmStruct :=
  { acsmNew with
    totalPattern := 2
    acsmPatterns := fun i =>
      if i = 0 then { patrn := (acsmNew.acsmPatterns 0).patrn.store [0x68, 0x65], n := 2 }
      else { patrn := (acsmNew.acsmPatterns 1).patrn.store [0x73, 0x68, 0x65], n := 3 } }

theorem heShe_hasWords : HasWords heShe [[0x68, 0x65], [0x73, 0x68, 0x65]] := by
  refine ⟨rfl, fun j w hw => ?_, by decide⟩
  rcases j with _ | _ | j
  · obtain rfl := Option.some.inj hw
    exact ⟨rfl, by decide⟩
  · obtain rfl := Option.some.inj hw
    exact ⟨rfl, by decide⟩
  · simp at hw

theorem acsmCompile_namesLongest_heShe : ∃ a', acsmCompile 5 heShe = some (a', 0) ∧
    HasWords a' [[0x68, 0x65], [0x73, 0x68, 0x65]] ∧
    ∀ text, NamesLongest [[0x68, 0x65], [0x73, 0x68, 0x65]] a' text :=
  acsmCompile_namesLongest heShe _ heShe_hasWords (by decide) 5 (by decide)

end Taomee.Dirty
