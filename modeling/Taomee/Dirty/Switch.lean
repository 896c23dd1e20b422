import Taomee.Dirty.Attached
import Taomee.Dirty.Lemmas.Load
import Taomee.Dirty.Lemmas.Matcher
import Taomee.Dirty.Startup

/-!
# Loading again and again

The two handles are loaded in turn, each over what it held before. A load that fails leaves the handle in
use as it was. One that returns 0 switches to a handle that answers as its file alone says, unless a line
of the file has a negative length.
-/

namespace Taomee.Dirty

open Taomee.Words

/-! ## Runs -/

/-- The active handles have the same words and answer every query in the same way. -/
structure SameAnswers (hs hs' : Handles) : Prop where
  total : hs.active.totalPattern = hs'.active.totalPattern
  word : ∀ j : Nat, (j : Int) < hs.active.totalPattern →
    (hs.active.acsmPatterns j).word = (hs'.active.acsmPatterns j).word
  search : ∀ (tc1 : Buf) (m : List UInt8) (jumpTag : Int),
    acsmSearch hs.active tc1 m m.length jumpTag = acsmSearch hs'.active tc1 m m.length jumpTag
  replace : ∀ (tc tc1 : Buf) (m : List UInt8) (jumpTag : Int),
    acsmPatternReplace hs.active tc tc1 m m.length jumpTag = acsmPatternReplace hs'.active tc tc1 m m.length jumpTag

/-- Calls of `tm_dirty_load_new` on two zero-filled handles, and the file of the last one that returned 0. Those
files satisfy `Ok`. -/
inductive LoadRun (Ok : List UInt8 → Prop) : Handles → Option (List UInt8) → Prop
  | start : LoadRun Ok newHandles none
  | failed {hs hs' : Handles} {last file : Option (List UInt8)} {fuel : Nat} : LoadRun Ok hs last →
      tmDirtyLoadNew fuel hs file = some (hs', -1) → LoadRun Ok hs' last
  | loaded {hs hs' : Handles} {last : Option (List UInt8)} {content : List UInt8} {fuel : Nat} : LoadRun Ok hs last →
      Ok content → tmDirtyLoadNew fuel hs (some content) = some (hs', 0) → LoadRun Ok hs' (some content)

/-- The active handle is the first one, or it is the matcher of the words that are read from the file `last`, and
answers as every load of this file does, whatever that load finds in its handles. -/
def Serves (hs : Handles) : Option (List UInt8) → Prop
  | none => hs.active = newHandles.active
  | some content => (∃ fuel W, fileWords fuel content [] = some W ∧ Compiled W hs.active) ∧
      ∀ fuel hs₀ hs', FlagOk hs₀ → tmDirtyLoadNew fuel hs₀ (some content) = some (hs', 0) → SameAnswers hs hs'

variable {W : List (List UInt8)} {fuel fuel' : Nat} {hs hs' : Handles} {file last : Option (List UInt8)}

/-! ## The words decide -/

theorem sameAnswers_of_compiled (h : Compiled W hs.active) (h' : Compiled W hs'.active) : SameAnswers hs hs' where
  total := h.words.total.trans h'.words.total.symm
  word := by
    intro j hj
    have hlt : j < W.length := by
      have := h.words.total
      omega
    have hget := List.getElem?_eq_getElem hlt
    rw [(h.words.word j _ hget).2, (h'.words.word j _ hget).2]
  search := by
    intro tc1 m jumpTag
    by_cases hm : (m.length : Int) ≤ maxStrBuffer
    · rw [h.search_eq tc1 jumpTag hm, h'.search_eq tc1 jumpTag hm]
    · unfold acsmSearch
      rw [if_pos (Int.not_le.mp hm), if_pos (Int.not_le.mp hm)]
  replace := by
    intro tc tc1 m jumpTag
    rw [h.replace_eq, h'.replace_eq]

/-- More fuel reads the same words. -/
theorem fileWords_mono : ∀ {fuel fuel' : Nat} {file : List UInt8} {V : List (List UInt8)}, fuel ≤ fuel' →
    fileWords fuel file V = some W → fileWords fuel' file V = some W := by
  intro fuel
  induction fuel with
  | zero => exact fun _ h => nomatch h
  | succ fuel ih =>
      intro fuel' file V hle h
      cases fuel' with
      | zero => exact absurd hle (Nat.not_succ_le_zero fuel)
      | succ fuel' =>
          have hle := Nat.le_of_succ_le_succ hle
          unfold fileWords at h ⊢
          cases hstep : fileStep file with
          | stop =>
              rw [hstep] at h
              exact h
          | skip rest =>
              rw [hstep] at h
              exact ih hle h
          | line dirtyWord rest =>
              rw [hstep] at h
              dsimp only at h ⊢
              by_cases hzero : dirtyLen dirtyWord = 0
              · rw [if_pos hzero] at h ⊢
                exact ih hle h
              · rw [if_neg hzero] at h ⊢
                by_cases hfull : V.length ≥ 81920
                · rw [if_pos hfull] at h ⊢
                  exact h
                · rw [if_neg hfull] at h ⊢
                  exact ih hle h

/-- A clean file has its words whatever the handles hold. -/
theorem loaded_words {content : List UInt8} (hf : FlagOk hs) (hclean : CleanFile content)
    (h : tmDirtyLoadNew fuel hs (some content) = some (hs', 0)) :
    ∃ W, fileWords fuel content [] = some W ∧ Compiled W hs'.active := by
  have hresult := tmDirtyLoadNew_result hf (fun c hc => by rw [← Option.some.inj hc]; exact hclean) h
  cases hresult with
  | loaded _ hwords _ hcomp => exact ⟨_, hwords, hcomp⟩

/-! ## The run -/

/-- What a run keeps. -/
structure Switched (hs : Handles) (last : Option (List UInt8)) : Prop where
  flag : FlagOk hs
  first : last = none → hs.active = newHandles.active
  words : ∀ content, last = some content → CleanFile content ∧
    ∃ fuel W, fileWords fuel content [] = some W ∧ Compiled W hs.active

theorem LoadRun.switched (h : LoadRun CleanFile hs last) : Switched hs last := by
  induction h with
  | start => exact ⟨flagOk_newHandles, fun _ => rfl, (fun _ h => nomatch h)⟩
  | failed _ hload ih =>
      have hactive := ((tmDirtyLoadNew_switch ih.flag hload).resolve_right fun h => absurd h.1 (by decide)).2.2
      refine ⟨ih.flag.load hload, fun hlast => hactive.trans (ih.first hlast), fun content hlast => ?_⟩
      rw [hactive]
      exact ih.words content hlast
  | loaded _ hok hload ih =>
      refine ⟨ih.flag.load hload, (fun h => nomatch h), fun content hlast => ?_⟩
      obtain rfl := Option.some.inj hlast
      obtain ⟨W, hwords, hcomp⟩ := loaded_words ih.flag hok hload
      exact ⟨hok, _, W, hwords, hcomp⟩

theorem Switched.serves (h : Switched hs last) : Serves hs last := by
  cases last with
  | none => exact h.first rfl
  | some content =>
      obtain ⟨hclean, fuel₁, W, hwords, hcomp⟩ := h.words content rfl
      refine ⟨⟨fuel₁, W, hwords, hcomp⟩, fun fuel hs₀ hs' hf hload => ?_⟩
      obtain ⟨W', hwords', hcomp'⟩ := loaded_words hf hclean hload
      -- the two loads have had different fuel
      have hW := fileWords_mono (Nat.le_max_left fuel₁ fuel) hwords
      rw [fileWords_mono (Nat.le_max_right fuel₁ fuel) hwords'] at hW
      obtain rfl := Option.some.inj hW
      exact sameAnswers_of_compiled hcomp hcomp'

/-- After each call the active handle is the matcher of the file of the last call that returned 0, and a call that
fails leaves it as it was. A clean file whose words fit does not fail. -/
theorem loadRun_serves (hs : Handles) (last : Option (List UInt8)) (h : LoadRun CleanFile hs last) :
    Serves hs last ∧
      (∀ fuel file hs', tmDirtyLoadNew fuel hs file = some (hs', -1) → hs'.active = hs.active) ∧
      ∀ fuel content W, CleanFile content → fileWords fuel content [] = some W →
        1 + (W.flatten.length : Int) ≤ maxState → W.flatten.length ≤ fuel →
        ∃ hs', tmDirtyLoadNew fuel hs (some content) = some (hs', 0) := by
  refine ⟨h.switched.serves, fun fuel file hs' hload => ?_, fun fuel content W => tmDirtyLoadNew_of_words hs⟩
  exact ((tmDirtyLoadNew_switch h.switched.flag hload).resolve_right fun h => absurd h.1 (by decide)).2.2

/-! ## A line that begins with a NUL -/

/-- The word "AB", loaded into new handles. -/
theorem loadRun_serves_fileAB : ∃ hs, LoadRun CleanFile hs (some fileAB) ∧ Serves hs (some fileAB) ∧
    fileWords 4 fileAB [] = some [[0x41, 0x42]] := by
  obtain ⟨hs, hload, -⟩ := load_fileAB newHandles flagOk_newHandles
  have hrun : LoadRun CleanFile hs (some fileAB) := .loaded .start cleanFile_fileAB hload
  exact ⟨hs, hrun, (loadRun_serves hs _ hrun).1, by decide⟩

/-- A NUL and a newline. -/
def fileNul : List UInt8 := [0, newline]

/-- The two loads into new handles, the second one after a first that has failed, and what the second handle
says of the text "A". -/
def nulRuns : Option ((Int × Int × Int) × Int × Int) := do
  let (hs, ret) ← tmDirtyLoadNew 4 newHandles (some (fileNul ++ fileAB))
  let (hs', ret') ← tmDirtyLoadNew 4 hs (some fileNul)
  let (fresh, ret'') ← tmDirtyLoadNew 4 newHandles (some fileNul)
  return ((ret, ret', acsmSearch hs'.active (fun _ => 0) [0x41] 1 0),
    ret'', acsmSearch fresh.active (fun _ => 0) [0x41] 1 0)

theorem nulRuns_eq : nulRuns = some ((-1, 0, 0), 0, 3) := by decide +kernel

/-- A file that begins with a NUL is not always loaded over what the handle held: after a load of a NUL and of "AB"
that fails, a load of a NUL alone finds no word in "A", where in new handles it does. -/
theorem not_loadRun_serves : ¬ ∀ hs last, LoadRun (fun _ => True) hs last → Serves hs last := by
  intro h
  have hruns := nulRuns_eq
  unfold nulRuns at hruns
  cases h₁ : tmDirtyLoadNew 4 newHandles (some (fileNul ++ fileAB)) with
  | none =>
      rw [h₁] at hruns
      cases hruns
  | some r₁ =>
      obtain ⟨hs₁, ret₁⟩ := r₁
      cases h₂ : tmDirtyLoadNew 4 hs₁ (some fileNul) with
      | none =>
          simp only [h₁, h₂, Option.bind_eq_bind, Option.bind_some, Option.bind_none] at hruns
          cases hruns
      | some r₂ =>
          obtain ⟨hs₂, ret₂⟩ := r₂
          cases h₃ : tmDirtyLoadNew 4 newHandles (some fileNul) with
          | none =>
              simp only [h₁, h₂, h₃, Option.bind_eq_bind, Option.bind_some, Option.bind_none] at hruns
              cases hruns
          | some r₃ =>
              obtain ⟨fresh, ret₃⟩ := r₃
              simp only [h₁, h₂, h₃, Option.bind_eq_bind, Option.bind_some, Option.pure_def, Option.some.injEq,
                Prod.mk.injEq] at hruns
              obtain ⟨⟨rfl, rfl, hfound⟩, rfl, hfresh⟩ := hruns
              have hrun : LoadRun (fun _ => True) hs₂ (some fileNul) := .loaded (.failed .start h₁) trivial h₂
              have hsame := ((h hs₂ _ hrun).2 4 newHandles fresh flagOk_newHandles h₃).search (fun _ => 0) [0x41] 0
              rw [show (([0x41] : List UInt8).length : Int) = 1 from rfl, hfound, hfresh] at hsame
              exact absurd hsame (by decide)

end Taomee.Dirty
