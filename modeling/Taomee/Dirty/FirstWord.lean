import Taomee.Dirty.Automaton
import Taomee.Dirty.Tags

/-!
# acsm_get_first_dirty_word (tm_dirty/acsm.c)

A second copy of the three rounds of `acsmSearch`, which hands out the word that it stops at. On the
same masked text the two take the same branches. Their masked texts are the same unless bytes behind
65536 open brackets are never written.
-/

namespace Taomee.Dirty

open Taomee.Words

/-- One round: the `longest_pattern_index` of the state at which it stops. -/
def firstRound (acsm : AcsmStruct) (keep : UInt8 → Bool) : Int → List UInt8 → Option Int
  | _, [] => none
  | state, c :: rest =>
      if keep c then
        let state := (acsm.acsmStateTable state).nextState c
        let index := (acsm.acsmStateTable state).longestPatternIndex
        if index ≠ -1 then some index else firstRound acsm keep state rest
      else firstRound acsm keep state rest

/-- `if (retbuf != NULL) memcpy(retbuf, acsm->acsmPatterns[index].patrn, MAX_KEYWORD_LEN)`. -/
def copyPatrn (acsm : AcsmStruct) (retbuf : Option Buf) (index : Int) : Option Buf :=
  retbuf.map fun buf => buf.store ((acsm.acsmPatterns index).patrn.toList maxKeywordLen.toNat)

/-- `acsm_get_first_dirty_word(acsm, Tx, n, retbuf, jump_tag)`: the return value, and `retbuf`. -/
def acsmGetFirstDirtyWord (acsm : AcsmStruct) (tc1 : Buf) (tx : List UInt8) (n : Int) (retbuf : Option Buf)
    (jumpTag : Int) : Int × Option Buf :=
  if n > maxStrBuffer then (-1, retbuf)
  else
    let (tc, newN) := stringFilter (maskTags tc1 tx n jumpTag) n 0
    let t := tc.take newN.toNat
    match firstRound acsm (fun _ => true) 0 t with
    | some index => (3, copyPatrn acsm retbuf index)
    | none =>
        match firstRound acsm isAsciiAlpha 0 t with
        | some index => (1, copyPatrn acsm retbuf index)
        | none =>
            match firstRound acsm (fun c => !isAsciiAlpha c) 0 t with
            | some index => (2, copyPatrn acsm retbuf index)
            | none => (0, retbuf)

/-! ## The same branches -/

theorem firstRound_isSome (a : AcsmStruct) (keep : UInt8 → Bool) (t : List UInt8) : ∀ state,
    (firstRound a keep state t).isSome = searchRound a keep state t := by
  induction t with
  | nil => exact fun _ => rfl
  | cons c t ih =>
      intro state
      unfold firstRound searchRound
      split
      · dsimp only
        split
        · rfl
        · exact ih _
      · exact ih _

/-- On one content of its array the copy returns what the check returns. -/
theorem acsmGetFirstDirtyWord_code (a : AcsmStruct) (tc1 : Buf) (tx : List UInt8) (n : Int)
    (retbuf : Option Buf) (jumpTag : Int) :
    (acsmGetFirstDirtyWord a tc1 tx n retbuf jumpTag).1 = acsmSearch a tc1 tx n jumpTag := by
  unfold acsmGetFirstDirtyWord acsmSearch
  split
  · rfl
  · rcases stringFilter (maskTags tc1 tx n jumpTag) n 0 with ⟨tc, newN⟩
    dsimp only
    simp only [← firstRound_isSome]
    cases firstRound a (fun _ => true) 0 (tc.take newN.toNat) with
    | some index => rfl
    | none =>
        cases firstRound a isAsciiAlpha 0 (tc.take newN.toNat) with
        | some index => rfl
        | none =>
            cases firstRound a (fun c => !isAsciiAlpha c) 0 (tc.take newN.toNat) with
            | some index => rfl
            | none => rfl

/-! ## The word at which a round stops -/

variable {W : List (List UInt8)} {a : AcsmStruct}

/-- `w` is a longest word that ends where the first word of `t` ends. -/
def FirstWord (W : List (List UInt8)) (t w : List UInt8) : Prop :=
  ∃ u, u <+: t ∧ LongestHit W u w ∧ ∀ v, v <+: t → Hit W v → u.length ≤ v.length

/-- A round that stops, behind the text `u` in which no word ends. -/
theorem firstRound_some (h : Compiled W a) (keep : UInt8 → Bool) (t : List UInt8) : ∀ {u index},
    firstRound a keep (stateAfter a u) t = some index → (∀ v, v <+: u → ¬ Hit W v) →
    ∃ (j : Nat) (w : List UInt8), index = j ∧ W[j]? = some w ∧ FirstWord W (u ++ t.filter keep) w := by
  induction t with
  | nil =>
      intro u index hfirst _
      cases hfirst
  | cons c t ih =>
      intro u index hfirst hno
      unfold firstRound at hfirst
      cases hc : keep c with
      | false =>
          rw [if_neg (by simp [hc])] at hfirst
          rw [List.filter_cons_of_neg (by simp [hc])]
          exact ih hfirst hno
      | true =>
          rw [if_pos hc] at hfirst
          rw [List.filter_cons_of_pos hc]
          have hstate : (a.acsmStateTable (stateAfter a u)).nextState c = stateAfter a (u ++ [c]) :=
            (stateAfter_concat a _ _).symm
          simp only [hstate] at hfirst
          rcases h.longest (u ++ [c]) with ⟨hm, hnohit⟩ | ⟨j, w, hj, hwj, hlong⟩
          · have hindex : ¬ (a.acsmStateTable (stateAfter a (u ++ [c]))).longestPatternIndex ≠ -1 :=
              not_not_intro hm
            rw [if_neg hindex] at hfirst
            have hno' : ∀ v, v <+: u ++ [c] → ¬ Hit W v := by
              intro v hv
              rcases List.prefix_concat_iff.mp hv with rfl | hv
              · exact hnohit
              · exact hno v hv
            rw [List.append_cons]
            exact ih hfirst hno'
          · have hindex : (a.acsmStateTable (stateAfter a (u ++ [c]))).longestPatternIndex = j := hj
            have hne : (j : Int) ≠ -1 := by omega
            rw [hindex, if_pos hne, Option.some.injEq] at hfirst
            refine ⟨j, w, hfirst.symm, hwj, u ++ [c], ⟨t.filter keep, by simp⟩, hlong, fun v hv hhit => ?_⟩
            · -- a prefix that is shorter is one of `u`
              by_contra hlt
              refine hno v (List.prefix_of_prefix_length_le hv (List.prefix_append _ _) ?_) hhit
              rw [List.length_append, List.length_singleton] at hlt
              omega

/-! ## Patterns as C strings -/

/-- Every stored pattern ends with a zero byte. -/
def Terminated (a : AcsmStruct) : Prop :=
  ∀ j : Nat, (j : Int) < a.totalPattern →
    (a.acsmPatterns j).n.toNat ≤ 255 ∧ (a.acsmPatterns j).patrn (a.acsmPatterns j).n.toNat = 0

theorem Terminated.acsmAddPattern {W : List (List UInt8)} (h : Terminated a) (hW : HasWords a W)
    (hroom : W.length < 81920) (pat : List UInt8) {n : Int} (h0 : 0 ≤ n) (hn : n ≤ pat.length) :
    Terminated (acsmAddPattern a pat n).1 := by
  have htotal : a.totalPattern < maxPatterns := by
    rw [hW.total]
    unfold maxPatterns
    omega
  have hnat : a.totalPattern = (W.length : Nat) := hW.total
  have hlen := storedWord_length_le (pat.take n.toNat)
  rw [acsmAddPattern_eq htotal pat h0 hn]
  generalize storedWord (pat.take n.toNat) = d at hlen
  by_cases hnil : d = []
  · rw [if_pos hnil]
    intro j hj
    have hj : (j : Int) < a.totalPattern := by simpa using hj
    simp only [AcsmStruct.setPattern, Int.ne_of_lt hj, ↓reduceIte]
    exact h j hj
  · rw [if_neg hnil]
    intro j hj
    have hj : (j : Int) < a.totalPattern + 1 := hj
    rcases Int.lt_or_eq_of_le (Int.lt_add_one_iff.mp hj) with hlt | heq
    · simp only [AcsmStruct.setPattern, Int.ne_of_lt hlt, ↓reduceIte]
      exact h j hlt
    · simp only [AcsmStruct.setPattern, heq, ↓reduceIte, Int.toNat_natCast]
      exact ⟨hlen, Buf.set_self _ _ _⟩

theorem Terminated.addPatterns (words : List (List UInt8)) : ∀ {a : AcsmStruct} {W : List (List UInt8)},
    Terminated a → HasWords a W → W.length + words.length ≤ 81920 → Terminated (addPatterns a words) := by
  induction words with
  | nil => exact fun h _ _ => h
  | cons w words ih =>
      intro a W h hW hlen
      rw [List.length_cons] at hlen
      have hnext := (acsmAddPattern_spec hW (by omega) w (n := w.length) (by omega) (Int.le_refl _)).2.2
      refine ih (h.acsmAddPattern hW (by omega) w (by omega) (Int.le_refl _)) hnext ?_
      have := List.length_filter_le (fun w => decide (w ≠ [])) [storedWord (w.take (w.length : Int).toNat)]
      rw [List.length_singleton] at this
      rw [List.length_append]
      omega

theorem Terminated.congr {a' : AcsmStruct} (h : Terminated a) (hp : a'.acsmPatterns = a.acsmPatterns)
    (ht : a'.totalPattern = a.totalPattern) : Terminated a' := by
  unfold Terminated
  rw [hp, ht]
  exact h

theorem acsmCompile_patterns {a a' : AcsmStruct} {W : List (List UInt8)} (hW : HasWords a W)
    (hsize : 1 + (W.flatten.length : Int) ≤ maxState) {fuel : Nat} (hfuel : W.flatten.length ≤ fuel)
    (hc : acsmCompile fuel a = some (a', 0)) :
    a'.acsmPatterns = a.acsmPatterns ∧ a'.totalPattern = a.totalPattern := by
  obtain ⟨a0, str, a'', hc', hb, h0, -, hadd⟩ := acsmCompile_spec hW hsize hfuel
  obtain rfl : a' = a'' := by
    have := hc.symm.trans hc'
    simpa using this
  have hsum : sumLengths a a.totalPattern.toNat 0 = W.flatten.length := by
    rw [hW.total]
    simpa using sumLengths_spec W (P := []) hW
  have hinit : HasWords (acsmCompileInit a) W := ⟨hW.total, hW.word, hW.nonempty⟩
  have hmax : (acsmCompileInit a).acsmMaxStates = 1 + sumLengths a a.totalPattern.toNat 0 := rfl
  obtain ⟨a0', _, hadd', -, hf⟩ := addAllPatterns_spec W (P := []) (trieInv_init hW) hinit
    (by rw [hmax, hsum, List.nil_append]; omega)
  obtain rfl : a0 = a0' := (Prod.mk.inj (hadd.symm.trans hadd')).1
  exact ⟨hb.frame.patterns.trans hf.patterns, hb.frame.total.trans hf.total⟩

/-- `buf` holds the C string `w`. -/
def HoldsString (buf : Buf) (w : List UInt8) : Prop := buf.toList w.length = w ∧ buf w.length = 0

theorem copyPatrn_word (h : HasWords a W) (ht : Terminated a) (retbuf : Buf) {j : Nat} {w : List UInt8}
    (hj : W[j]? = some w) : ∃ buf, copyPatrn a (some retbuf) j = some buf ∧ HoldsString buf w := by
  obtain ⟨hn, hw⟩ := h.word j w hj
  have hlt : (j : Int) < a.totalPattern := by
    rw [h.total]
    have := (List.getElem?_eq_some_iff.mp hj).1
    omega
  obtain ⟨hlen, hzero⟩ := ht j hlt
  unfold AcsmPattern.word at hw
  rw [hn, Int.toNat_natCast] at hlen hzero hw
  have hcopy : ∀ i, i < 256 →
      retbuf.store ((a.acsmPatterns j).patrn.toList maxKeywordLen.toNat) i = (a.acsmPatterns j).patrn i := by
    intro i hi
    unfold Buf.store
    rw [Buf.getElem?_toList _ (n := maxKeywordLen.toNat) hi]
    rfl
  refine ⟨_, rfl, (Buf.toList_congr fun i hi => hcopy i (by omega)).trans hw, ?_⟩
  exact (hcopy _ (by omega)).trans hzero

/-! ## The two queries -/

/-- The bytes of a filtered text that the round with the result `ret` reads. -/
def projection (ret : Int) (t : List UInt8) : List UInt8 :=
  if ret = 3 then t else if ret = 1 then letters t else nonLetters t

theorem Compiled.firstDirtyWord (h : Compiled W a) (ht : Terminated a) (tc1 : Buf) {m : List UInt8}
    (jumpTag : Int) (hm : (m.length : Int) ≤ maxStrBuffer) (retbuf : Buf) :
    ∃ buf, acsmGetFirstDirtyWord a tc1 m m.length (some retbuf) jumpTag =
        (acsmSearch a tc1 m m.length jumpTag, some buf) ∧
      (acsmSearch a tc1 m m.length jumpTag ≠ 0 → ∃ w ∈ W, HoldsString buf w ∧
        FirstWord W (projection (acsmSearch a tc1 m m.length jumpTag) (filtered (queryText tc1 m jumpTag))) w) := by
  have hcode := acsmGetFirstDirtyWord_code a tc1 m m.length (some retbuf) jumpTag
  rw [← hcode]
  have hd : stringFilter (maskTags tc1 m m.length jumpTag) m.length 0 =
      (filtered (queryText tc1 m jumpTag), ((filtered (queryText tc1 m jumpTag)).length : Int)) := by
    have hlen := queryText_length tc1 m jumpTag
    unfold queryText at hlen ⊢
    rw [stringFilter_eq (Int.natCast_nonneg _) (by omega), Int.toNat_natCast, List.take_of_length_le (by omega)]
  generalize filtered (queryText tc1 m jumpTag) = t at hd ⊢
  have hstop : ∀ {keep : UInt8 → Bool} {index : Int}, firstRound a keep 0 t = some index →
      ∃ buf, copyPatrn a (some retbuf) index = some buf ∧
        ∃ w ∈ W, HoldsString buf w ∧ FirstWord W (t.filter keep) w := by
    intro keep index hfirst
    obtain ⟨j, w, rfl, hj, hw⟩ := firstRound_some h keep t (u := []) hfirst fun v hv => by
      rw [List.prefix_nil.mp hv]
      exact h.not_hit_nil
    obtain ⟨buf, hcopy, hbuf⟩ := copyPatrn_word h.words ht retbuf hj
    exact ⟨buf, hcopy, w, List.mem_of_getElem? hj, hbuf, hw⟩
  unfold acsmGetFirstDirtyWord
  rw [if_neg (Int.not_lt.mpr hm)]
  simp only [hd, Int.toNat_natCast, List.take_length]
  cases h3 : firstRound a (fun _ => true) 0 t with
  | some index =>
      obtain ⟨buf, hcopy, w, hw, hbuf, hfirst⟩ := hstop h3
      rw [List.filter_true] at hfirst
      exact ⟨buf, congrArg (Prod.mk _) hcopy, fun _ => ⟨w, hw, hbuf, hfirst⟩⟩
  | none =>
      cases h1 : firstRound a isAsciiAlpha 0 t with
      | some index =>
          obtain ⟨buf, hcopy, w, hw, hbuf, hfirst⟩ := hstop h1
          exact ⟨buf, congrArg (Prod.mk _) hcopy, fun _ => ⟨w, hw, hbuf, hfirst⟩⟩
      | none =>
          cases h2 : firstRound a (fun c => !isAsciiAlpha c) 0 t with
          | some index =>
              obtain ⟨buf, hcopy, w, hw, hbuf, hfirst⟩ := hstop h2
              exact ⟨buf, congrArg (Prod.mk _) hcopy, fun _ => ⟨w, hw, hbuf, hfirst⟩⟩
          | none => exact ⟨retbuf, rfl, fun hne => absurd rfl hne⟩

/-- The first-word query agrees with the check, whatever the automatic arrays of the two calls hold, and
hands out the first word. -/
def FirstAgrees (W : List (List UInt8)) (a : AcsmStruct) (m : List UInt8) (jumpTag : Int) : Prop :=
  ∀ tc1 tc1' retbuf,
    (acsmGetFirstDirtyWord a tc1 m m.length none jumpTag).1 = acsmSearch a tc1' m m.length jumpTag ∧
    ∃ buf, acsmGetFirstDirtyWord a tc1 m m.length (some retbuf) jumpTag =
        (acsmSearch a tc1' m m.length jumpTag, some buf) ∧
      (acsmSearch a tc1' m m.length jumpTag ≠ 0 → ∃ w ∈ W, HoldsString buf w ∧
        FirstWord W (projection (acsmSearch a tc1' m m.length jumpTag) (filtered (queryText tc1 m jumpTag))) w)

/-- What the bytes that are never written hold does not matter for which of the three texts a word
occurs in first. -/
def Unaffected (W : List (List UInt8)) (m : List UInt8) (jumpTag : Int) : Prop :=
  ∀ tc1 tc1', let t := filtered (queryText tc1 m jumpTag)
    let t' := filtered (queryText tc1' m jumpTag)
    (Occurs W t ↔ Occurs W t') ∧
      (¬ Occurs W t → (Occurs W (letters t) ↔ Occurs W (letters t')) ∧
        (¬ Occurs W (letters t) → (Occurs W (nonLetters t) ↔ Occurs W (nonLetters t'))))

theorem verdict_eq_iff (t t' : List UInt8) : verdict W t = verdict W t' ↔
    (Occurs W t ↔ Occurs W t') ∧
      (¬ Occurs W t → (Occurs W (letters t) ↔ Occurs W (letters t')) ∧
        (¬ Occurs W (letters t) → (Occurs W (nonLetters t) ↔ Occurs W (nonLetters t')))) := by
  unfold verdict
  by_cases c3 : Occurs W t <;> by_cases c3' : Occurs W t' <;> by_cases c1 : Occurs W (letters t) <;>
    by_cases c1' : Occurs W (letters t') <;> by_cases c2 : Occurs W (nonLetters t) <;>
    by_cases c2' : Occurs W (nonLetters t') <;> simp [c3, c3', c1, c1', c2, c2']

/-- The two agree exactly when the bytes that are never written do not matter. -/
theorem Compiled.firstAgrees_iff (h : Compiled W a) (ht : Terminated a) {m : List UInt8} (jumpTag : Int)
    (hm : (m.length : Int) ≤ maxStrBuffer) : FirstAgrees W a m jumpTag ↔ Unaffected W m jumpTag := by
  have hsearch : ∀ tc1, acsmSearch a tc1 m m.length jumpTag = verdict W (filtered (queryText tc1 m jumpTag)) :=
    fun tc1 => h.search_eq tc1 jumpTag hm
  constructor
  · intro hall tc1 tc1'
    refine (verdict_eq_iff _ _).mp ?_
    rw [← hsearch, ← hsearch, ← (hall tc1 tc1' tc1).1, acsmGetFirstDirtyWord_code]
  · intro hsame tc1 tc1' retbuf
    have heq : acsmSearch a tc1' m m.length jumpTag = acsmSearch a tc1 m m.length jumpTag := by
      rw [hsearch, hsearch]
      exact ((verdict_eq_iff _ _).mpr (hsame tc1 tc1')).symm
    rw [heq, acsmGetFirstDirtyWord_code]
    exact ⟨rfl, h.firstDirtyWord ht tc1 jumpTag hm retbuf⟩

/-- With tags masked in full every byte is written. -/
theorem queryText_eq {m : List UInt8} {jumpTag : Int}
    (h : jumpTag ≠ 0 → opensBelow 65536 0 m.dropLast = true) (tc1 tc1' : Buf) :
    queryText tc1 m jumpTag = queryText tc1' m jumpTag := by
  unfold queryText maskTags
  split
  · rename_i hj
    refine Buf.toList_congr fun i hi => ?_
    rw [Int.toNat_natCast] at hi
    have hmasks := (replaceCharInAngleBrackets_masks m).mpr (h hj)
    by_cases hin : InTag m i
    · rw [(hmasks tc1 i hi).1 hin, (hmasks tc1' i hi).1 hin]
    · rw [(hmasks tc1 i hi).2 hin, (hmasks tc1' i hi).2 hin]
  · rfl

/-- The first-word query agrees with the check exactly when the bytes that are never written do not
matter, so whenever fewer than 65536 brackets are open at any time before the last byte, or tags are
not looked at. -/
theorem acsmGetFirstDirtyWord_agrees (a : AcsmStruct) (words : List (List UInt8)) (ha : a.totalPattern = 0)
    (hwords : words.length ≤ 81920)
    (hsize : 1 + ((storedWords words).flatten.length : Int) ≤ maxState) :
    ∃ F, ∀ fuel, F ≤ fuel → ∃ a', acsmCompile fuel (addPatterns a words) = some (a', 0) ∧
      ∀ (m : List UInt8) (jumpTag : Int), (m.length : Int) ≤ maxStrBuffer →
        ((jumpTag ≠ 0 → opensBelow 65536 0 m.dropLast = true) → Unaffected (storedWords words) m jumpTag) ∧
        (FirstAgrees (storedWords words) a' m jumpTag ↔ Unaffected (storedWords words) m jumpTag) := by
  obtain ⟨F, hF⟩ := compiled_of_words a words ha hwords hsize
  have hterm : Terminated (addPatterns a words) := by
    refine Terminated.addPatterns words (fun j hj => ?_) (hasWords_nil ha) (by simpa using hwords)
    rw [ha] at hj
    omega
  have hstored : HasWords (addPatterns a words) (storedWords words) := by
    simpa using addPatterns_words words (hasWords_nil ha) (by simpa using hwords)
  refine ⟨max F (storedWords words).flatten.length, fun fuel hfuel => ?_⟩
  obtain ⟨a', hc, hcomp⟩ := hF fuel ((Nat.le_max_left _ _).trans hfuel)
  obtain ⟨hpat, htot⟩ := acsmCompile_patterns hstored hsize ((Nat.le_max_right _ _).trans hfuel) hc
  refine ⟨a', hc, fun m jumpTag hm => ⟨fun hopen tc1 tc1' => ?_,
    hcomp.firstAgrees_iff (hterm.congr hpat htot) jumpTag hm⟩⟩
  rw [queryText_eq hopen tc1 tc1']
  exact ⟨Iff.rfl, fun _ => ⟨Iff.rfl, fun _ => Iff.rfl⟩⟩

/-- The words "he" and "she" and the message "ashe". -/
theorem acsmGetFirstDirtyWord_agrees_he_she :
    ∃ F, ∀ fuel, F ≤ fuel → ∃ a',
      acsmCompile fuel (addPatterns acsmNew [[0x68, 0x65], [0x73, 0x68, 0x65]]) = some (a', 0) ∧
      FirstAgrees (storedWords [[0x68, 0x65], [0x73, 0x68, 0x65]]) a' [0x61, 0x73, 0x68, 0x65] 1 := by
  obtain ⟨F, hF⟩ := acsmGetFirstDirtyWord_agrees acsmNew [[0x68, 0x65], [0x73, 0x68, 0x65]] rfl (by decide)
    (by decide)
  refine ⟨F, fun fuel hfuel => ?_⟩
  obtain ⟨a', hc, h⟩ := hF fuel hfuel
  obtain ⟨hsame, hiff⟩ := h [0x61, 0x73, 0x68, 0x65] 1 (by decide)
  exact ⟨a', hc, hiff.mpr (hsame fun _ => by decide)⟩

/-! ## Behind 65536 open brackets -/

theorem bracketLoop_open (k : Nat) : ∀ {i : Nat} {loc : List Nat} {d : Buf} (s : List UInt8),
    loc.length + k = 65535 → bracketLoop (List.replicate (k + 1) lessThan ++ s) i loc d =
      fun j => if i ≤ j ∧ j < i + (k + 1) then lessThan else d j := by
  induction k with
  | zero =>
      intro i loc d s hlen
      show bracketLoop (lessThan :: s) i loc d = _
      unfold bracketLoop
      rw [if_pos rfl, if_pos (show (i :: loc).length ≥ 65536 by rw [List.length_cons]; omega)]
      funext j
      exact if_congr (by omega) rfl rfl
  | succ k ih =>
      intro i loc d s hlen
      rw [List.replicate_succ, List.cons_append]
      unfold bracketLoop
      rw [if_pos rfl, if_neg (show ¬ (i :: loc).length ≥ 65536 by rw [List.length_cons]; omega),
        ih s (by rw [List.length_cons]; omega)]
      funext j
      by_cases hj : j = i
      · subst hj
        rw [if_neg (by omega), if_pos (by omega), Buf.set_self]
      · rw [Buf.set_ne _ _ hj]
        exact if_congr (by omega) rfl rfl

/-- The text that a query of the message "<..<A" works on. -/
theorem queryText_open {k : Nat} (hk : k = 65535) (x : UInt8) :
    queryText (fun _ => x) (List.replicate (k + 1) lessThan ++ [0x41]) 1 =
      List.replicate (k + 1) lessThan ++ [x] := by
  have hlen : (List.replicate (k + 1) lessThan ++ [0x41]).length = k + 1 + 1 := by
    rw [List.length_append, List.length_replicate, List.length_singleton]
  unfold queryText maskTags replaceCharInAngleBrackets
  rw [if_pos Int.one_ne_zero, hlen, Int.toNat_natCast, List.take_of_length_le hlen.le,
    bracketLoop_open k [0x41] (by rw [hk]; rfl)]
  unfold Buf.toList
  rw [List.range_succ, List.map_append]
  congr 1
  · refine List.eq_replicate_iff.mpr ⟨by rw [List.length_map, List.length_range], fun c hc => ?_⟩
    obtain ⟨j, hj, rfl⟩ := List.mem_map.mp hc
    exact if_pos ⟨Nat.zero_le _, by have := List.mem_range.mp hj; omega⟩
  · rw [List.map_singleton, if_neg (by omega)]

theorem filtered_open (n : Nat) (s : List UInt8) : filtered (List.replicate n lessThan ++ s) = filtered s := by
  rw [filtered_eq_loop, filtered_eq_loop]
  induction n with
  | zero => rfl
  | succ n ih =>
      rw [List.replicate_succ, List.cons_append, ← ih]
      rfl

/-- The two do not always agree: the word "A" behind 65536 open brackets. -/
theorem not_acsmGetFirstDirtyWord_agrees :
    ¬ ∀ (a : AcsmStruct) (words : List (List UInt8)), a.totalPattern = 0 → words.length ≤ 81920 →
      1 + ((storedWords words).flatten.length : Int) ≤ maxState →
      ∃ F, ∀ fuel, F ≤ fuel → ∀ a', acsmCompile fuel (addPatterns a words) = some (a', 0) →
      ∀ (m : List UInt8) (jumpTag : Int), (m.length : Int) ≤ maxStrBuffer →
        FirstAgrees (storedWords words) a' m jumpTag := by
  intro h
  obtain ⟨F, hF⟩ := h acsmNew [[0x41]] rfl (by decide) (by decide)
  obtain ⟨F', hF'⟩ := compiled_of_words acsmNew [[0x41]] rfl (by decide) (by decide)
  obtain ⟨a', hc, hcomp⟩ := hF' (max F F') (Nat.le_max_right _ _)
  obtain ⟨k, hk⟩ : ∃ k, k = 65535 := ⟨_, rfl⟩
  have hm : ((List.replicate (k + 1) lessThan ++ [0x41]).length : Int) ≤ maxStrBuffer := by
    rw [List.length_append, List.length_replicate, List.length_singleton, hk]
    decide
  have hagree := hF _ (Nat.le_max_left _ _) a' hc (List.replicate (k + 1) lessThan ++ [0x41]) 1 hm
    (fun _ => 0x41) (fun _ => 0) (fun _ => 0)
  have hcode := hagree.1
  rw [acsmGetFirstDirtyWord_code, hcomp.search_eq _ 1 hm, hcomp.search_eq _ 1 hm, queryText_open hk,
    queryText_open hk, filtered_open, filtered_open] at hcode
  exact absurd hcode (by decide)

end Taomee.Dirty
