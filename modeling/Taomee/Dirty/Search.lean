import Taomee.Dirty.Lemmas.Compile

/-!
# What acsmSearch answers

`acsmAddPattern` stores the non-empty filtered words; after `acsmCompile` the three rounds of
`acsmSearch` decide whether a stored word occurs in the filtered text, in its letters or in what is
left without them.
-/

namespace Taomee.Dirty

open Taomee.Words

/-! ## Stored words -/

/-- What `acsmAddPattern` stores of a word: its first 255 bytes, filtered. -/
def storedWord (w : List UInt8) : List UInt8 := filtered (w.take 255)

/-- The stored words of a list of words. -/
def storedWords (words : List (List UInt8)) : List (List UInt8) :=
  (words.map storedWord).filter fun w => w ≠ []

/-- `acsmAddPattern(a, w, strlen(w))` for every word in turn. -/
def addPatterns (a : AcsmStruct) (words : List (List UInt8)) : AcsmStruct :=
  words.foldl (fun a w => (acsmAddPattern a w w.length).1) a

theorem memsetPatrn_totalPattern (a : AcsmStruct) (i off : Int) :
    (memsetPatrn a i off).totalPattern = a.totalPattern := by
  unfold memsetPatrn
  dsimp only
  split
  · rfl
  · rfl

theorem memsetPatrn_of_lt (a : AcsmStruct) {i off : Int} (h0 : 0 ≤ off) (h : off < 256) :
    memsetPatrn a i off = a.setPattern i
      { a.acsmPatterns i with patrn := (a.acsmPatterns i).patrn.set off.toNat 0 } := by
  have hdiv : (i * 260 + off) / 260 = i := by omega
  have hmod : (i * 260 + off) % 260 = off := by omega
  unfold memsetPatrn
  simp only [hdiv, hmod]
  rw [if_pos (by omega)]

theorem toList_store_set (b : Buf) (out : List UInt8) (k : Nat) (c : UInt8) (h : out.length ≤ k) :
    ((b.store out).set k c).toList out.length = out := by
  refine (Buf.toList_congr fun i hi => ?_).trans (Buf.toList_store b out)
  exact Buf.set_ne _ _ (by omega)

theorem storedWord_length_le (w : List UInt8) : (storedWord w).length ≤ 255 := by
  refine (filtered_length_le _).trans ?_
  rw [List.length_take]
  omega

/-- What one call of `acsmAddPattern` on `n` bytes of a buffer, `n` not negative, does: the slot of a
word of which nothing is left is given back. -/
theorem acsmAddPattern_eq {a : AcsmStruct} (hroom : a.totalPattern < maxPatterns) (pat : List UInt8) {n : Int}
    (h0 : 0 ≤ n) (hn : n ≤ pat.length) :
    acsmAddPattern a pat n =
      if storedWord (pat.take n.toNat) = [] then
        ({ (a.setPattern a.totalPattern
          { a.acsmPatterns a.totalPattern with patrn := (a.acsmPatterns a.totalPattern).patrn.store [] }) with
          totalPattern := a.totalPattern + 1 - 1 }, 0)
      else
        ({ (a.setPattern a.totalPattern
          { patrn := ((a.acsmPatterns a.totalPattern).patrn.store (storedWord (pat.take n.toNat))).set
              (storedWord (pat.take n.toNat)).length 0
            n := (storedWord (pat.take n.toNat)).length }) with
          totalPattern := a.totalPattern + 1 }, 0) := by
  have htotal : ¬ a.totalPattern ≥ maxPatterns := Int.not_le.mpr hroom
  set k := if n > maxKeywordLen - 1 then maxKeywordLen - 1 else n with hk
  have hk0 : 0 ≤ k := by
    rw [hk]
    unfold maxKeywordLen
    split <;> omega
  have hkn : k ≤ pat.length := by
    rw [hk]
    split <;> omega
  have htake : pat.take k.toNat = (pat.take n.toNat).take 255 := by
    rw [List.take_take]
    congr 1
    rw [hk]
    unfold maxKeywordLen
    split <;> omega
  have hd : stringFilter pat k 0 =
      (storedWord (pat.take n.toNat), ((storedWord (pat.take n.toNat)).length : Int)) := by
    rw [stringFilter_eq hk0 hkn, htake]
    rfl
  have hlen := storedWord_length_le (pat.take n.toNat)
  generalize storedWord (pat.take n.toNat) = d at hd hlen
  unfold acsmAddPattern
  rw [if_neg htotal]
  simp only [← hk, hd]
  by_cases hnil : d = []
  · subst hnil
    rw [if_pos (show ((([] : List UInt8).length : Nat) : Int) = 0 from rfl), if_pos rfl]
    rfl
  · have hpos : 0 < d.length := List.length_pos_iff.mpr hnil
    rw [if_neg (by omega), if_neg hnil, memsetPatrn_of_lt _ (by omega) (by omega)]
    simp only [AcsmStruct.setPattern, ↓reduceIte, Int.toNat_natCast]
    congr 2
    funext i
    split <;> rfl

/-- One call of `acsmAddPattern` on `n` bytes of a buffer, `n` not negative. -/
theorem acsmAddPattern_spec {a : AcsmStruct} {W : List (List UInt8)} (hW : HasWords a W)
    (hroom : W.length < 81920) (pat : List UInt8) {n : Int} (h0 : 0 ≤ n) (hn : n ≤ pat.length) :
    (acsmAddPattern a pat n).2 = 0 ∧ (acsmAddPattern a pat n).1.flag = a.flag ∧
      HasWords (acsmAddPattern a pat n).1
        (W ++ [storedWord (pat.take n.toNat)].filter fun w => w ≠ []) := by
  have htotal : a.totalPattern < maxPatterns := by
    rw [hW.total]
    unfold maxPatterns
    omega
  have hnat : a.totalPattern = (W.length : Nat) := hW.total
  rw [acsmAddPattern_eq htotal pat h0 hn]
  generalize storedWord (pat.take n.toNat) = d
  by_cases hnil : d = []
  · rw [if_pos hnil]
    refine ⟨rfl, rfl, ?_, ?_, ?_⟩
    · simp [hnil, hW.total]
    · intro j w hj
      have hlt : j < W.length := by
        have := (List.getElem?_eq_some_iff.mp hj).1
        simpa [hnil] using this
      have hne : (j : Int) ≠ a.totalPattern := by omega
      simp only [AcsmStruct.setPattern, hne, ↓reduceIte]
      exact hW.word j w (by simpa [hnil] using hj)
    · simpa [hnil] using hW.nonempty
  · rw [if_neg hnil]
    refine ⟨rfl, rfl, ?_, ?_, ?_⟩
    · simp [hnil, hW.total]
    · intro j w hj
      by_cases hjt : j = W.length
      · subst hjt
        have he : ((W.length : Nat) : Int) = a.totalPattern := hW.total.symm
        have hw : w = d := by simpa [hnil] using hj.symm
        simp only [AcsmStruct.setPattern, he, ↓reduceIte, hw, true_and]
        exact toList_store_set _ d d.length 0 (Nat.le_refl _)
      · have hlt : j < W.length := by
          have := (List.getElem?_eq_some_iff.mp hj).1
          simp [hnil] at this
          omega
        have hne : (j : Int) ≠ a.totalPattern := by omega
        simp only [AcsmStruct.setPattern, hne, ↓reduceIte]
        exact hW.word j w (by simpa [List.getElem?_append_left hlt] using hj)
    · intro w hw
      rcases List.mem_append.mp hw with hw | hw
      · exact hW.nonempty w hw
      · simp [hnil] at hw
        rw [hw]
        exact hnil

theorem addPatterns_words (words : List (List UInt8)) : ∀ {a : AcsmStruct} {W : List (List UInt8)},
    HasWords a W → W.length + words.length ≤ 81920 →
    HasWords (addPatterns a words) (W ++ storedWords words) := by
  induction words with
  | nil =>
      intro a W h _
      simpa [addPatterns, storedWords] using h
  | cons w words ih =>
      intro a W h hlen
      simp only [List.length_cons] at hlen
      have hone := (acsmAddPattern_spec h (by omega) w (n := w.length) (by omega)
        (Int.le_refl _)).2.2
      rw [Int.toNat_natCast, List.take_length] at hone
      have hcat : W ++ storedWords (w :: words) =
          (W ++ [storedWord w].filter fun w => w ≠ []) ++ storedWords words := by
        rw [List.append_assoc]
        congr 1
        simp only [storedWords, List.map_cons, List.filter_cons, List.filter_nil]
        split <;> rfl
      rw [hcat]
      refine ih hone ?_
      have := List.length_filter_le (fun w => decide (w ≠ [])) [storedWord w]
      rw [List.length_append]
      simp only [List.length_singleton] at this
      omega

theorem hasWords_nil {a : AcsmStruct} (h : a.totalPattern = 0) : HasWords a [] :=
  ⟨h, by simp, by simp⟩

/-! ## The rounds -/

variable {W : List (List UInt8)} {a : AcsmStruct}

theorem Compiled.longest_ne_iff (h : Compiled W a) (u : List UInt8) :
    a.longest (stateAfter a u) ≠ -1 ↔ Hit W u := by
  rcases h.longest u with ⟨h1, h2⟩ | ⟨j, w, hj, _, hlong⟩
  · simp [h1, h2]
  · rw [hj]
    exact ⟨fun _ => hlong.hit, fun _ => by omega⟩

theorem Compiled.not_hit_nil (h : Compiled W a) : ¬ Hit W [] := by
  rintro ⟨w, hw, hsuf⟩
  exact h.words.nonempty w hw (List.suffix_nil.mp hsuf)

theorem searchRound_iff (h : Compiled W a) (keep : UInt8 → Bool) (t : List UInt8) : ∀ u,
    searchRound a keep (stateAfter a u) t = true ↔
      ∃ v, v ≠ [] ∧ v <+: t.filter keep ∧ Hit W (u ++ v) := by
  induction t with
  | nil =>
      intro u
      simp only [searchRound, Bool.false_eq_true, List.filter_nil, List.prefix_nil, false_iff]
      rintro ⟨v, hne, hv, _⟩
      exact hne hv
  | cons c t ih =>
      intro u
      rw [searchRound]
      by_cases hc : keep c = true
      · rw [if_pos hc, List.filter_cons_of_pos hc]
        show (if a.longest (a.next (stateAfter a u) c) ≠ -1 then true
          else searchRound a keep (a.next (stateAfter a u) c) t) = true ↔ _
        rw [← stateAfter_concat]
        by_cases hhit : Hit W (u ++ [c])
        · rw [if_pos ((h.longest_ne_iff _).mpr hhit)]
          exact ⟨fun _ => ⟨[c], by simp, ⟨_, rfl⟩, hhit⟩, fun _ => rfl⟩
        · rw [if_neg fun hh => hhit ((h.longest_ne_iff _).mp hh), ih]
          constructor
          · rintro ⟨v, _, hv, hvh⟩
            exact ⟨c :: v, by simp, List.cons_prefix_cons.mpr ⟨rfl, hv⟩, by simpa using hvh⟩
          · rintro ⟨v, hne, hv, hvh⟩
            cases v with
            | nil => exact absurd rfl hne
            | cons d v =>
                obtain ⟨rfl, hv'⟩ := List.cons_prefix_cons.mp hv
                refine ⟨v, ?_, hv', by simpa using hvh⟩
                rintro rfl
                exact hhit hvh
      · rw [if_neg hc, List.filter_cons_of_neg hc]
        exact ih u

/-- A round finds something exactly when a stored word occurs in the bytes it reads. -/
theorem searchRound_occurs (h : Compiled W a) (keep : UInt8 → Bool) (t : List UInt8) :
    searchRound a keep 0 t = true ↔ Occurs W (t.filter keep) := by
  rw [← stateAfter_nil a, searchRound_iff h, occurs_iff_prefix_hit]
  constructor
  · rintro ⟨v, _, hv, hh⟩
    exact ⟨v, hv, hh⟩
  · rintro ⟨v, hv, hh⟩
    refine ⟨v, ?_, hv, hh⟩
    rintro rfl
    exact h.not_hit_nil hh

/-! ## The verdict -/

/-- The ASCII letters of a text, and the text without them. -/
def letters (t : List UInt8) : List UInt8 := t.filter isAsciiAlpha
def nonLetters (t : List UInt8) : List UInt8 := t.filter fun c => !isAsciiAlpha c

/-- The answer for the words `W` on the filtered text `t`. -/
def verdict (W : List (List UInt8)) (t : List UInt8) : Int :=
  if Occurs W t then 3
  else if Occurs W (letters t) then 1
  else if Occurs W (nonLetters t) then 2
  else 0

/-- The text that a query of either mode works on. -/
def queryText (tc1 : Buf) (m : List UInt8) (jumpTag : Int) : List UInt8 :=
  maskTags tc1 m m.length jumpTag

theorem queryText_length (tc1 : Buf) (m : List UInt8) (jumpTag : Int) :
    (queryText tc1 m jumpTag).length = m.length := by
  unfold queryText maskTags
  split <;> simp

theorem queryText_zero (tc1 : Buf) (m : List UInt8) : queryText tc1 m 0 = m := by
  unfold queryText maskTags
  rw [if_neg (not_not_intro rfl)]

theorem Compiled.search_eq (h : Compiled W a) (tc1 : Buf) {m : List UInt8} (jumpTag : Int)
    (hm : (m.length : Int) ≤ maxStrBuffer) :
    acsmSearch a tc1 m m.length jumpTag = verdict W (filtered (queryText tc1 m jumpTag)) := by
  have hlen := queryText_length tc1 m jumpTag
  have hd : ∀ t : List UInt8, t.length = m.length →
      stringFilter t m.length 0 = (filtered t, ((filtered t).length : Int)) := by
    intro t ht
    rw [stringFilter_eq (Int.natCast_nonneg _) (by omega), ← ht]
    simp
  unfold acsmSearch verdict
  rw [if_neg (Int.not_lt.mpr hm)]
  simp only [hd (maskTags tc1 m m.length jumpTag) hlen, Int.toNat_natCast, List.take_length]
  refine if_congr ?_ rfl (if_congr ?_ rfl (if_congr ?_ rfl rfl))
  · rw [searchRound_occurs h, List.filter_true]
    rfl
  · exact searchRound_occurs h isAsciiAlpha _
  · exact searchRound_occurs h (fun c => !isAsciiAlpha c) _

/-- Words that fit compile, whatever the handle held before. -/
theorem compiled_of_words (a : AcsmStruct) (words : List (List UInt8)) (ha : a.totalPattern = 0)
    (hwords : words.length ≤ 81920)
    (hsize : 1 + ((storedWords words).flatten.length : Int) ≤ maxState) :
    ∃ F, ∀ fuel, F ≤ fuel → ∃ a', acsmCompile fuel (addPatterns a words) = some (a', 0) ∧
      Compiled (storedWords words) a' := by
  have hW : HasWords (addPatterns a words) (storedWords words) := by
    simpa using addPatterns_words words (hasWords_nil ha) (by simpa using hwords)
  refine ⟨(storedWords words).flatten.length, fun fuel hfuel => ?_⟩
  obtain ⟨a0, str, a', hc, hb, h0, _⟩ := acsmCompile_spec hW hsize hfuel
  exact ⟨a', hc, hb.compiled h0⟩

/-- The dirty-word check. For words compiled into a handle without patterns, whatever the handle
held before, `acsmSearch` returns 3 if a stored word occurs in the filtered message, otherwise 1 if
one occurs in its letters, otherwise 2 if one occurs in what is left without them, otherwise 0. -/
theorem acsmSearch_verdict (a : AcsmStruct) (words : List (List UInt8)) (ha : a.totalPattern = 0)
    (hwords : words.length ≤ 81920)
    (hsize : 1 + ((storedWords words).flatten.length : Int) ≤ maxState) :
    ∃ F, ∀ fuel, F ≤ fuel → ∃ a', acsmCompile fuel (addPatterns a words) = some (a', 0) ∧
      ∀ (tc1 : Buf) (m : List UInt8), (m.length : Int) ≤ maxStrBuffer →
        acsmSearch a' tc1 m m.length 0 =
          if Occurs (storedWords words) (filtered m) then 3
          else if Occurs (storedWords words) (letters (filtered m)) then 1
          else if Occurs (storedWords words) (nonLetters (filtered m)) then 2
          else 0 := by
  obtain ⟨F, hF⟩ := compiled_of_words a words ha hwords hsize
  refine ⟨F, fun fuel hfuel => ?_⟩
  obtain ⟨a', hc, hcomp⟩ := hF fuel hfuel
  refine ⟨a', hc, fun tc1 m hm => ?_⟩
  rw [hcomp.search_eq tc1 0 hm]
  rfl

/-- The words "he" and "she" in a new handle, and the messages "us he", "s1 he" and "sh". -/
theorem acsmSearch_verdict_he_she :
    ∃ F, ∀ fuel, F ≤ fuel → ∃ a',
      acsmCompile fuel (addPatterns acsmNew [[0x68, 0x65], [0x73, 0x68, 0x65]]) = some (a', 0) ∧
      ∀ tc1, acsmSearch a' tc1 [0x75, 0x73, 0x20, 0x68, 0x65] 5 0 = 3 ∧
        acsmSearch a' tc1 [0x68, 0x31, 0x65] 3 0 = 1 ∧ acsmSearch a' tc1 [0x73, 0x68] 2 0 = 0 := by
  obtain ⟨F, hF⟩ := acsmSearch_verdict acsmNew [[0x68, 0x65], [0x73, 0x68, 0x65]] rfl (by decide)
    (by decide)
  refine ⟨F, fun fuel hfuel => ?_⟩
  obtain ⟨a', hc, hs⟩ := hF fuel hfuel
  refine ⟨a', hc, fun tc1 => ⟨?_, ?_, ?_⟩⟩
  · exact (hs tc1 [0x75, 0x73, 0x20, 0x68, 0x65] (by decide)).trans (by decide)
  · exact (hs tc1 [0x68, 0x31, 0x65] (by decide)).trans (by decide)
  · exact (hs tc1 [0x73, 0x68] (by decide)).trans (by decide)

end Taomee.Dirty
