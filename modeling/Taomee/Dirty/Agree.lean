import Taomee.Dirty.Lemmas.Masked
import Taomee.Dirty.Lemmas.Walk

/-!
# Check and replace

Whether `acsm_pattern_replace` finds a word depends on the masked text, on the letters and on the
bytes that are neither letters nor digits; whether `acsmSearch` finds one depends on the filtered
text, on its letters and on what is left without them. So the two agree except on two kinds of text.
-/

namespace Taomee.Dirty

open Taomee.Words

/-! ## Tags -/

/-- Fewer than `limit` of the `<` seen so far are open at any time, `opened` of them at the start. -/
def opensBelow (limit : Nat) : Nat → List UInt8 → Bool
  | _, [] => true
  | opened, c :: rest =>
      if c = lessThan then decide (opened + 1 < limit) && opensBelow limit (opened + 1) rest
      else if c = greaterThan then opensBelow limit (opened - 1) rest
      else opensBelow limit opened rest

/-- Below the limit the masked tags do not depend on what the destination held. -/
theorem bracketLoop_congr (s : List UInt8) : ∀ {i : Nat} {loc : List Nat} {d d' : Buf},
    opensBelow 65536 loc.length s → (∀ p ∈ loc, p < i) → (∀ k, k < i → d k = d' k) →
    ∀ k, k < i + s.length → bracketLoop s i loc d k = bracketLoop s i loc d' k := by
  induction s with
  | nil => intro i loc d d' _ _ hd k hk; exact hd k hk
  | cons c rest ih =>
      intro i loc d d' ho hloc hd k hk
      have hset : ∀ k, k < i + 1 → d.set i c k = d'.set i c k := by
        intro k hk
        by_cases hki : k = i
        · subst hki
          rw [Buf.set_self, Buf.set_self]
        · rw [Buf.set_ne _ _ hki, Buf.set_ne _ _ hki]
          exact hd k (by omega)
      have hloc' : ∀ p ∈ loc, p < i + 1 := fun p hp => Nat.lt_succ_of_lt (hloc p hp)
      rw [List.length_cons] at hk
      unfold opensBelow at ho
      unfold bracketLoop
      by_cases h1 : c = lessThan
      · rw [if_pos h1, Bool.and_eq_true, decide_eq_true_eq] at ho
        have hroom : ¬ (i :: loc).length ≥ 65536 := by
          rw [List.length_cons]
          omega
        rw [if_pos h1, if_neg hroom, if_pos h1, if_neg hroom]
        refine @ih _ (i :: loc) _ _ ho.2 (fun p hp => ?_) hset k (by omega)
        rcases List.mem_cons.mp hp with rfl | hp
        · exact Nat.lt_succ_self _
        · exact hloc' p hp
      rw [if_neg h1] at ho
      rw [if_neg h1, if_neg h1]
      by_cases h2 : c = greaterThan
      · rw [if_pos h2] at ho
        rw [if_neg (not_not_intro h2), if_neg (not_not_intro h2)]
        cases loc with
        | nil => exact @ih _ [] _ _ ho hloc' hset k (by omega)
        | cons start loc =>
            have hstart := hloc start List.mem_cons_self
            refine @ih _ loc _ _ ho (fun p hp => hloc' p (List.mem_cons_of_mem _ hp)) (fun k hk => ?_) k
              (by omega)
            unfold Buf.fill
            split
            · rfl
            · exact hd k (by omega)
      · rw [if_neg h2] at ho
        rw [if_pos h2, if_pos h2]
        exact ih ho hloc' hset k (by omega)

/-- The tags of a query text are open fewer than 65536 at a time, where the query looks at tags. -/
def TagsOk (m : List UInt8) (jumpTag : Int) : Prop := jumpTag ≠ 0 → opensBelow 65536 0 m = true

theorem queryText_congr {m : List UInt8} {jumpTag : Int} (h : TagsOk m jumpTag) (tc1 tc1' : Buf) :
    queryText tc1 m jumpTag = queryText tc1' m jumpTag := by
  unfold queryText maskTags
  split
  · rename_i hj
    refine Buf.toList_congr fun i hi => ?_
    unfold replaceCharInAngleBrackets
    rw [Int.toNat_natCast] at hi ⊢
    rw [List.take_length]
    exact @bracketLoop_congr m _ [] _ _ (h hj) (fun p hp => absurd hp List.not_mem_nil)
      (fun k hk => absurd hk (Nat.not_lt_zero _)) i (by omega)
  · rfl

/-! ## What the replacement finds -/

variable {W : List (List UInt8)} {a : AcsmStruct}

/-- No word holds punctuation, as filtering leaves them. -/
def Plain (W : List (List UInt8)) : Prop := ∀ w ∈ W, ∀ c ∈ w, isAsciiPuncOrSymbol c = false

theorem plain_storedWords (words : List (List UInt8)) : Plain (storedWords words) := by
  intro w hw c hc
  obtain ⟨v, -, rfl⟩ := List.mem_map.mp (List.mem_filter.mp hw).1
  exact filtered_not_punc hc

theorem roundOk_full (h : Plain W) : RoundOk W roundFull where
  star := by decide
  word := by
    intro w hw c hc _
    have := notMark_of_not_punc (h w hw c hc)
    simp only [notMark, Bool.and_eq_true] at this
    exact Bool.or_eq_true_iff.mpr (.inl this.2)

theorem roundOk_alpha (W : List (List UInt8)) : RoundOk W roundAlpha where
  star := by decide
  word := fun _ _ _ _ hk => Bool.or_eq_true_iff.mpr (.inl hk)

theorem roundOk_other (W : List (List UInt8)) : RoundOk W roundOther where
  star := by decide
  word := by
    intro _ _ c _ hk
    unfold roundOther countsOther at *
    simp only at hk ⊢
    simp_all

/-- The bytes of a text that the third round of the replacement reads: neither letters nor digits. -/
def others (t : List UInt8) : List UInt8 := t.filter roundOther.keep

theorem keep_notMark_alpha (c : UInt8) : (isAsciiAlpha c && notMark c) = isAsciiAlpha c :=
  forall_byte (P := fun c => (isAsciiAlpha c && notMark c) = isAsciiAlpha c) (by decide +kernel) c

theorem keep_notMark_other (c : UInt8) : (roundOther.keep c && notMark c) = roundOther.keep c :=
  forall_byte (P := fun c => (roundOther.keep c && notMark c) = roundOther.keep c)
    (by decide +kernel) c

theorem letters_masked (q : List UInt8) : (masked q).filter isAsciiAlpha = letters (filtered q) := by
  unfold letters
  rw [← masked_filter, List.filter_filter]
  exact List.filter_congr fun c _ => (keep_notMark_alpha c).symm

theorem others_masked (q : List UInt8) : (masked q).filter roundOther.keep = others (filtered q) := by
  unfold others
  rw [← masked_filter, List.filter_filter]
  exact List.filter_congr fun c _ => (keep_notMark_other c).symm

/-- The replacement finds a word in the text `q`. -/
def FoundByReplace (W : List (List UInt8)) (q : List UInt8) : Prop :=
  Occurs W (masked q) ∨ Occurs W (letters (filtered q)) ∨ Occurs W (others (filtered q))

/-- `acsm_pattern_replace` has a result, its walks stay in their copies, and it returns 1 exactly
when it finds a word. -/
theorem Compiled.replace_flag (h : Compiled W a) (hW : Plain W) (tc tc1 : Buf) {m : List UInt8}
    (jumpTag : Int) (hm : (m.length : Int) ≤ maxStrBuffer) :
    ∃ m' ret, acsmPatternReplace a tc tc1 m m.length jumpTag = some (m', ret) ∧
      (ret = 1 ↔ FoundByReplace W (queryText tc1 m jumpTag)) := by
  have hlen := queryText_length tc1 m jumpTag
  have hmask : stringReplace (maskTags tc1 m m.length jumpTag) m.length =
      masked (queryText tc1 m jumpTag) := by
    unfold masked
    rw [hlen]
    rfl
  generalize queryText tc1 m jumpTag = q at hlen hmask
  have hlist : (tc.store (masked q)).toList m.length = masked q := by
    have := Buf.toList_store tc (masked q)
    rwa [masked_length, hlen] at this
  obtain ⟨ps0, tc0', h0, -⟩ := replaceRound_flag h (roundOk_full hW) m.length (tc.store (masked q)) 0
  obtain ⟨ps1, tc1', h1, -⟩ := replaceRound_flag h (roundOk_alpha W) m.length (tc.store (masked q))
    (if Occurs W (masked q) then 1 else 0)
  obtain ⟨ps2, tc2', h2, -⟩ := replaceRound_flag h (roundOk_other W) m.length (tc.store (masked q))
    (if Occurs W (letters (filtered q)) then 1 else if Occurs W (masked q) then 1 else 0)
  rw [hlist] at h0 h1 h2
  have hfull : (masked q).filter roundFull.keep = masked q := List.filter_true _
  have halpha : (masked q).filter roundAlpha.keep = letters (filtered q) := letters_masked q
  rw [hfull] at h0
  rw [halpha] at h1
  rw [others_masked] at h2
  unfold acsmPatternReplace
  rw [if_neg (Int.not_lt.mpr hm)]
  simp only [hmask, Int.toNat_natCast, h0, h1, h2]
  refine ⟨_, _, rfl, ?_⟩
  unfold FoundByReplace
  by_cases c0 : Occurs W (masked q) <;> by_cases c1 : Occurs W (letters (filtered q)) <;>
    by_cases c2 : Occurs W (others (filtered q)) <;> simp [c0, c1, c2]

/-! ## When the two agree -/

/-- The check finds a word in the text `q`. -/
def FoundByCheck (W : List (List UInt8)) (q : List UInt8) : Prop :=
  Occurs W (filtered q) ∨ Occurs W (letters (filtered q)) ∨ Occurs W (nonLetters (filtered q))

theorem verdict_ne_zero_iff (q : List UInt8) : verdict W (filtered q) ≠ 0 ↔ FoundByCheck W q := by
  unfold verdict FoundByCheck
  by_cases c0 : Occurs W (filtered q) <;> by_cases c1 : Occurs W (letters (filtered q)) <;>
    by_cases c2 : Occurs W (nonLetters (filtered q)) <;> simp [c0, c1, c2]

/-- A word in the masked text is one in the filtered text: a word has no marks. -/
theorem occurs_filtered_of_masked (hW : Plain W) {q : List UInt8} (h : Occurs W (masked q)) :
    Occurs W (filtered q) := by
  obtain ⟨w, hw, hinf⟩ := h
  refine ⟨w, hw, ?_⟩
  have hself : w.filter notMark = w :=
    List.filter_eq_self.mpr fun c hc => notMark_of_not_punc (hW w hw c hc)
  rw [← masked_filter, ← hself]
  exact hinf.filter notMark

/-- Texts that only the check finds dirty: some word occurs in the filtered text or in what is left
of it without its letters, but none where no full-width filler and no digit or punctuation stands
between its bytes, and none in the letters. -/
def OnlyChecked (W : List (List UInt8)) (q : List UInt8) : Prop :=
  (Occurs W (filtered q) ∨ Occurs W (nonLetters (filtered q))) ∧ ¬ Occurs W (masked q) ∧
    ¬ Occurs W (letters (filtered q)) ∧ ¬ Occurs W (others (filtered q))

/-- Texts that only the replacement finds dirty: some word occurs in the bytes that are neither
letters nor digits, but none in the filtered text, in its letters or in what is left without them. -/
def OnlyReplaced (W : List (List UInt8)) (q : List UInt8) : Prop :=
  Occurs W (others (filtered q)) ∧ ¬ Occurs W (filtered q) ∧ ¬ Occurs W (letters (filtered q)) ∧
    ¬ Occurs W (nonLetters (filtered q))

theorem found_iff (hW : Plain W) (q : List UInt8) :
    (FoundByReplace W q ↔ FoundByCheck W q) ↔ ¬ OnlyChecked W q ∧ ¬ OnlyReplaced W q := by
  have hsub := occurs_filtered_of_masked hW (q := q)
  unfold FoundByReplace FoundByCheck OnlyChecked OnlyReplaced
  by_cases c0 : Occurs W (masked q)
  · simp [c0, hsub c0]
  · by_cases c1 : Occurs W (letters (filtered q)) <;> by_cases c2 : Occurs W (others (filtered q)) <;>
      by_cases c3 : Occurs W (filtered q) <;> by_cases c4 : Occurs W (nonLetters (filtered q)) <;>
      simp [c0, c1, c2, c3, c4]

/-- The replacement returns 1 exactly when the check on the same message returns a nonzero result,
whatever the automatic arrays of the two calls hold. -/
def ReplaceAgrees (a : AcsmStruct) (m : List UInt8) (jumpTag : Int) : Prop :=
  ∀ tc tc1 tc1', ∃ m' ret, acsmPatternReplace a tc tc1 m m.length jumpTag = some (m', ret) ∧
    (ret = 1 ↔ acsmSearch a tc1' m m.length jumpTag ≠ 0)

/-- The text that a query of either mode works on, when its tags are all closed in time. -/
def visibleText (m : List UInt8) (jumpTag : Int) : List UInt8 := queryText (fun _ => 0) m jumpTag

theorem Compiled.agrees_iff (h : Compiled W a) (hW : Plain W) {m : List UInt8} {jumpTag : Int}
    (hm : (m.length : Int) ≤ maxStrBuffer) (ht : TagsOk m jumpTag) :
    ReplaceAgrees a m jumpTag ↔
      ¬ OnlyChecked W (visibleText m jumpTag) ∧ ¬ OnlyReplaced W (visibleText m jumpTag) := by
  rw [← found_iff hW]
  have hcheck : ∀ tc1', acsmSearch a tc1' m m.length jumpTag ≠ 0 ↔
      FoundByCheck W (visibleText m jumpTag) := by
    intro tc1'
    rw [h.search_eq tc1' jumpTag hm, queryText_congr ht tc1' fun _ => 0, verdict_ne_zero_iff]
    rfl
  constructor
  · intro hall
    obtain ⟨m', ret, heq, hiff⟩ := hall (fun _ => 0) (fun _ => 0) (fun _ => 0)
    obtain ⟨m'', ret', heq', hret⟩ := h.replace_flag hW (fun _ => 0) (fun _ => 0) jumpTag hm
    obtain ⟨-, rfl⟩ := by simpa using heq.symm.trans heq'
    exact hret.symm.trans (hiff.trans (hcheck _))
  · intro hiff tc tc1 tc1'
    obtain ⟨m', ret, heq, hret⟩ := h.replace_flag hW tc tc1 jumpTag hm
    rw [queryText_congr ht tc1 fun _ => 0] at hret
    exact ⟨m', ret, heq, hret.trans (hiff.trans (hcheck tc1').symm)⟩

/-- Check and replace agree on a message exactly when it is of neither kind. -/
theorem replaceAgrees_iff (a : AcsmStruct) (words : List (List UInt8)) (ha : a.totalPattern = 0)
    (hwords : words.length ≤ 81920)
    (hsize : 1 + ((storedWords words).flatten.length : Int) ≤ maxState) :
    ∃ F, ∀ fuel, F ≤ fuel → ∃ a', acsmCompile fuel (addPatterns a words) = some (a', 0) ∧
      ∀ (m : List UInt8) (jumpTag : Int), (m.length : Int) ≤ maxStrBuffer → TagsOk m jumpTag →
        (ReplaceAgrees a' m jumpTag ↔
          ¬ OnlyChecked (storedWords words) (visibleText m jumpTag) ∧
            ¬ OnlyReplaced (storedWords words) (visibleText m jumpTag)) := by
  obtain ⟨F, hF⟩ := compiled_of_words a words ha hwords hsize
  refine ⟨F, fun fuel hfuel => ?_⟩
  obtain ⟨a', hc, hcomp⟩ := hF fuel hfuel
  exact ⟨a', hc, fun m jumpTag hm ht => hcomp.agrees_iff (plain_storedWords words) hm ht⟩

/-- The word "he" and the message "s<b>he", without and with a look at the tag. -/
theorem replaceAgrees_iff_he :
    ∃ F, ∀ fuel, F ≤ fuel → ∃ a', acsmCompile fuel (addPatterns acsmNew [[0x68, 0x65]]) = some (a', 0) ∧
      ReplaceAgrees a' [0x73, 0x3C, 0x62, 0x3E, 0x68, 0x65] 0 ∧
      ReplaceAgrees a' [0x73, 0x3C, 0x62, 0x3E, 0x68, 0x65] 1 := by
  obtain ⟨F, hF⟩ := replaceAgrees_iff acsmNew [[0x68, 0x65]] rfl (by decide) (by decide)
  refine ⟨F, fun fuel hfuel => ?_⟩
  obtain ⟨a', hc, h⟩ := hF fuel hfuel
  refine ⟨a', hc, (h _ 0 (by decide) (fun h => absurd rfl h)).mpr ?_,
    (h _ 1 (by decide) (fun _ => by decide)).mpr ?_⟩
  · unfold OnlyChecked OnlyReplaced
    decide
  · unfold OnlyChecked OnlyReplaced
    decide

/-- The two do not always agree: the word "A1" is found in the message "A 1" by the check alone. -/
theorem not_replaceAgrees :
    ¬ ∀ (a : AcsmStruct) (words : List (List UInt8)), a.totalPattern = 0 → words.length ≤ 81920 →
      1 + ((storedWords words).flatten.length : Int) ≤ maxState →
      ∀ fuel a', acsmCompile fuel (addPatterns a words) = some (a', 0) →
      ∀ (m : List UInt8) (jumpTag : Int), (m.length : Int) ≤ maxStrBuffer → TagsOk m jumpTag →
        ReplaceAgrees a' m jumpTag := by
  intro h
  obtain ⟨F, hF⟩ := compiled_of_words acsmNew [[0x41, 0x31]] rfl (by decide) (by decide)
  obtain ⟨a', hc, hcomp⟩ := hF F (Nat.le_refl _)
  have hagree := h acsmNew [[0x41, 0x31]] rfl (by decide) (by decide) F a' hc [0x41, 0x20, 0x31] 0
    (by decide) (fun h => absurd rfl h)
  have hiff := @Compiled.agrees_iff _ _ hcomp (plain_storedWords _) [0x41, 0x20, 0x31] 0
    (by decide) (fun h => absurd rfl h)
  have honly : OnlyChecked (storedWords [[0x41, 0x31]]) (visibleText [0x41, 0x20, 0x31] 0) := by
    unfold OnlyChecked
    decide
  exact (hiff.mp hagree).1 honly

end Taomee.Dirty
