import Taomee.Dirty.Lemmas.Reach
import Taomee.Dirty.Tags

/-!
# Tags are preserved

The bytes of a masked tag are `+` in all three copies. No lookahead of the image takes a `+` for a
part of a character, and no walk stars one: the tests of the second and third round leave it out, and
a walk of the first round ends before it comes to one that is not behind the word.
-/

namespace Taomee.Dirty

open Taomee.Words Taomee.Brackets

/-! ## The image keeps the marks -/

theorem plus_ne_of_le {k b : UInt8} (hk : plus < k) (h : k ≤ b) : plus ≠ b := by
  rintro rfl
  exact absurd h (UInt8.not_le.mpr hk)

/-- The bytes that are jumped over are no `+`. -/
theorem switchByte_jump_plus (c : UInt8) (rest : List UInt8) : plus ∉ rest.take (switchByte c rest).2 := by
  unfold switchByte
  repeat' split
  all_goals try exact List.not_mem_nil
  all_goals
    simp only [List.take_succ_cons, List.take_zero, List.mem_cons, List.not_mem_nil, or_false, not_or]
  · rename_i h
    exact plus_ne_of_le (by decide) h.1
  · rename_i h
    rcases h with rfl | rfl
    · decide
    · decide
  · rename_i h
    rcases h with ⟨rfl, h, -⟩ | ⟨rfl, h, -⟩
    · exact ⟨by decide, plus_ne_of_le (by decide) h⟩
    · exact ⟨by decide, plus_ne_of_le (by decide) h⟩
  · rename_i h
    obtain ⟨rfl, h, -⟩ := h
    exact ⟨by decide, plus_ne_of_le (by decide) h⟩
  · rename_i hb h
    subst hb
    exact ⟨by decide, plus_ne_of_le (by decide) h.1⟩

theorem classify_jump_plus (c : UInt8) (rest : List UInt8) : plus ∉ rest.take (classify c rest).2.1 ∧
    ((classify c rest).1 = true → plus ∉ rest.take 2) := by
  have hfull : (switchByte c rest).1 = true → plus ∉ rest.take 2 := by
    intro h
    obtain ⟨-, b, b', l, rfl, hb⟩ := switchByte_full c rest h
    simp only [List.take_succ_cons, List.take_zero, List.mem_cons, List.not_mem_nil, or_false, not_or]
    rcases hb with ⟨rfl, h, -⟩ | ⟨rfl, h, -⟩
    · exact ⟨by decide, plus_ne_of_le (by decide) h⟩
    · exact ⟨by decide, plus_ne_of_le (by decide) h⟩
  refine ⟨?_, fun h => hfull (classify_full c rest h)⟩
  unfold classify
  have hjump := switchByte_jump_plus c rest
  dsimp only
  split
  · split
    · exact hfull (by assumption)
    · exact hjump
  · exact hjump

/-- A `+` of the text is a `+` of its image. -/
theorem stringReplaceLoop_plus (s : List UInt8) : ∀ {k i : Nat}, plus ∉ s.take k → s[i]? = some plus →
    k ≤ i ∧ (stringReplaceLoop k s)[i - k]? = some plus := by
  induction s with
  | nil =>
      intro k i _ hi
      cases hi
  | cons c rest ih =>
      intro k i hk hi
      cases k with
      | succ k =>
          rw [List.take_succ_cons, List.mem_cons, not_or] at hk
          cases i with
          | zero =>
              rw [List.getElem?_cons_zero, Option.some.injEq] at hi
              exact absurd hi.symm hk.1
          | succ i =>
              rw [List.getElem?_cons_succ] at hi
              obtain ⟨h1, h2⟩ := ih hk.2 hi
              rw [Nat.add_sub_add_right]
              exact ⟨Nat.succ_le_succ h1, h2⟩
      | zero =>
          refine ⟨Nat.zero_le _, ?_⟩
          rw [Nat.sub_zero]
          obtain ⟨hjump, hfull⟩ := classify_jump_plus c rest
          have htwo := classify_jump_le_two c rest
          have hplus : ∀ rest, classify plus rest = (false, 0, 0) := fun _ => rfl
          rcases hc : classify c rest with ⟨sbcFlag, jumpBytes, dbc⟩
          simp only [hc] at hjump hfull htwo
          simp only [stringReplaceLoop, hc]
          cases i with
          | zero =>
              rw [List.getElem?_cons_zero, Option.some.injEq] at hi
              subst hi
              obtain ⟨rfl, rfl, rfl⟩ : sbcFlag = false ∧ jumpBytes = 0 ∧ dbc = 0 := by
                have := (hplus rest).symm.trans hc
                simpa [eq_comm] using this
              rfl
          | succ i =>
              rw [List.getElem?_cons_succ] at hi
              -- behind the bytes that are jumped over the image goes on
              have hnext : ∀ {k : Nat} (front : List UInt8), front.length = k + 1 → plus ∉ rest.take k →
                  (front ++ stringReplaceLoop k rest)[i + 1]? = some plus := by
                intro k front hlen hk
                obtain ⟨h1, h2⟩ := ih hk hi
                rw [List.getElem?_append_right (by omega), hlen, Nat.add_sub_add_right, h2]
              obtain rfl | rfl | rfl : jumpBytes = 0 ∨ jumpBytes = 1 ∨ jumpBytes = 2 := by omega
              · cases sbcFlag with
                | true => exact hnext [xlatcase dbc, minus, minus] rfl (hfull rfl)
                | false =>
                    cases isAsciiPuncOrSymbol c with
                    | true => exact hnext [plus] rfl hjump
                    | false => exact hnext [xlatcase c] rfl hjump
              · exact hnext [plus, plus] rfl hjump
              · exact hnext [plus, plus, plus] rfl hjump

theorem masked_plus {s : List UInt8} {i : Nat} (h : s[i]? = some plus) : (masked s)[i]? = some plus := by
  rw [masked_eq_loop]
  exact (stringReplaceLoop_plus s (k := 0) List.not_mem_nil h).2

/-! ## No round stars a mark -/

variable {W : List (List UInt8)} {a : AcsmStruct} {image : Buf} {n : Nat}

/-- A walk of the first round goes back to the first byte of its word and no further. -/
theorem walk_full_word (hW : Plain W) {ps : List Nat} {t : Nat} {tc tc' : Buf} (ht : t < n)
    (hinv : RoundInv roundFull image n ps t tc) {w : List UInt8} (hw : w ∈ W) (hne : w ≠ [])
    (hsuf : w <:+ (ps ++ [t]).map image)
    (hwalk : walk countsFull starsFull (matchEnd roundFull image n t + 1) w.length tc = some tc')
    {i : Nat} (hi : tc' i ≠ tc i) : image i = minus ∨ image i ∈ w := by
  have hmarks : ∀ c ∈ w, decide (c ≠ minus) = true := by
    intro c hc
    have := notMark_of_not_punc (hW w hw c hc)
    simp only [notMark, Bool.and_eq_true] at this
    exact this.2
  obtain ⟨s, hst, -, -, -, hfilter⟩ := match_range (K := fun c => decide (c ≠ minus)) hinv
    (fun p hp hm => (hinv.all p hp rfl).resolve_right fun h => of_decide_eq_true hm h.2) hmarks hne hsuf
  obtain ⟨hte, -, hfill⟩ := matchEnd_spec roundFull image ht
  obtain ⟨hpos, hreach, -⟩ := walk_star backward_full hwalk hi
  have hword : countIn countsFull tc s + w.length ≤ countIn countsFull tc (t + 1) := by
    rw [← hfilter]
    refine filter_le_countIn (K := fun c => decide (c ≠ minus)) (by omega) fun j _ _ hj => ?_
    unfold countsFull
    rcases hinv.stars j with h | ⟨-, h⟩
    · rw [h, hj, Bool.true_or]
    · rw [h]
      decide
  have hmono := countIn_mono countsFull tc (show t + 1 ≤ matchEnd roundFull image n t + 1 by omega)
  have hsi : s ≤ i := by
    by_contra hlt
    have := countIn_mono countsFull tc (show i + 1 ≤ s by omega)
    omega
  rcases Nat.lt_or_ge t i with hlt | hle
  · exact .inl (hfill i hlt (by omega)).2
  · by_cases hm : image i = minus
    · exact .inl hm
    · right
      rw [← hfilter]
      refine List.mem_filter.mpr ⟨List.mem_map_of_mem ?_, decide_eq_true hm⟩
      exact List.mem_range'_1.mpr ⟨hsi, by omega⟩

/-- No round stars a `+`, when its walks star none. -/
theorem replaceRound_plus {r : Round} (h : Compiled W a) (hr : RoundOk W r)
    (hwalk : ∀ ps t tc w tc', t < n → RoundInv r image n ps t tc → LongestHit W ((ps ++ [t]).map image) w →
      walk r.count r.write (matchEnd r image n t + 1) w.length tc = some tc' →
      ∀ i, image i = plus → tc i = plus → tc' i = tc i)
    {flag flag' : Int} {tc' : Buf} (heq : replaceRound a r n image flag = some (tc', flag')) {i : Nat}
    (hi : image i = plus) : tc' i ≠ star := by
  obtain ⟨ps, -, hP⟩ := replaceRound_rule h hr (fun _ _ tc _ => ∀ i, image i = plus → tc i = plus)
    (fun _ _ _ _ _ _ hP _ => hP) (fun _ _ _ _ _ _ hP _ _ => hP)
    (fun ps t tc flag w tc' ht hinv hP _ hlong hw i hi =>
      (hwalk ps t tc w tc' ht hinv hlong hw i hi (hP i hi)).trans (hP i hi))
    heq (fun _ hi => hi)
  rw [hP i hi]
  decide

theorem roundFull_plus (h : Compiled W a) (hW : Plain W) {flag flag' : Int} {tc' : Buf}
    (heq : replaceRound a roundFull n image flag = some (tc', flag')) {i : Nat} (hi : image i = plus) :
    tc' i ≠ star := by
  refine replaceRound_plus h (roundOk_full hW) (fun ps t tc w tc' ht hinv hlong hw j hj _ => ?_) heq hi
  by_contra hstar
  rcases walk_full_word hW ht hinv hlong.1 (h.words.nonempty w hlong.1) hlong.2.1 hw hstar with hm | hm
  · exact absurd (hj.symm.trans hm) (by decide)
  · rw [hj] at hm
    exact absurd (hW w hlong.1 plus hm) (by decide)

theorem roundAlpha_plus (h : Compiled W a) {flag flag' : Int} {tc' : Buf}
    (heq : replaceRound a roundAlpha n image flag = some (tc', flag')) {i : Nat} (hi : image i = plus) :
    tc' i ≠ star := by
  refine replaceRound_plus h (roundOk_alpha W) (fun ps t tc w tc' ht hinv hlong hw j hj htc => ?_) heq hi
  by_contra hstar
  obtain ⟨-, -, hwrite⟩ := walk_star backward_alpha hw hstar
  unfold starsAlpha at hwrite
  rw [htc] at hwrite
  simp [show isAsciiAlpha plus = false by decide, show plus ≠ minus by decide] at hwrite

theorem roundOther_plus (h : Compiled W a) {flag flag' : Int} {tc' : Buf}
    (heq : replaceRound a roundOther n image flag = some (tc', flag')) {i : Nat} (hi : image i = plus) :
    tc' i ≠ star := by
  refine replaceRound_plus h (roundOk_other W) (fun ps t tc w tc' ht hinv hlong hw j hj htc => ?_) heq hi
  by_contra hstar
  obtain ⟨-, -, hwrite⟩ := walk_star backward_other hw hstar
  unfold starsOther at hwrite
  rw [htc] at hwrite
  exact absurd hwrite (by decide)

/-! ## Tags -/

theorem opensBelow_dropLast (limit : Nat) (s : List UInt8) : ∀ opened, opensBelow limit opened s = true →
    opensBelow limit opened s.dropLast = true := by
  induction s with
  | nil => exact fun _ h => h
  | cons c rest ih =>
      intro opened h
      cases hrest : rest with
      | nil => rfl
      | cons b l =>
          rw [List.dropLast_cons_of_ne_nil (List.cons_ne_nil b l), ← hrest]
          unfold opensBelow at h ⊢
          split
          · rename_i hc
            rw [if_pos hc, Bool.and_eq_true] at h
            rw [h.1, ih _ h.2]
            rfl
          · rename_i hc
            rw [if_neg hc] at h
            split
            · rename_i hg
              rw [if_pos hg] at h
              exact ih _ h
            · rename_i hg
              rw [if_neg hg] at h
              exact ih _ h

/-- The bytes of a tag are `+` in the text that the query works on. -/
theorem queryText_tag {m : List UInt8} {jumpTag : Int} (hj : jumpTag ≠ 0)
    (hopen : opensBelow 65536 0 m = true) (tc1 : Buf) {k : Nat} (hk : k < m.length) (hin : InTag m k) :
    (queryText tc1 m jumpTag)[k]? = some plus := by
  unfold queryText maskTags
  rw [if_pos hj, Int.toNat_natCast, Buf.getElem?_toList _ hk]
  have hmasks := (replaceCharInAngleBrackets_masks m).mpr (opensBelow_dropLast 65536 m 0 hopen) tc1
  rw [(hmasks k hk).1 hin]

/-- Replacement with a look at the tags leaves every byte of a tag as it was. -/
theorem acsmPatternReplace_tags (a : AcsmStruct) (words : List (List UInt8)) (ha : a.totalPattern = 0)
    (hwords : words.length ≤ 81920)
    (hsize : 1 + ((storedWords words).flatten.length : Int) ≤ maxState) :
    ∃ F, ∀ fuel, F ≤ fuel → ∃ a', acsmCompile fuel (addPatterns a words) = some (a', 0) ∧
      ∀ (tc tc1 : Buf) (m : List UInt8) (jumpTag : Int), jumpTag ≠ 0 → opensBelow 65536 0 m = true →
        ∃ m' ret, acsmPatternReplace a' tc tc1 m m.length jumpTag = some (m', ret) ∧
          m'.length = m.length ∧ ∀ k, InTag m k → m'[k]? = m[k]? := by
  obtain ⟨F, hF⟩ := compiled_of_words a words ha hwords hsize
  refine ⟨F, fun fuel hfuel => ?_⟩
  obtain ⟨a', hc, hcomp⟩ := hF fuel hfuel
  have hW := plain_storedWords words
  refine ⟨a', hc, fun tc tc1 m jumpTag hj hopen => ?_⟩
  by_cases hm : (m.length : Int) > maxStrBuffer
  · refine ⟨m, -1, ?_, rfl, fun _ _ => rfl⟩
    unfold acsmPatternReplace
    exact if_pos hm
  obtain ⟨image, tc0, tcA, tcO, f0, fA, ret, hlist, h0, hA, hO, hrep⟩ := hcomp.replace_rounds hW tc tc1
    jumpTag (Int.not_lt.mp hm)
  refine ⟨_, ret, hrep, mergeStars_length m m.length tc0 tcA tcO, fun k hin => ?_⟩
  rcases Nat.lt_or_ge k m.length with hk | hk
  · have hplus : image k = plus := by
      have := Buf.getElem?_toList image hk
      rw [hlist, masked_plus (queryText_tag hj hopen tc1 hk hin)] at this
      exact (Option.some.inj this).symm
    rw [mergeStars_get hk, List.getElem?_eq_getElem hk, if_neg]
    rintro (h | h | h)
    · exact roundFull_plus hcomp hW h0 hplus h
    · exact roundAlpha_plus hcomp hA hplus h
    · exact roundOther_plus hcomp hO hplus h
  · rw [List.getElem?_eq_none hk, List.getElem?_eq_none (by rw [mergeStars_length]; exact hk)]

/-- The word "he" in the message "<he>he". -/
theorem acsmPatternReplace_tags_he :
    ∃ F, ∀ fuel, F ≤ fuel → ∃ a', acsmCompile fuel (addPatterns acsmNew [[0x68, 0x65]]) = some (a', 0) ∧
      ∀ tc tc1, ∃ m' ret,
        acsmPatternReplace a' tc tc1 [0x3C, 0x68, 0x65, 0x3E, 0x68, 0x65] 6 1 = some (m', ret) ∧
        m'.length = 6 ∧ ∀ k, InTag [0x3C, 0x68, 0x65, 0x3E, 0x68, 0x65] k →
          m'[k]? = [0x3C, 0x68, 0x65, 0x3E, 0x68, 0x65][k]? := by
  obtain ⟨F, hF⟩ := acsmPatternReplace_tags acsmNew [[0x68, 0x65]] rfl (by decide) (by decide)
  refine ⟨F, fun fuel hfuel => ?_⟩
  obtain ⟨a', hc, h⟩ := hF fuel hfuel
  exact ⟨a', hc, fun tc tc1 => h tc tc1 _ 1 (by decide) (by decide)⟩

end Taomee.Dirty
