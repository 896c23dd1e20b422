import Taomee.Dirty.Lemmas.Reach
import Taomee.Dirty.Lemmas.RoundFull

/-!
# No word survives byte for byte

The first round reads every byte except the fillers behind a match, and a word has no fillers. So
where a word stands in the image without gaps, the walk of the longest word that ends there comes to
its first byte.
-/

namespace Taomee.Dirty

open Taomee.Words

variable {W : List (List UInt8)} {a : AcsmStruct} {image : Buf} {n : Nat}

theorem plain_ne_minus (hW : Plain W) {w : List UInt8} (hw : w ∈ W) {c : UInt8} (hc : c ∈ w) :
    c ≠ minus := by
  have := notMark_of_not_punc (hW w hw c hc)
  simp only [notMark, Bool.and_eq_true, decide_eq_true_eq] at this
  exact this.2

theorem RoundInv.read_word {ps : List Nat} {t : Nat} {tc : Buf}
    (hinv : RoundInv roundFull image n ps t tc) {w : List UInt8} (hmarks : ∀ c ∈ w, c ≠ minus)
    (hsuf : w <:+ image.toList (t + 1)) : w <:+ (ps ++ [t]).map image := by
  obtain ⟨hle, hget⟩ := suffix_toList hsuf
  have hread : ∀ p, t + 1 - w.length ≤ p → p < t → p ∈ ps := by
    intro p h1 h2
    refine (hinv.all p h2 rfl).resolve_right fun h => ?_
    exact hmarks _ (suffix_byte hsuf h1 (by omega)) h.2
  have hsorted : (ps ++ [t]).Pairwise (· < ·) := by
    rw [List.pairwise_append]
    refine ⟨hinv.sorted, List.pairwise_singleton _ _, fun p hp q hq => ?_⟩
    rw [List.mem_singleton.mp hq]
    exact (hinv.fed p hp).1
  have hsplit : ps ++ [t] = (ps ++ [t]).filter (fun p => decide (p < t + 1 - w.length)) ++
      List.range' (t + 1 - w.length) w.length := by
    refine List.Pairwise.eq_of_mem_iff (r := (· < ·)) hsorted ?_ fun p => ?_
    · rw [List.pairwise_append]
      refine ⟨hsorted.filter _, List.pairwise_lt_range', fun p hp q hq => ?_⟩
      have h1 := of_decide_eq_true (List.mem_filter.mp hp).2
      have h2 := (List.mem_range'_1.mp hq).1
      omega
    · simp only [List.mem_append, List.mem_filter, List.mem_singleton, decide_eq_true_eq,
        List.mem_range'_1]
      constructor
      · intro hp
        rcases Nat.lt_or_ge p (t + 1 - w.length) with hlt | hge
        · exact .inl ⟨hp, hlt⟩
        · refine .inr ⟨hge, ?_⟩
          rcases hp with hp | rfl
          · have := (hinv.fed p hp).1
            omega
          · omega
      · rintro (h | ⟨h1, h2⟩)
        · exact h.1
        · rcases Nat.lt_or_eq_of_le (show p ≤ t by omega) with hlt | heq
          · exact .inl (hread p h1 hlt)
          · exact .inr heq
  rw [hsplit, List.map_append]
  refine ⟨_, congrArg _ ?_⟩
  apply List.ext_getElem
  · simp
  · intro i h1 h2
    rw [List.getElem_map, List.getElem_range', Nat.one_mul, hget i h1]

/-- What the first round leaves of a word that stands in the image: stars. -/
theorem roundFull_verbatim (h : Compiled W a) (hW : Plain W) {flag flag' : Int} {tc' : Buf}
    (heq : replaceRound a roundFull n image flag = some (tc', flag')) {w : List UInt8} (hw : w ∈ W)
    {t : Nat} (ht : t < n) (hsuf : w <:+ image.toList (t + 1)) {i : Nat} (hi : t + 1 - w.length ≤ i)
    (hit : i ≤ t) : tc' i = star := by
  obtain ⟨ps, -, hP⟩ := replaceRound_rule h (roundOk_full hW)
    (fun _ t tc _ => ∀ w ∈ W, ∀ s, s < t → w <:+ image.toList (s + 1) →
      ∀ i, s + 1 - w.length ≤ i → i ≤ s → tc i = star)
    (fun _ _ _ _ _ _ _ hk => absurd rfl hk)
    (by
      intro ps t tc flag ht hinv hP _ hno w hw s hs hsuf
      rcases Nat.lt_or_eq_of_le (Nat.le_of_lt_succ hs) with hlt | rfl
      · exact hP w hw s hlt hsuf
      · exact absurd ⟨w, hw, hinv.read_word (fun c hc => plain_ne_minus hW hw hc) hsuf⟩ hno)
    (by
      intro ps t tc flag v tc' ht hinv hP _ hlong hwalk w hw s hs hsuf i hi his
      have hreach := walk_reach backward_full _ hwalk i
      rcases Nat.lt_trichotomy s t with hlt | rfl | hgt
      · -- an earlier occurrence keeps its stars
        have hold := hP w hw s hlt hsuf i hi his
        rw [hreach, hold]
        exact ite_self _
      · obtain ⟨hte, -, hfill⟩ := matchEnd_spec roundFull image ht
        have hle : w.length ≤ v.length :=
          hlong.2.2 w hw (hinv.read_word (fun c hc => plain_ne_minus hW hw hc) hsuf)
        have hnone : countIn countsFull tc (matchEnd roundFull image n s + 1) =
            countIn countsFull tc (s + 1) := by
          refine countIn_of_none (by omega) fun j h1 h2 => ?_
          rw [hinv.tail j (by omega), (hfill j (by omega) (by omega)).2]
          decide
        have hfew : countIn countsFull tc (s + 1) ≤ countIn countsFull tc (i + 1) + (s - i) := by
          unfold countIn
          obtain ⟨k, hk⟩ : ∃ k, s + 1 = i + 1 + k := ⟨s - i, by omega⟩
          rw [hk, toList_add, List.countP_append]
          have := List.countP_le_length (p := countsFull) (l := Buf.toList (fun j => tc (i + 1 + j)) k)
          rw [Buf.toList_length] at this
          omega
        rw [hreach]
        refine if_pos ⟨by omega, ?_, rfl⟩
        show countIn countsFull tc _ < countIn countsFull tc (i + 1) + v.length
        omega
      · -- no word ends on a filler
        exfalso
        have hfiller := ((matchEnd_spec roundFull image ht).2.2 s hgt (by omega)).2
        exact plain_ne_minus hW hw (suffix_byte hsuf (by omega) (Nat.lt_succ_self s)) hfiller)
    heq (fun _ _ _ hs => absurd hs (Nat.not_lt_zero _))
  exact hP w hw t ht hsuf i hi hit

/-- A replacement writes nothing but stars, and nothing at all when it returns 0. -/
theorem Compiled.replace_stars (h : Compiled W a) (hW : Plain W) (tc tc1 : Buf) {m m' : List UInt8}
    {jumpTag ret : Int} (hm : (m.length : Int) ≤ maxStrBuffer)
    (heq : acsmPatternReplace a tc tc1 m m.length jumpTag = some (m', ret)) :
    (∀ k : Nat, m'[k]? = m[k]? ∨ m'[k]? = some star) ∧ (ret = 0 → m' = m) := by
  obtain ⟨image, tc0, tcA, tcO, f0, fA, ret', hlist, h0, hA, hO, hrep⟩ := h.replace_rounds hW tc tc1
    jumpTag hm
  obtain ⟨rfl, rfl⟩ : m' = mergeStars m m.length tc0 tcA tcO ∧ ret = ret' := by
    have := heq.symm.trans hrep
    simpa using this
  obtain ⟨-, hf0⟩ := replaceRound_stars h (roundOk_full hW) h0
  obtain ⟨-, hfA⟩ := replaceRound_stars h (roundOk_alpha W) hA
  obtain ⟨-, hfO⟩ := replaceRound_stars h (roundOk_other W) hO
  constructor
  · intro k
    rcases Nat.lt_or_ge k m.length with hk | hk
    · rw [mergeStars_get hk, List.getElem?_eq_getElem hk]
      split
      · exact .inr rfl
      · exact .inl rfl
    · left
      rw [List.getElem?_eq_none hk, List.getElem?_eq_none (by rw [mergeStars_length]; exact hk)]
  · rintro rfl
    obtain ⟨rfl, rfl⟩ := hfO.resolve_left (by decide)
    obtain ⟨rfl, rfl⟩ := hfA.resolve_left (by decide)
    obtain ⟨-, rfl⟩ := hf0.resolve_left (by decide)
    apply List.ext_getElem?
    intro k
    rcases Nat.lt_or_ge k m.length with hk | hk
    · have hstar := image_starless hlist hk
      rw [mergeStars_get hk, List.getElem?_eq_getElem hk, if_neg (by simp [hstar])]
    · rw [List.getElem?_eq_none hk, List.getElem?_eq_none (by rw [mergeStars_length]; exact hk)]

/-- After the replacement no word of the masked text is left: its bytes are stars. Every other byte is
a star or as it was, and a message for which 0 is returned is as it was. -/
theorem acsmPatternReplace_verbatim (a : AcsmStruct) (words : List (List UInt8)) (ha : a.totalPattern = 0)
    (hwords : words.length ≤ 81920)
    (hsize : 1 + ((storedWords words).flatten.length : Int) ≤ maxState) :
    ∃ F, ∀ fuel, F ≤ fuel → ∃ a', acsmCompile fuel (addPatterns a words) = some (a', 0) ∧
      ∀ (tc tc1 : Buf) (m : List UInt8), (m.length : Int) ≤ maxStrBuffer →
        ∃ m' ret, acsmPatternReplace a' tc tc1 m m.length 0 = some (m', ret) ∧ m'.length = m.length ∧
          (∀ w ∈ storedWords words, ∀ i : Nat, w <+: (stringReplace m m.length).drop i →
            ∀ k, i ≤ k → k < i + w.length → m'[k]? = some star) ∧
          (∀ k : Nat, m'[k]? = m[k]? ∨ m'[k]? = some star) ∧ (ret = 0 → m' = m) := by
  obtain ⟨F, hF⟩ := compiled_of_words a words ha hwords hsize
  refine ⟨F, fun fuel hfuel => ?_⟩
  obtain ⟨a', hc, hcomp⟩ := hF fuel hfuel
  have hW := plain_storedWords words
  refine ⟨a', hc, fun tc tc1 m hm => ?_⟩
  obtain ⟨image, tc0, tcA, tcO, f0, fA, ret, hlist, h0, -, -, hrep⟩ := hcomp.replace_rounds hW tc tc1 0 hm
  obtain ⟨hstars, hclean⟩ := hcomp.replace_stars hW tc tc1 hm hrep
  refine ⟨_, ret, hrep, mergeStars_length m m.length tc0 tcA tcO, ?_, hstars, hclean⟩
  intro w hw i hpre k hik hki
  change image.toList m.length = masked m at hlist
  change w <+: (masked m).drop i at hpre
  have hlen : i + w.length ≤ m.length := by
    have := hpre.length_le
    rw [List.length_drop, masked_length] at this
    omega
  have hsuf : w <:+ image.toList (i + w.length - 1 + 1) := by
    obtain ⟨v, hv⟩ := hpre
    have htake : image.toList (i + w.length) = (masked m).take (i + w.length) := by
      rw [← hlist]
      obtain ⟨u, hu⟩ := prefix_toList image hlen
      rw [← hu, List.take_left' (Buf.toList_length image _)]
    rw [show i + w.length - 1 + 1 = i + w.length by omega, htake, List.take_add, ← hv, List.take_left]
    exact List.suffix_append _ _
  have hstar := roundFull_verbatim hcomp hW h0 hw (t := i + w.length - 1) (by omega) hsuf (i := k)
    (by omega) (by omega)
  rw [mergeStars_get (by omega), if_pos (.inl hstar)]

/-- The word "he" in the message "ahe". -/
theorem acsmPatternReplace_verbatim_he :
    ∃ F, ∀ fuel, F ≤ fuel → ∃ a', acsmCompile fuel (addPatterns acsmNew [[0x68, 0x65]]) = some (a', 0) ∧
      ∀ tc tc1, ∃ m' ret, acsmPatternReplace a' tc tc1 [0x61, 0x68, 0x65] 3 0 = some (m', ret) ∧
        m'.length = 3 ∧ m'[1]? = some star ∧ m'[2]? = some star := by
  obtain ⟨F, hF⟩ := acsmPatternReplace_verbatim acsmNew [[0x68, 0x65]] rfl (by decide) (by decide)
  refine ⟨F, fun fuel hfuel => ?_⟩
  obtain ⟨a', hc, h⟩ := hF fuel hfuel
  refine ⟨a', hc, fun tc tc1 => ?_⟩
  obtain ⟨m', ret, heq, hlen, hword, -⟩ := h tc tc1 [0x61, 0x68, 0x65] (by decide)
  have hstar := hword [0x48, 0x45] (by decide) 1 (by decide)
  exact ⟨m', ret, heq, hlen, hstar 1 (by decide) (by decide), hstar 2 (by decide) (by decide)⟩

end Taomee.Dirty
