import Taomee.Dirty.Lemmas.Matcher
import Taomee.Dirty.Lemmas.Stretch

/-!
# Replacement covers the words among the letters and among the other bytes

The second and third round of `acsm_pattern_replace` read a part of the masked text. The third round
stars every word that stands in its part. The second round stars the words of the letters, except
where its walk counts stars that an earlier walk left on fillers.
-/

namespace Taomee.Dirty

open Taomee.Words

/-- The positions of the bytes of a kind. -/
def positions (keep : UInt8 → Bool) (r : List UInt8) : List Nat :=
  (List.range r.length).filter fun i => keep (byteAt r i)

/-- Wherever consecutive bytes of the kind `keep` in `r` spell a word, `m'` has stars. -/
def Covered (W : List (List UInt8)) (keep : UInt8 → Bool) (r m' : List UInt8) : Prop :=
  ∀ qs, qs <:+: positions keep r → qs.map (byteAt r) ∈ W → ∀ q ∈ qs, m'[q]? = some star

variable {W : List (List UInt8)} {keep : UInt8 → Bool}

theorem filter_range_split {K : Nat → Bool} {n q : Nat} {x y : List Nat}
    (h : (List.range n).filter K = x ++ q :: y) : x = (List.range q).filter K ∧ q < n ∧ K q = true := by
  have hq : q ∈ (List.range n).filter K := by
    rw [h]
    exact List.mem_append_right x List.mem_cons_self
  obtain ⟨hqn, hkq⟩ := List.mem_filter.mp hq
  have hqn : q < n := List.mem_range.mp hqn
  refine ⟨?_, hqn, hkq⟩
  obtain ⟨k, rfl⟩ : ∃ k, n = q + (k + 1) := ⟨n - q - 1, by omega⟩
  have hsplit : (List.range (q + (k + 1))).filter K =
      (List.range q).filter K ++ q :: ((List.range' (q + 1) k).filter K) := by
    rw [List.range_eq_range', ← List.range'_append_1, List.filter_append, Nat.zero_add, List.range'_succ,
      List.filter_cons_of_pos hkq, ← List.range_eq_range']
  rw [h] at hsplit
  have hlow : q ∉ (List.range q).filter K := fun hmem =>
    absurd (List.mem_range.mp (List.mem_filter.mp hmem).1) (Nat.lt_irrefl q)
  have hhigh : q ∉ (List.range' (q + 1) k).filter K := fun hmem => by
    have := List.mem_range'_1.mp (List.mem_filter.mp hmem).1
    omega
  exact ((List.append_cons_inj_of_notMem hlow hhigh).mp hsplit.symm).1.symm

/-- As many bytes of a kind are in front of a position as positions of them. -/
theorem countIn_positions {image : Buf} {q : Nat} {x : List Nat}
    (h : x = (List.range q).filter fun i => keep (image i)) : countIn keep image q = x.length := by
  rw [← filter_toList_length, Buf.toList, List.filter_map, List.length_map, h]
  rfl

/-- A word among the bytes of a kind lies on a stretch. -/
theorem onStretch_of_word (hW : [] ∉ W) {r : List UInt8} {qs : List Nat} (hqs : qs <:+: positions keep r)
    (hword : qs.map (byteAt r) ∈ W) {q : Nat} (hq : q ∈ qs) :
    q < r.length ∧ keep (byteAt r q) = true ∧ ∃ t < r.length, OnStretch W keep r q t := by
  obtain ⟨x, y, hxy⟩ := hqs
  -- the last byte of the word
  obtain ⟨c, t, rfl⟩ : ∃ c t, qs = c ++ [t] := by
    have hne : qs ≠ [] := List.ne_nil_of_mem hq
    exact ⟨qs.dropLast, qs.getLast hne, (List.dropLast_append_getLast hne).symm⟩
  obtain ⟨hlow, htr, hkt⟩ := filter_range_split (x := x ++ c) (q := t) (y := y) (hxy.symm.trans (by simp))
  -- the byte `q` of the word
  obtain ⟨c1, c2, hc⟩ := List.append_of_mem hq
  obtain ⟨hlowq, hqr, hkq⟩ := filter_range_split (x := x ++ c1) (q := q) (y := c2 ++ y)
    (hxy.symm.trans (by rw [hc]; simp))
  have himage := toList_byteAt r
  have hlast := countIn_positions hlow
  have hcount := countIn_positions hlowq
  have hread : (Buf.toList (byteAt r) (t + 1)).filter keep = (x ++ (c ++ [t])).map (byteAt r) := by
    rw [toList_succ, List.filter_append, List.filter_cons_of_pos hkt, List.filter_nil, Buf.toList,
      List.filter_map, ← List.append_assoc, hlow, List.map_append]
    rfl
  have hsuffix : (c ++ [t]).map (byteAt r) <:+ (r.take (t + 1)).filter keep := by
    rw [← himage, toList_take htr, himage, hread]
    exact ⟨x.map (byteAt r), List.map_append.symm⟩
  obtain ⟨f, hf⟩ := exists_stretch hW htr hkt ⟨_, hword, hsuffix⟩
  have hlonger := hf.2.2.2.2.2.2 _ hword hsuffix
  have hlen : countIn keep (byteAt r) (t + 1) = countIn keep (byteAt r) f +
      (((r.take (t + 1)).drop f).filter keep).length := by
    have := @Stretch.length W keep (byteAt r) r.length f t (by rwa [himage])
    rwa [himage] at this
  refine ⟨hqr, hkq, t, htr, ?_, f, ?_, hf⟩
  · rcases List.mem_append.mp hq with hmem | hmem
    · have : q ∈ x ++ c := List.mem_append_right x hmem
      rw [hlow] at this
      exact Nat.le_of_lt (List.mem_range.mp (List.mem_filter.mp this).1)
    · exact Nat.le_of_eq (List.mem_singleton.mp hmem)
  · -- the stretch holds as many bytes of the kind as the word, and more if `q` were in front of it
    by_contra hlt
    have hqf := countIn_lt (show q < f by omega) hkq
    have hparts := congrArg List.length hc
    rw [countIn_succ, if_pos hkt] at hlen
    simp only [List.length_append, List.length_map, List.length_cons, List.length_nil] at *
    omega

/-! ## Three rounds -/

/-- A byte that a round covers is starred in the text. -/
theorem Compiled.replace_covered {a : AcsmStruct} (h : Compiled W a) (hplain : Plain W) (tc tc1 : Buf)
    {m : List UInt8} (hm : (m.length : Int) ≤ maxStrBuffer) :
    ∃ m' ret, acsmPatternReplace a tc tc1 m m.length 0 = some (m', ret) ∧
      Covered W roundOther.keep (masked m) m' ∧
      (¬ CutShort W (masked m) → Covered W isAsciiAlpha (masked m) m') := by
  have hW : [] ∉ W := fun hmem => h.words.nonempty _ hmem rfl
  obtain ⟨image, tc0, tcA, tcO, f0, fA, ret, hlist, h0, hA, hO, hrep⟩ :=
    h.replace_rounds hplain tc tc1 0 hm
  have hstarless : ∀ i, i < m.length → image i ≠ star := fun i hi => image_starless hlist hi
  rw [queryText_zero] at hlist
  have hlen : (masked m).length = m.length := masked_length m
  have himage : ∀ {q}, q < m.length → byteAt (masked m) q = image q := fun hq => by
    rw [← hlist, byteAt_toList hq]
  refine ⟨_, ret, hrep, fun qs hqs hword q hq => ?_, fun hcut qs hqs hword q hq => ?_⟩
  · obtain ⟨hqr, hkq, t, -, hon⟩ := onStretch_of_word hW hqs hword hq
    rw [hlen] at hqr
    rw [himage hqr] at hkq
    have := roundOther_covers h hstarless hO (hlist ▸ hon) hkq
    rw [mergeStars_get hqr, if_pos (.inr (.inr this))]
  · obtain ⟨hqr, hkq, ht⟩ := onStretch_of_word hW hqs hword hq
    obtain ⟨t, htr, hon, hfree⟩ : ∃ t < (masked m).length, OnStretch W isAsciiAlpha (masked m) q t ∧
        ¬ Interrupted W (masked m) q t := by
      by_contra hall
      refine hcut ⟨q, hqr, hkq, ht, fun t htr hon => ?_⟩
      by_contra hfree
      exact hall ⟨t, htr, hon, hfree⟩
    rw [hlen] at hqr
    rw [himage hqr] at hkq
    have := roundAlpha_covers h hstarless hA (hlist ▸ hon) hkq (by rwa [hlist])
    rw [mergeStars_get hqr, if_pos (.inr (.inl this))]

/-- Replacement stars every word among the bytes that are neither letters nor digits, and every word
among the letters unless a word is cut short. -/
theorem acsmPatternReplace_covered (a : AcsmStruct) (words : List (List UInt8)) (ha : a.totalPattern = 0)
    (hwords : words.length ≤ 81920)
    (hsize : 1 + ((storedWords words).flatten.length : Int) ≤ maxState) :
    ∃ F, ∀ fuel, F ≤ fuel → ∃ a', acsmCompile fuel (addPatterns a words) = some (a', 0) ∧
      ∀ (tc tc1 : Buf) (m : List UInt8), (m.length : Int) ≤ maxStrBuffer →
        ∃ m' ret, acsmPatternReplace a' tc tc1 m m.length 0 = some (m', ret) ∧
          Covered (storedWords words) roundOther.keep (masked m) m' ∧
          (¬ CutShort (storedWords words) (masked m) →
            Covered (storedWords words) isAsciiAlpha (masked m) m') := by
  obtain ⟨F, hF⟩ := compiled_of_words a words ha hwords hsize
  refine ⟨F, fun fuel hfuel => ?_⟩
  obtain ⟨a', hc, hcomp⟩ := hF fuel hfuel
  exact ⟨a', hc, fun tc tc1 m hm => hcomp.replace_covered (plain_storedWords words) tc tc1 hm⟩

/-- The word "ab" in the message "ＡＢ" in full-width letters. -/
theorem acsmPatternReplace_covered_ab :
    ∃ F, ∀ fuel, F ≤ fuel → ∃ a', acsmCompile fuel (addPatterns acsmNew [[0x61, 0x62]]) = some (a', 0) ∧
      ∀ tc tc1, ∃ m' ret,
        acsmPatternReplace a' tc tc1 [0xEF, 0xBC, 0xA1, 0xEF, 0xBC, 0xA2] 6 0 = some (m', ret) ∧
        m'[0]? = some star ∧ m'[3]? = some star := by
  obtain ⟨F, hF⟩ := acsmPatternReplace_covered acsmNew [[0x61, 0x62]] rfl (by decide) (by decide)
  refine ⟨F, fun fuel hfuel => ?_⟩
  obtain ⟨a', hc, h⟩ := hF fuel hfuel
  refine ⟨a', hc, fun tc tc1 => ?_⟩
  obtain ⟨m', ret, heq, -, hletters⟩ := h tc tc1 [0xEF, 0xBC, 0xA1, 0xEF, 0xBC, 0xA2] (by decide)
  have hcovered := hletters (by decide +kernel) [0, 3] (by decide +kernel) (by decide +kernel)
  exact ⟨m', ret, heq, hcovered 0 (by decide), hcovered 3 (by decide)⟩

/-- Replacement does not star every word among the letters: the words "ab" and "xabc" in the message
"ＸＡＢＣ" in full-width letters. -/
theorem not_acsmPatternReplace_covered :
    ¬ ∀ (a : AcsmStruct) (words : List (List UInt8)), a.totalPattern = 0 → words.length ≤ 81920 →
      1 + ((storedWords words).flatten.length : Int) ≤ maxState →
      ∀ fuel a', acsmCompile fuel (addPatterns a words) = some (a', 0) →
      ∀ (tc tc1 : Buf) (m : List UInt8), (m.length : Int) ≤ maxStrBuffer →
      ∀ m' ret, acsmPatternReplace a' tc tc1 m m.length 0 = some (m', ret) →
        Covered (storedWords words) isAsciiAlpha (masked m) m' ∧
          Covered (storedWords words) roundOther.keep (masked m) m' := by
  intro h
  obtain ⟨F, hF⟩ := compiled_of_words acsmNew [[0x61, 0x62], [0x78, 0x61, 0x62, 0x63]] rfl (by decide)
    (by decide)
  obtain ⟨a', hc, hcomp⟩ := hF F (Nat.le_refl _)
  have hreplace : acsmPatternReplace a' (fun _ => 0) (fun _ => 0)
      [0xEF, 0xBC, 0xB8, 0xEF, 0xBC, 0xA1, 0xEF, 0xBC, 0xA2, 0xEF, 0xBC, 0xA3] 12 0 =
      some ([0xEF, 0xBC, 0xB8, 0x2A, 0x2A, 0x2A, 0x2A, 0x2A, 0x2A, 0x2A, 0x2A, 0x2A], 1) := by
    rw [hcomp.replace_eq]
    decide +kernel
  have hout := (h acsmNew [[0x61, 0x62], [0x78, 0x61, 0x62, 0x63]] rfl (by decide) (by decide) F a' hc _ _ _
    (by decide) _ _ hreplace).1
  exact absurd (hout [0, 3, 6, 9] (by decide +kernel) (by decide +kernel) 0 (by decide)) (by decide)

end Taomee.Dirty
