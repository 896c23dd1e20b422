import Taomee.Dirty.Agree
import Taomee.Dirty.Lemmas.Stars

/-!
# How far a walk comes

A walk stars what its test selects from the last byte that it counts on. A replacement is three
rounds over one image, and what holds of the result is what holds of the three copies.
-/

namespace Taomee.Dirty

open Taomee.Words

/-! ## The reach of a walk -/

variable {count : UInt8 → Bool} {write : Buf → Nat → Bool}

/-- The test of a walk looks at the byte it comes to and at bytes in front of it. -/
def Backward (write : Buf → Nat → Bool) : Prop :=
  ∀ b b' i, (∀ k, k ≤ i → b k = b' k) → write b i = write b' i

theorem backward_full : Backward starsFull := fun _ _ _ _ => rfl

theorem backward_other : Backward starsOther := by
  intro b b' i h
  unfold starsOther
  rw [h i (Nat.le_refl i)]

theorem backward_alpha : Backward starsAlpha := by
  intro b b' i h
  unfold starsAlpha
  rw [h i (Nat.le_refl i), h (i - 1) (Nat.sub_le i 1), h (i - 2) (Nat.sub_le i 2)]

theorem countIn_congr {tc tc' : Buf} {n : Nat} (h : ∀ i, i < n → tc i = tc' i) :
    countIn count tc n = countIn count tc' n := by
  unfold countIn
  rw [Buf.toList_congr h]

/-- A walk stars exactly the selected bytes behind which fewer than `left` bytes count. The induction
is on the position; the bytes below it are as they were. -/
theorem walk_reach (hback : Backward write) (pos : Nat) : ∀ {left : Nat} {tc tc' : Buf},
    walk count write pos left tc = some tc' →
    ∀ i, tc' i = if i < pos ∧ countIn count tc pos < countIn count tc (i + 1) + left ∧ write tc i
      then star else tc i := by
  induction pos with
  | zero =>
      intro left tc tc' h i
      unfold walk at h
      split at h
      · cases h
        rw [if_neg fun h => Nat.not_lt_zero i h.1]
      · cases h
  | succ tmp ih =>
      intro left tc tc' h i
      unfold walk at h
      by_cases hl : left = 0
      · rw [if_pos hl] at h
        cases h
        subst hl
        refine (if_neg fun hi => ?_).symm
        have := countIn_mono count tc (show i + 1 ≤ tmp + 1 from hi.1)
        omega
      rw [if_neg hl] at h
      generalize hw : (if write tc tmp then tc.set tmp star else tc) = tc1 at h
      have hne : ∀ k, k ≠ tmp → tc1 k = tc k := by
        intro k hk
        rw [← hw]
        split
        · exact Buf.set_ne _ _ hk
        · rfl
      have hself : tc1 tmp = if write tc tmp then star else tc tmp := by
        rw [← hw]
        split
        · exact Buf.set_self _ _ _
        · rfl
      have hcount : ∀ k, k ≤ tmp → countIn count tc1 k = countIn count tc k := fun k hk =>
        countIn_congr fun j hj => hne j (by omega)
      have hsucc := countIn_succ count tc tmp
      rw [ih h i, hcount tmp (Nat.le_refl _)]
      rcases Nat.lt_trichotomy i tmp with hlt | rfl | hgt
      · have hwrite : write tc1 i = write tc i := hback _ _ _ fun k hk => hne k (by omega)
        rw [hwrite, hcount (i + 1) hlt, hne i (by omega)]
        refine if_congr ?_ rfl rfl
        split at hsucc
        · have : count (tc tmp) = true := by assumption
          rw [if_pos this]
          constructor
          · rintro ⟨-, h2, h3⟩
            exact ⟨by omega, by omega, h3⟩
          · rintro ⟨-, h2, h3⟩
            exact ⟨hlt, by omega, h3⟩
        · have : ¬ count (tc tmp) = true := by assumption
          rw [if_neg this]
          constructor
          · rintro ⟨-, h2, h3⟩
            exact ⟨by omega, by omega, h3⟩
          · rintro ⟨-, h2, h3⟩
            exact ⟨hlt, by omega, h3⟩
      · rw [if_neg fun h => Nat.lt_irrefl i h.1, hself]
        refine if_congr ?_ rfl rfl
        exact ⟨fun h => ⟨Nat.lt_succ_self i, by omega, h⟩, fun h => h.2.2⟩
      · rw [if_neg fun h => by omega, if_neg fun h => by omega, hne i (by omega)]

theorem walk_star (hback : Backward write) {pos left : Nat} {tc tc' : Buf}
    (h : walk count write pos left tc = some tc') {i : Nat} (hi : tc' i ≠ tc i) :
    i < pos ∧ countIn count tc pos < countIn count tc (i + 1) + left ∧ write tc i = true := by
  by_contra hcon
  refine hi ?_
  rw [walk_reach hback pos h i, if_neg hcon]

/-! ## One round -/

variable {W : List (List UInt8)} {a : AcsmStruct} {r : Round} {image : Buf} {n : Nat}

theorem replaceRound_rule (h : Compiled W a) (hr : RoundOk W r)
    (P : List Nat → Nat → Buf → Int → Prop)
    (pass : ∀ ps t tc flag, t < n → RoundInv r image n ps t tc → P ps t tc flag →
      ¬ r.keep (image t) → P ps (t + 1) tc flag)
    (step : ∀ ps t tc flag, t < n → RoundInv r image n ps t tc → P ps t tc flag →
      r.keep (image t) → ¬ Hit W ((ps ++ [t]).map image) → P (ps ++ [t]) (t + 1) tc flag)
    (hit : ∀ ps t tc flag w tc', t < n → RoundInv r image n ps t tc → P ps t tc flag →
      r.keep (image t) → LongestHit W ((ps ++ [t]).map image) w →
      walk r.count r.write (matchEnd r image n t + 1) w.length tc = some tc' →
      P (ps ++ [t]) (matchEnd r image n t + 1) tc' 1)
    {flag flag' : Int} {tc' : Buf} (heq : replaceRound a r n image flag = some (tc', flag'))
    (hP : P [] 0 image flag) : ∃ ps, RoundInv r image n ps n tc' ∧ P ps n tc' flag' := by
  obtain ⟨ps, tc'', flag'', heq', hinv, hP'⟩ := @replaceLoop_rule W a r image n h hr P pass step hit
    n _ _ _ _ (Nat.le_add_left _ _) (RoundInv.init r image n) hP
  obtain ⟨rfl, rfl⟩ : tc' = tc'' ∧ flag' = flag'' := by
    have := heq.symm.trans heq'
    simpa using this
  exact ⟨ps, hinv, hP'⟩

/-- A round writes nothing but stars, and nothing at all when it leaves `flag` as it was. -/
theorem replaceRound_stars (h : Compiled W a) (hr : RoundOk W r) {flag flag' : Int} {tc' : Buf}
    (heq : replaceRound a r n image flag = some (tc', flag')) :
    (∀ i, tc' i = image i ∨ tc' i = star) ∧ (flag' = 1 ∨ (flag' = flag ∧ tc' = image)) := by
  obtain ⟨ps, hinv, hflag⟩ := replaceRound_rule h hr
    (fun _ _ tc flag' => flag' = 1 ∨ (flag' = flag ∧ tc = image))
    (fun _ _ _ _ _ _ hP _ => hP) (fun _ _ _ _ _ _ hP _ _ => hP)
    (fun _ _ _ _ _ _ _ _ _ _ _ _ => .inl rfl) heq (.inr ⟨rfl, rfl⟩)
  exact ⟨fun i => (hinv.stars i).imp_right And.right, hflag⟩

/-! ## Three rounds -/

/-- A replacement is three rounds over one image of the text that it works on. -/
theorem Compiled.replace_rounds (h : Compiled W a) (hW : Plain W) (tc tc1 : Buf) {m : List UInt8}
    (jumpTag : Int) (hm : (m.length : Int) ≤ maxStrBuffer) :
    ∃ (image tc0 tcA tcO : Buf) (f0 fA ret : Int),
      image.toList m.length = masked (queryText tc1 m jumpTag) ∧
      replaceRound a roundFull m.length image 0 = some (tc0, f0) ∧
      replaceRound a roundAlpha m.length image f0 = some (tcA, fA) ∧
      replaceRound a roundOther m.length image fA = some (tcO, ret) ∧
      acsmPatternReplace a tc tc1 m m.length jumpTag =
        some (mergeStars m m.length tc0 tcA tcO, ret) := by
  have hlen := queryText_length tc1 m jumpTag
  have hmask : stringReplace (maskTags tc1 m m.length jumpTag) m.length =
      masked (queryText tc1 m jumpTag) := by
    unfold masked
    rw [hlen]
    rfl
  have hlist : (tc.store (masked (queryText tc1 m jumpTag))).toList m.length =
      masked (queryText tc1 m jumpTag) := by
    have := Buf.toList_store tc (masked (queryText tc1 m jumpTag))
    rwa [masked_length, hlen] at this
  generalize htc : tc.store (masked (queryText tc1 m jumpTag)) = image at hlist
  obtain ⟨ps0, tc0, h0, -⟩ := replaceRound_flag h (roundOk_full hW) m.length image 0
  obtain ⟨ps1, tcA, h1, -⟩ := replaceRound_flag h (roundOk_alpha W) m.length image _
  obtain ⟨ps2, tcO, h2, -⟩ := replaceRound_flag h (roundOk_other W) m.length image _
  refine ⟨image, tc0, tcA, tcO, _, _, _, hlist, h0, h1, h2, ?_⟩
  unfold acsmPatternReplace
  rw [if_neg (Int.not_lt.mpr hm)]
  simp only [hmask, htc, Int.toNat_natCast, h0, h1, h2]

theorem mergeStars_length (tx : List UInt8) (n : Nat) (tc0 tc1 tc2 : Buf) :
    (mergeStars tx n tc0 tc1 tc2).length = tx.length := by
  unfold mergeStars
  simp

theorem mergeStars_get {m : List UInt8} {tc0 tc1 tc2 : Buf} {i : Nat} (hi : i < m.length) :
    (mergeStars m m.length tc0 tc1 tc2)[i]? =
      some (if tc0 i = star ∨ tc1 i = star ∨ tc2 i = star then star else m[i]) := by
  unfold mergeStars
  rw [List.getElem?_mapIdx, List.getElem?_eq_getElem hi, Option.map_some]
  simp [hi]

theorem image_starless {q : List UInt8} (h : image.toList n = masked q) {i : Nat} (hi : i < n) :
    image i ≠ star := by
  intro heq
  refine star_notMem_masked q ?_
  rw [← h, ← heq]
  exact List.mem_map_of_mem (List.mem_range.mpr hi)

end Taomee.Dirty
