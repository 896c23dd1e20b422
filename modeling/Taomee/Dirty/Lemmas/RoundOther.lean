import Taomee.Dirty.Lemmas.Stars

/-!
# The third round keeps characters whole

The third round reads the characters of several bytes only. Its walks count and star the same bytes,
so they star exactly what a word covers, and a word covers whole characters.
-/

namespace Taomee.Dirty

open Taomee.Utf8 Taomee.Words

variable {W : List (List UInt8)} {image : Buf} {n : Nat}

theorem countsOther_eq (c : UInt8) : countsOther c = roundOther.keep c :=
  forall_byte (P := fun c => countsOther c = roundOther.keep c) (by decide +kernel) c

theorem keepOther_lead {c : UInt8} (h : isLead c = true) : roundOther.keep c = true := by
  obtain ⟨h1, h2, h3, -⟩ := lead_byte_ne h
  simp [roundOther, h1, h2, h3]

theorem keepOther_cont {c : UInt8} (h : isCont c = true) : roundOther.keep c = true := by
  obtain ⟨h1, h2, h3, -⟩ := cont_byte_ne h
  simp [roundOther, h1, h2, h3]

theorem not_keepOther_alnum {c : UInt8} (h : isAsciiAlphaOrNumber c = true) :
    roundOther.keep c = false := by
  simp [roundOther, h]

theorem not_keepOther_minus : roundOther.keep minus = false := by decide

/-- All bytes of a character are read, or none. -/
theorem ImageOk.keepOther (h : ImageOk image n) {p : Nat} (hp : p + 1 < n)
    (hin : inner (image (p + 1)) = true) :
    roundOther.keep (image (p + 1)) = roundOther.keep (image p) := by
  unfold inner at hin
  simp only [Bool.or_eq_true, decide_eq_true_eq] at hin
  rcases hin with hm | hc
  · obtain ⟨x, -, hor, hxa, h1, -, -⟩ := h.filler _ hp hm
    rw [hm, not_keepOther_minus]
    rcases hor with hor | hor
    · obtain rfl : p = x := by omega
      exact (not_keepOther_alnum hxa).symm
    · obtain rfl : p = x + 1 := by omega
      rw [h1, not_keepOther_minus]
  · obtain ⟨q, hq, hlt, hlead⟩ := h.cont _ hp hc
    rw [keepOther_cont hc]
    rcases Nat.lt_or_eq_of_le (Nat.le_of_lt_succ hq) with hqp | rfl
    · exact (keepOther_cont ((h.lead q (by omega) hlead).2.1 p hqp (by omega))).symm
    · exact (keepOther_lead hlead).symm

/-- A word of read bytes ends with a character of several bytes, and it ends where this one does. -/
theorem endsAt_other (him : ImageOk image n) {ps : List Nat} {t : Nat} {tc : Buf} (ht : t < n)
    (hinv : RoundInv roundOther image n ps t tc) {w : List UInt8} (hw : WordOk w)
    (hword : ∀ c ∈ w, roundOther.keep c = true) (hsuf : w <:+ (ps ++ [t]).map image) :
    EndsAt image t := by
  obtain ⟨v, tok, rfl, htok⟩ := hw.last
  have hread : ∀ p, p < t → roundOther.keep (image p) = true → p ∈ ps := fun p hp hk =>
    (hinv.all p hp hk).resolve_right fun h => by simp [roundOther] at h
  cases htok with
  | half b hb =>
      have := hword b (by simp)
      simp [not_keepOther_alnum hb] at this
  | raw hm =>
      obtain ⟨l, es, hl, hes, -⟩ := hm
      obtain ⟨s, hst, -, hs, hkt, hfilter⟩ := match_range hinv hread
        (fun c hc => hword c (List.mem_append_right v hc)) (by simp)
        ((List.suffix_append v (l :: es)).trans hsuf)
      have hcount := filter_range_length roundOther.keep image (show s ≤ t + 1 by omega)
      rw [hfilter, List.length_cons, hes] at hcount
      have hsl : image s = l := by
        have hrange : t + 1 - s = (t - s) + 1 := by omega
        rw [hrange, List.range'_succ, List.map_cons, List.filter_cons_of_pos hs] at hfilter
        exact (List.cons.inj hfilter).1
      rw [← hsl] at hl hcount
      obtain ⟨h1, h2, -⟩ := him.lead s (by omega) hl
      refine .inr ⟨s, hl, hst, ?_⟩
      -- from the lead byte on, the bytes of its character count
      have hchar : countIn roundOther.keep image (s + charLen (image s)) =
          countIn roundOther.keep image s + charLen (image s) := by
        have := @countIn_of_all image roundOther.keep _ _
          (Nat.le_add_right s (charLen (image s))) fun i hi1 hi2 => by
            rcases Nat.lt_or_eq_of_le hi1 with hlt | rfl
            · exact keepOther_cont (h2 i hlt hi2)
            · exact hs
        omega
      rcases Nat.lt_trichotomy (s + charLen (image s)) (t + 1) with hlt | heq | hgt
      · have h3 := countIn_mono roundOther.keep image (Nat.le_of_lt_succ hlt)
        rw [countIn_succ, if_pos hkt] at hcount
        omega
      · exact heq
      · have h3 := @countIn_of_all image roundOther.keep _ _ (show s ≤ t + 1 by omega)
          fun i hi1 hi2 => by
            rcases Nat.lt_or_eq_of_le hi1 with hlt | rfl
            · exact keepOther_cont (h2 i hlt (by omega))
            · exact hs
        omega

/-- Behind a character of several bytes another character begins. -/
theorem ImageOk.after_other (h : ImageOk image n) {t : Nat} (he : EndsAt image t)
    (hk : roundOther.keep (image t) = true) (ht : t + 1 < n) : inner (image (t + 1)) = false := by
  unfold inner
  simp only [Bool.or_eq_false_iff, decide_eq_false_iff_not]
  refine ⟨fun hm => ?_, h.not_cont he ht⟩
  have := h.keepOther ht (by simp [inner, hm])
  rw [hm, not_keepOther_minus, hk] at this
  exact Bool.false_ne_true this

/-- What the third round leaves. -/
theorem roundOther_uniform {a : AcsmStruct} (h : Compiled W a) (hword : ∀ w ∈ W, WordOk w)
    (him : ImageOk image n) (hstarless : ∀ i, i < n → image i ≠ star) (flag : Int) :
    ∃ tc' flag', replaceRound a roundOther n image flag = some (tc', flag') ∧
      Uniform image tc' n ∧ ∀ p, p < n → tc' p = star → image p ≠ plus := by
  obtain ⟨ps, tc', flag', heq, -, hun, hstars⟩ := @replaceLoop_rule W a roundOther image n h
    (roundOk_other W)
    (fun _ _ tc _ => Uniform image tc n ∧
      ∀ p, p < n → tc p = star → roundOther.keep (image p) = true)
    (fun _ _ _ _ _ _ hP _ => hP)
    (fun _ _ _ _ _ _ hP _ _ => hP)
    (by
      rintro ps t tc flag' w tc' ht hinv ⟨hun, hstars⟩ hk hlong hwalk
      have hread : ∀ p, p < t → roundOther.keep (image p) = true → p ∈ ps := fun p hp hkp =>
        (hinv.all p hp hkp).resolve_right fun h => by simp [roundOther] at h
      have hkeep : ∀ c ∈ w, roundOther.keep c = true := by
        intro c hc
        obtain ⟨p, hp, rfl⟩ := List.mem_map.mp (hlong.2.1.subset hc)
        rcases List.mem_append.mp hp with hp | hp
        · exact (hinv.fed p hp).2
        · rwa [List.mem_singleton.mp hp]
      obtain ⟨s, hst, -, hs, -, hfilter⟩ := match_range hinv hread hkeep
        (h.words.nonempty w hlong.1) hlong.2.1
      -- the copy counts where the image is read
      have hcounts : ∀ i, i < n → countsOther (tc i) = roundOther.keep (image i) := by
        intro i hi
        rcases hinv.stars i with heq | ⟨-, heq⟩
        · rw [heq, countsOther_eq]
        · rw [heq, hstars i hi heq]
          decide
      have hlen : countIn countsOther tc (t + 1) = countIn countsOther tc s + w.length := by
        have hsame : ∀ k, k ≤ n → countIn countsOther tc k = countIn roundOther.keep image k := by
          intro k hk
          unfold countIn Buf.toList
          rw [List.countP_map, List.countP_map]
          refine List.countP_congr fun i hi => ?_
          have := List.mem_range.mp hi
          simp only [Function.comp_apply, hcounts i (by omega)]
        rw [hsame _ ht, hsame _ (by omega), filter_range_length _ _ (show s ≤ t + 1 by omega), hfilter]
      obtain ⟨tc'', hwalk', hwrote⟩ := @walk_exact countsOther countsOther (t + 1) s w.length tc (by omega) hlen
        fun _ => by rw [hcounts s (by omega), hs]
      obtain rfl : tc' = tc'' := Option.some.inj (hwalk.symm.trans hwalk')
      have hrange : ∀ i, tc' i = star ↔
          tc i = star ∨ (s ≤ i ∧ i < t + 1 ∧ roundOther.keep (image i) = true) := by
        intro i
        rw [hwrote i]
        by_cases hr : s ≤ i ∧ i < t + 1
        · simp only [hr.1, hr.2, true_and, hcounts i (by omega)]
          split
          · simp [*]
          · simp [*]
        · rw [if_neg fun hx => hr ⟨hx.1, hx.2.1⟩]
          exact ⟨.inl, fun hor => hor.elim id fun hx => absurd ⟨hx.1, hx.2.1⟩ hr⟩
      refine ⟨hun.extend (fun p hp hin => by rw [him.keepOther hp hin]) ?_ ?_ hrange, fun p hp hstar => ?_⟩
      · obtain ⟨b, v, rfl, hb⟩ := (hword w hlong.1).head
        rw [show t + 1 - s = (t - s) + 1 by omega, List.range'_succ, List.map_cons,
          List.filter_cons_of_pos hs] at hfilter
        rw [(List.cons.inj hfilter).1]
        exact hb
      · exact him.after_other (endsAt_other him ht hinv (hword w hlong.1) hkeep hlong.2.1) hk
      · rcases (hrange p).mp hstar with hp' | hp'
        · exact hstars p hp hp'
        · exact hp'.2.2)
    n _ _ _ _ (Nat.le_add_left _ _) (RoundInv.init roundOther image n)
    ⟨fun p hp hin => iff_of_false (hstarless _ hp) (hstarless _ (by omega)),
      fun p hp hstar => absurd hstar (hstarless p hp)⟩
  refine ⟨tc', flag', heq, hun, fun p hp hstar hplus => ?_⟩
  have := hstars p hp hstar
  rw [hplus] at this
  exact absurd this (by decide)

end Taomee.Dirty
