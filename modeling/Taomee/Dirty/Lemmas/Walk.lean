import Taomee.Dirty.Replace
import Taomee.Dirty.Search

/-!
# Walks and rounds of the replacement

A walk that has enough bytes to count never leaves its copy, and only writes stars. A round keeps
what lies ahead as it was, and behind it at least as many bytes that count as it has read; so its
walks always have enough. Facts about a round are proved by one rule on its turns.
-/

namespace Taomee.Dirty

open Taomee.Words

/-! ## Counting in a copy -/

/-- How many of the first `n` bytes count. -/
def countIn (count : UInt8 → Bool) (tc : Buf) (n : Nat) : Nat := (tc.toList n).countP count

variable {count : UInt8 → Bool} {write : Buf → Nat → Bool}

theorem countIn_succ (count : UInt8 → Bool) (tc : Buf) (n : Nat) :
    countIn count tc (n + 1) = countIn count tc n + if count (tc n) then 1 else 0 := by
  unfold countIn Buf.toList
  rw [List.range_succ, List.map_append, List.countP_append]
  simp [List.countP_cons]

theorem countIn_mono (count : UInt8 → Bool) (tc : Buf) {n k : Nat} (h : n ≤ k) :
    countIn count tc n ≤ countIn count tc k := by
  induction h with
  | refl => exact Nat.le_refl _
  | step _ ih =>
      rw [countIn_succ]
      exact Nat.le_add_right_of_le ih

/-- Stars count, so writing stars loses nothing that counts. -/
theorem countIn_le_of_stars (hstar : count star = true) {tc tc' : Buf}
    (h : ∀ i, tc' i = tc i ∨ tc' i = star) (n : Nat) : countIn count tc n ≤ countIn count tc' n := by
  induction n with
  | zero => exact Nat.le_refl _
  | succ n ih =>
      rw [countIn_succ, countIn_succ]
      rcases h n with hn | hn
      · rw [hn]
        exact Nat.add_le_add_right ih _
      · rw [hn, hstar]
        split <;> simp <;> omega

/-! ## A walk -/

/-- A walk over `pos` bytes, of which enough count, ends, and writes nothing but stars there. -/
theorem walk_some (count : UInt8 → Bool) (write : Buf → Nat → Bool) (pos : Nat) : ∀ {left : Nat} {tc : Buf},
    left ≤ countIn count tc pos →
    ∃ tc', walk count write pos left tc = some tc' ∧
      ∀ i, tc' i = tc i ∨ (i < pos ∧ tc' i = star) := by
  induction pos with
  | zero =>
      intro left tc h
      obtain rfl : left = 0 := Nat.le_zero.mp h
      exact ⟨tc, rfl, fun i => .inl rfl⟩
  | succ tmp ih =>
      intro left tc h
      unfold walk
      by_cases hl : left = 0
      · exact ⟨tc, if_pos hl, fun i => .inl rfl⟩
      rw [if_neg hl]
      rw [countIn_succ] at h
      -- the byte written is behind the bytes that are still to be counted
      have hcount : ∀ c, countIn count (tc.set tmp c) tmp = countIn count tc tmp := by
        intro c
        unfold countIn
        rw [Buf.toList_congr fun i hi => Buf.set_ne tc c (Nat.ne_of_lt hi)]
      generalize hl' : (if count (tc tmp) then left - 1 else left) = left'
      have hle : left' ≤ countIn count tc tmp := by
        rw [← hl']
        split at h <;> simp_all
        omega
      split
      · obtain ⟨tc', hw, hi⟩ := ih (hle.trans (Nat.le_of_eq (hcount star).symm))
        refine ⟨tc', hw, fun i => ?_⟩
        by_cases hit : i = tmp
        · subst hit
          rcases hi i with h | ⟨_, h⟩
          · exact .inr ⟨Nat.lt_succ_self _, by rw [h, Buf.set_self]⟩
          · exact .inr ⟨Nat.lt_succ_self _, h⟩
        · rcases hi i with h | ⟨hlt, h⟩
          · exact .inl (by rw [h, Buf.set_ne _ _ hit])
          · exact .inr ⟨Nat.lt_succ_of_lt hlt, h⟩
      · obtain ⟨tc', hw, hi⟩ := ih hle
        refine ⟨tc', hw, fun i => ?_⟩
        rcases hi i with h | ⟨hlt, h⟩
        · exact .inl h
        · exact .inr ⟨Nat.lt_succ_of_lt hlt, h⟩

/-! ## A round -/

variable {W : List (List UInt8)} {a : AcsmStruct} {r : Round} {image : Buf} {n : Nat}

/-- Where a round goes on after a match at `t`. -/
def matchEnd (r : Round) (tc : Buf) (n t : Nat) : Nat := if r.skip then skipFillers tc n t else t

/-- What a round asks of the words: stars count, and so do the bytes of a word that it reads. -/
structure RoundOk (W : List (List UInt8)) (r : Round) : Prop where
  star : r.count star = true
  word : ∀ w ∈ W, ∀ c ∈ w, r.keep c → r.count c

/-- What holds at the head of a round's loop over the copy `image`, with the index at `t` after the
bytes at the positions `ps` were read. -/
structure RoundInv (r : Round) (image : Buf) (n : Nat) (ps : List Nat) (t : Nat) (tc : Buf) :
    Prop where
  le : t ≤ n
  tail : ∀ i, t ≤ i → tc i = image i
  stars : ∀ i, tc i = image i ∨ (i < t ∧ tc i = star)
  counts : (ps.map image).countP r.count ≤ countIn r.count tc t
  sorted : ps.Pairwise (· < ·)
  fed : ∀ p ∈ ps, p < t ∧ r.keep (image p)
  all : ∀ p, p < t → r.keep (image p) → p ∈ ps ∨ (r.skip ∧ image p = minus)

theorem skipFillers_spec (tc : Buf) {n t : Nat} (h : t < n) :
    t ≤ skipFillers tc n t ∧ skipFillers tc n t < n ∧
      ∀ i, t < i → i ≤ skipFillers tc n t → tc i = minus := by
  unfold skipFillers
  split
  · rename_i h1
    split
    · rename_i h2
      refine ⟨by omega, h2.1, fun i hi1 hi2 => ?_⟩
      obtain rfl | rfl : i = t + 1 ∨ i = t + 2 := by omega
      · exact h1.2
      · exact h2.2
    · refine ⟨by omega, h1.1, fun i hi1 hi2 => ?_⟩
      obtain rfl : i = t + 1 := by omega
      exact h1.2
  · exact ⟨Nat.le_refl _, h, fun i hi1 hi2 => by omega⟩

theorem skipFillers_congr {tc tc' : Buf} {t : Nat} (h : ∀ i, t ≤ i → tc i = tc' i) (n : Nat) :
    skipFillers tc n t = skipFillers tc' n t := by
  unfold skipFillers
  rw [h (t + 1) (by omega), h (t + 2) (by omega)]

theorem matchEnd_spec (r : Round) (tc : Buf) {n t : Nat} (h : t < n) :
    t ≤ matchEnd r tc n t ∧ matchEnd r tc n t < n ∧
      ∀ i, t < i → i ≤ matchEnd r tc n t → r.skip ∧ tc i = minus := by
  unfold matchEnd
  split
  · rename_i hs
    obtain ⟨h1, h2, h3⟩ := skipFillers_spec tc h
    exact ⟨h1, h2, fun i hi1 hi2 => ⟨hs, h3 i hi1 hi2⟩⟩
  · exact ⟨Nat.le_refl _, h, fun i hi1 hi2 => by omega⟩

variable {ps : List Nat} {t : Nat} {tc tc' : Buf}

theorem RoundInv.init (r : Round) (image : Buf) (n : Nat) : RoundInv r image n [] 0 image where
  le := Nat.zero_le _
  tail := fun _ _ => rfl
  stars := fun _ => .inl rfl
  counts := Nat.zero_le _
  sorted := .nil
  fed := fun _ h => absurd h List.not_mem_nil
  all := fun _ h => absurd h (Nat.not_lt_zero _)

theorem RoundInv.pass (h : RoundInv r image n ps t tc) (ht : t < n) (hk : ¬ r.keep (image t)) :
    RoundInv r image n ps (t + 1) tc where
  le := ht
  tail := fun i hi => h.tail i (by omega)
  stars := fun i => (h.stars i).imp_right fun hs => ⟨by omega, hs.2⟩
  counts := h.counts.trans (countIn_mono _ _ (Nat.le_succ _))
  sorted := h.sorted
  fed := fun p hp => ⟨Nat.lt_succ_of_lt (h.fed p hp).1, (h.fed p hp).2⟩
  all := by
    intro p hp hkp
    rcases Nat.lt_succ_iff_lt_or_eq.mp hp with hlt | rfl
    · exact h.all p hlt hkp
    · exact absurd hkp hk

/-- Reading the byte at `t` and going on at `e + 1`, with fillers from `t + 1` to `e`. -/
theorem RoundInv.read (h : RoundInv r image n ps t tc) (hk : r.keep (image t)) {e : Nat}
    (hte : t ≤ e) (hen : e < n) (hskip : ∀ i, t < i → i ≤ e → r.skip ∧ image i = minus)
    (hstar : r.count star = true) (hstars : ∀ i, tc' i = tc i ∨ (i < e + 1 ∧ tc' i = star)) :
    RoundInv r image n (ps ++ [t]) (e + 1) tc' where
  le := hen
  tail := by
    intro i hi
    rcases hstars i with heq | ⟨hlt, _⟩
    · rw [heq, h.tail i (by omega)]
    · omega
  stars := by
    intro i
    rcases hstars i with heq | hs
    · rw [heq]
      exact (h.stars i).imp_right fun hs => ⟨by omega, hs.2⟩
    · exact .inr hs
  counts := by
    have hmono : countIn r.count tc (t + 1) ≤ countIn r.count tc' (e + 1) :=
      (countIn_le_of_stars hstar (fun i => (hstars i).imp_right And.right) _).trans
        (countIn_mono _ _ (by omega))
    have := h.counts
    rw [countIn_succ, h.tail t (Nat.le_refl _)] at hmono
    rw [List.map_append, List.countP_append]
    simp only [List.map_cons, List.map_nil, List.countP_singleton]
    omega
  sorted := by
    rw [List.pairwise_append]
    refine ⟨h.sorted, List.pairwise_singleton _ _, fun p hp q hq => ?_⟩
    obtain rfl := List.mem_singleton.mp hq
    exact (h.fed p hp).1
  fed := by
    intro p hp
    rcases List.mem_append.mp hp with hp | hp
    · exact ⟨by have := (h.fed p hp).1; omega, (h.fed p hp).2⟩
    · obtain rfl := List.mem_singleton.mp hp
      exact ⟨by omega, hk⟩
  all := by
    intro p hp hkp
    rcases Nat.lt_trichotomy p t with hlt | rfl | hgt
    · exact (h.all p hlt hkp).imp_left (List.mem_append_left _)
    · exact .inl (List.mem_append_right _ List.mem_cons_self)
    · exact .inr (hskip p hgt (by omega))

/-- At a match the walk has enough bytes to count. -/
theorem RoundInv.enough (h : RoundInv r image n ps t tc) (hr : RoundOk W r) (hk : r.keep (image t))
    {w : List UInt8} (hw : w ∈ W) (hsuf : w <:+ (ps ++ [t]).map image) {e : Nat} (hte : t ≤ e) :
    w.length ≤ countIn r.count tc (e + 1) := by
  have hall : ∀ c ∈ w, r.count c := by
    intro c hc
    obtain ⟨p, hp, rfl⟩ := List.mem_map.mp (hsuf.subset hc)
    refine hr.word w hw _ hc ?_
    rcases List.mem_append.mp hp with hp | hp
    · exact (h.fed p hp).2
    · rwa [List.mem_singleton.mp hp]
  calc w.length
      = w.countP r.count := (List.countP_eq_length.mpr hall).symm
    _ ≤ ((ps ++ [t]).map image).countP r.count := hsuf.sublist.countP_le
    _ ≤ countIn r.count tc (t + 1) := by
        rw [List.map_append, List.countP_append, countIn_succ, h.tail t (Nat.le_refl _)]
        simpa [List.countP_singleton] using h.counts
    _ ≤ countIn r.count tc (e + 1) := countIn_mono _ _ (by omega)

/-- The rule for rounds: what each of the three kinds of turn keeps holds after the round, and the
round has a result. -/
theorem replaceLoop_rule (h : Compiled W a) (hr : RoundOk W r)
    (P : List Nat → Nat → Buf → Int → Prop)
    (pass : ∀ ps t tc flag, t < n → RoundInv r image n ps t tc → P ps t tc flag →
      ¬ r.keep (image t) → P ps (t + 1) tc flag)
    (step : ∀ ps t tc flag, t < n → RoundInv r image n ps t tc → P ps t tc flag →
      r.keep (image t) → ¬ Hit W ((ps ++ [t]).map image) → P (ps ++ [t]) (t + 1) tc flag)
    (hit : ∀ ps t tc flag w tc', t < n → RoundInv r image n ps t tc → P ps t tc flag →
      r.keep (image t) → LongestHit W ((ps ++ [t]).map image) w →
      walk r.count r.write (matchEnd r image n t + 1) w.length tc = some tc' →
      P (ps ++ [t]) (matchEnd r image n t + 1) tc' 1)
    (fuel : Nat) : ∀ {ps t tc flag}, n ≤ t + fuel → RoundInv r image n ps t tc → P ps t tc flag →
    ∃ ps' tc' flag', replaceLoop a r n fuel tc (stateAfter a (ps.map image)) t flag = some (tc', flag') ∧
      RoundInv r image n ps' n tc' ∧ P ps' n tc' flag' := by
  induction fuel with
  | zero =>
      intro ps t tc flag hn hinv hP
      obtain rfl : t = n := by have := hinv.le; omega
      exact ⟨ps, tc, flag, rfl, hinv, hP⟩
  | succ fuel ih =>
      intro ps t tc flag hn hinv hP
      unfold replaceLoop
      by_cases ht : t < n
      · rw [if_pos ht, hinv.tail t (Nat.le_refl _)]
        by_cases hk : r.keep (image t) = true
        · rw [if_pos hk]
          have hstate : (a.acsmStateTable (stateAfter a (ps.map image))).nextState (image t) =
              stateAfter a ((ps ++ [t]).map image) := by
            rw [List.map_append]
            exact (stateAfter_concat a _ _).symm
          simp only [hstate]
          rcases h.longest ((ps ++ [t]).map image) with ⟨hm, hno⟩ | ⟨j, w, hj, hwj, hlong⟩
          · have hindex : ¬ (a.acsmStateTable (stateAfter a ((ps ++ [t]).map image))).longestPatternIndex
                ≠ -1 := not_not_intro hm
            rw [if_neg hindex]
            exact ih (by omega) (hinv.read hk (Nat.le_refl _) ht (fun i h1 h2 => by omega) hr.star
              fun i => .inl rfl) (step ps t tc flag ht hinv hP hk hno)
          · have hindex : (a.acsmStateTable (stateAfter a ((ps ++ [t]).map image))).longestPatternIndex
                = j := hj
            obtain ⟨hte, hen, hfill⟩ := matchEnd_spec r image ht
            obtain ⟨tc', hwalk, hstars⟩ := walk_some r.count r.write (matchEnd r image n t + 1)
              (hinv.enough hr hk hlong.1 hlong.2.1 hte)
            have hend : (if r.skip then skipFillers tc n t else t) = matchEnd r image n t := by
              unfold matchEnd
              rw [skipFillers_congr hinv.tail]
            have hlen : ((a.acsmPatterns j).n).toNat = w.length := by
              rw [(h.words.word j w hwj).1, Int.toNat_natCast]
            have hne : (j : Int) ≠ -1 := by omega
            simp only [hindex, hend, hlen, hwalk, if_pos hne]
            exact ih (by omega) (hinv.read hk hte hen hfill hr.star hstars)
              (hit ps t tc flag w tc' ht hinv hP hk hlong hwalk)
        · rw [if_neg hk]
          exact ih (by omega) (hinv.pass ht hk) (pass ps t tc flag ht hinv hP hk)
      · rw [if_neg ht]
        obtain rfl : t = n := by have := hinv.le; omega
        exact ⟨ps, tc, flag, rfl, hinv, hP⟩

/-! ## What a round finds -/

theorem toList_succ (tc : Buf) (n : Nat) : tc.toList (n + 1) = tc.toList n ++ [tc n] := by
  unfold Buf.toList
  rw [List.range_succ, List.map_append]
  rfl

theorem prefix_toList (tc : Buf) {n k : Nat} (h : n ≤ k) : tc.toList n <+: tc.toList k := by
  induction h with
  | refl => exact List.prefix_rfl
  | step _ ih =>
      rw [toList_succ]
      exact ih.trans (List.prefix_append _ _)

/-- A round has a result, and sets `flag` exactly when a word occurs in the bytes that it reads:
nothing is jumped over before the first match. -/
theorem replaceRound_flag (h : Compiled W a) (hr : RoundOk W r) (n : Nat) (image : Buf) (flag : Int) :
    ∃ ps tc', replaceRound a r n image flag =
        some (tc', if Occurs W ((image.toList n).filter r.keep) then 1 else flag) ∧
      RoundInv r image n ps n tc' := by
  obtain ⟨ps, tc', flag', heq, hinv, hP⟩ := @replaceLoop_rule W a r image n h hr
    (fun ps t _ flag' =>
      (flag' = 1 ∧ Occurs W ((image.toList n).filter r.keep)) ∨
      (flag' = flag ∧ ps.map image = (image.toList t).filter r.keep ∧ ¬ Occurs W (ps.map image)))
    (by
      rintro ps t tc flag' ht - (hP | ⟨h1, h2, h3⟩) hk
      · exact .inl hP
      · refine .inr ⟨h1, ?_, h3⟩
        rw [toList_succ, List.filter_append, h2]
        simp [hk])
    (by
      rintro ps t tc flag' ht - (hP | ⟨h1, h2, h3⟩) hk hno
      · exact .inl hP
      · have hread : (ps ++ [t]).map image = (image.toList (t + 1)).filter r.keep := by
          rw [toList_succ, List.filter_append, List.map_append, h2]
          simp [hk]
        refine .inr ⟨h1, hread, fun hocc => ?_⟩
        rw [List.map_append] at hocc hno
        exact (occurs_concat.mp hocc).elim h3 hno)
    (by
      rintro ps t tc flag' w tc' ht - (hP | ⟨h1, h2, h3⟩) hk hlong -
      · exact .inl ⟨rfl, hP.2⟩
      · have hread : (ps ++ [t]).map image = (image.toList (t + 1)).filter r.keep := by
          rw [toList_succ, List.filter_append, List.map_append, h2]
          simp [hk]
        refine .inl ⟨rfl, ?_⟩
        refine Occurs.mono ⟨w, hlong.1, hlong.2.1.isInfix⟩ ?_
        rw [hread]
        exact ((prefix_toList image ht).filter _).isInfix)
    n _ _ _ _ (Nat.le_add_left _ _) (RoundInv.init r image n)
    (.inr ⟨rfl, rfl, by simpa [Occurs] using fun hw => h.words.nonempty [] hw rfl⟩)
  refine ⟨ps, tc', ?_, hinv⟩
  have hflag : flag' = if Occurs W ((image.toList n).filter r.keep) then 1 else flag := by
    rcases hP with ⟨h1, h2⟩ | ⟨h1, h2, h3⟩
    · rw [if_pos h2, h1]
    · rw [← h2, if_neg h3, h1]
  rw [← hflag]
  exact heq

end Taomee.Dirty
