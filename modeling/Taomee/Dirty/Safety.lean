import Taomee.Dirty.Lemmas.Reach

/-!
# The replacement stays inside its copies

A run of a round in which every byte that is looked at lies in the copy. `T` is an index, `tmp` an
integer that may come to lie in front of the copy but is not looked through there.
-/

namespace Taomee.Dirty

open Taomee.Words

/-- A walk from `tmp` in a copy of `n` bytes, `left` bytes to count, which looks at bytes of the copy
only. -/
inductive WalkRun (count : UInt8 → Bool) (write : Buf → Nat → Bool) (n : Nat) : Int → Nat → Buf → Buf → Prop
  | done {tmp tc} : WalkRun count write n tmp 0 tc tc
  | back {tmp : Nat} {left tc tc'} (hn : tmp < n)
      (h : WalkRun count write n (tmp - 1) (if count (tc tmp) then left else left + 1)
        (if write tc tmp then tc.set tmp star else tc) tc') : WalkRun count write n tmp (left + 1) tc tc'

/-- The head of a round's loop over the copy `image` is reached with these values, and everything that
was looked at lies in the copy: `T` in front of `Tend`, also when fillers were jumped over. -/
inductive RoundTo (acsm : AcsmStruct) (r : Round) (n : Nat) (image : Buf) (flag : Int) :
    Buf → Int → Nat → Int → Prop
  | start : RoundTo acsm r n image flag image 0 0 flag
  | pass {tc state t f} (h : RoundTo acsm r n image flag tc state t f) (ht : t < n)
      (hk : r.keep (tc t) = false) : RoundTo acsm r n image flag tc state (t + 1) f
  | step {tc state t f next} (h : RoundTo acsm r n image flag tc state t f) (ht : t < n)
      (hk : r.keep (tc t) = true) (hnext : (acsm.acsmStateTable state).nextState (tc t) = next)
      (hno : (acsm.acsmStateTable next).longestPatternIndex = -1) :
      RoundTo acsm r n image flag tc next (t + 1) f
  | hit {tc state t f next index e tc'} (h : RoundTo acsm r n image flag tc state t f) (ht : t < n)
      (hk : r.keep (tc t) = true) (hnext : (acsm.acsmStateTable state).nextState (tc t) = next)
      (hindex : (acsm.acsmStateTable next).longestPatternIndex = index) (hyes : index ≠ -1)
      (he : matchEnd r tc n t = e) (hen : e < n)
      (hwalk : WalkRun r.count r.write n e (acsm.acsmPatterns index).n.toNat tc tc') :
      RoundTo acsm r n image flag tc' next (e + 1) 1

/-- The loop of a round ends: it comes to `T = Tend` with these results. -/
def RoundEnds (acsm : AcsmStruct) (r : Round) (n : Nat) (image : Buf) (flag : Int) (tc : Buf) (flag' : Int) :
    Prop :=
  ∃ state, RoundTo acsm r n image flag tc state n flag'

variable {W : List (List UInt8)} {a : AcsmStruct} {r : Round} {image : Buf} {n : Nat}

/-- A walk that has a result looks at bytes of the copy only. -/
theorem walk_run {count : UInt8 → Bool} {write : Buf → Nat → Bool} (pos : Nat) : ∀ {left : Nat} {tc tc' : Buf},
    pos ≤ n → walk count write pos left tc = some tc' →
    WalkRun count write n ((pos : Int) - 1) left tc tc' := by
  induction pos with
  | zero =>
      intro left tc tc' _ h
      unfold walk at h
      split at h
      · rename_i hl
        subst hl
        cases h
        exact .done
      · cases h
  | succ tmp ih =>
      intro left tc tc' hn h
      unfold walk at h
      cases left with
      | zero =>
          cases h
          exact .done
      | succ left =>
          rw [if_neg (Nat.succ_ne_zero left), Nat.add_sub_cancel] at h
          have hrun := ih (by omega) h
          rw [show ((tmp + 1 : Nat) : Int) - 1 = (tmp : Nat) by omega]
          exact .back hn hrun

/-- The loop of a round ends, in its copy. -/
theorem replaceRound_ends (h : Compiled W a) (hr : RoundOk W r) {flag flag' : Int} {tc' : Buf}
    (heq : replaceRound a r n image flag = some (tc', flag')) : RoundEnds a r n image flag tc' flag' := by
  obtain ⟨ps, -, hP⟩ := replaceRound_rule h hr
    (fun ps t tc f => RoundTo a r n image flag tc (stateAfter a (ps.map image)) t f)
    (by
      intro ps t tc f ht hinv hP hk
      refine .pass hP ht ?_
      rw [hinv.tail t (Nat.le_refl _)]
      simpa using hk)
    (by
      intro ps t tc f ht hinv hP hk hno
      have htail := hinv.tail t (Nat.le_refl _)
      rw [List.map_append] at hno ⊢
      refine .step hP ht (by rw [htail]; exact hk) ?_ ?_
      · rw [htail]
        exact (stateAfter_concat a _ _).symm
      · exact not_not.mp fun hyes => hno ((h.longest_ne_iff _).mp hyes))
    (by
      intro ps t tc f w tc' ht hinv hP hk hlong hwalk
      have htail := hinv.tail t (Nat.le_refl _)
      obtain ⟨hte, hen, -⟩ := matchEnd_spec r image ht
      rcases h.longest ((ps ++ [t]).map image) with ⟨-, hno⟩ | ⟨j, v, hj, hvj, hv⟩
      · exact absurd hlong.hit hno
      obtain rfl := hlong.unique hv
      rw [List.map_append] at hj ⊢
      have hend : matchEnd r tc n t = matchEnd r image n t := by
        unfold matchEnd
        rw [skipFillers_congr hinv.tail]
      refine .hit hP ht (by rw [htail]; exact hk) ?_ hj (by omega) hend hen ?_
      · rw [htail]
        exact (stateAfter_concat a _ _).symm
      · have hlen : ((a.acsmPatterns j).n).toNat = w.length := by
          rw [(h.words.word j w hvj).1, Int.toNat_natCast]
        rw [hlen]
        have hrun := walk_run (n := n) _ hen hwalk
        rwa [show ((matchEnd r image n t + 1 : Nat) : Int) - 1 = (matchEnd r image n t : Nat) by omega] at hrun)
    heq .start
  exact ⟨_, hP⟩

/-- Replacement stays inside its copies: each of its three rounds ends at `Tend`, its walks look at
bytes of the copy only, and the result is what the three rounds left. -/
theorem acsmPatternReplace_ends (a : AcsmStruct) (words : List (List UInt8)) (ha : a.totalPattern = 0)
    (hwords : words.length ≤ 81920)
    (hsize : 1 + ((storedWords words).flatten.length : Int) ≤ maxState) :
    ∃ F, ∀ fuel, F ≤ fuel → ∃ a', acsmCompile fuel (addPatterns a words) = some (a', 0) ∧
      ∀ (tc tc1 : Buf) (m : List UInt8) (jumpTag : Int), (m.length : Int) ≤ maxStrBuffer →
        ∃ (image tc0 tcA tcO : Buf) (f0 fA ret : Int),
          image.toList m.length = stringReplace (maskTags tc1 m m.length jumpTag) m.length ∧
          RoundEnds a' roundFull m.length image 0 tc0 f0 ∧
          RoundEnds a' roundAlpha m.length image f0 tcA fA ∧
          RoundEnds a' roundOther m.length image fA tcO ret ∧
          acsmPatternReplace a' tc tc1 m m.length jumpTag =
            some (mergeStars m m.length tc0 tcA tcO, ret) := by
  obtain ⟨F, hF⟩ := compiled_of_words a words ha hwords hsize
  refine ⟨F, fun fuel hfuel => ?_⟩
  obtain ⟨a', hc, hcomp⟩ := hF fuel hfuel
  have hW := plain_storedWords words
  refine ⟨a', hc, fun tc tc1 m jumpTag hm => ?_⟩
  obtain ⟨image, tc0, tcA, tcO, f0, fA, ret, hlist, h0, hA, hO, hrep⟩ := hcomp.replace_rounds hW tc tc1
    jumpTag hm
  refine ⟨image, tc0, tcA, tcO, f0, fA, ret, ?_, replaceRound_ends hcomp (roundOk_full hW) h0,
    replaceRound_ends hcomp (roundOk_alpha _) hA, replaceRound_ends hcomp (roundOk_other _) hO, hrep⟩
  rw [hlist]
  unfold masked
  rw [queryText_length]
  rfl

/-- The word "he" in the message "she". -/
theorem acsmPatternReplace_ends_he :
    ∃ F, ∀ fuel, F ≤ fuel → ∃ a', acsmCompile fuel (addPatterns acsmNew [[0x68, 0x65]]) = some (a', 0) ∧
      ∀ tc tc1, ∃ image tc0 tcA tcO f0 fA ret,
        image.toList 3 = stringReplace (maskTags tc1 [0x73, 0x68, 0x65] 3 0) 3 ∧
        RoundEnds a' roundFull 3 image 0 tc0 f0 ∧ RoundEnds a' roundAlpha 3 image f0 tcA fA ∧
        RoundEnds a' roundOther 3 image fA tcO ret ∧
        acsmPatternReplace a' tc tc1 [0x73, 0x68, 0x65] 3 0 =
          some (mergeStars [0x73, 0x68, 0x65] 3 tc0 tcA tcO, ret) := by
  obtain ⟨F, hF⟩ := acsmPatternReplace_ends acsmNew [[0x68, 0x65]] rfl (by decide) (by decide)
  refine ⟨F, fun fuel hfuel => ?_⟩
  obtain ⟨a', hc, h⟩ := hF fuel hfuel
  exact ⟨a', hc, fun tc tc1 => h tc tc1 [0x73, 0x68, 0x65] 0 (by decide)⟩

end Taomee.Dirty
