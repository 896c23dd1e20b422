import Taomee.Lib.Feistel
import Taomee.Crypt.Qdes

/-!
# A block is undone by the reversed schedule

The words of a block stay below 2^32 from step to step; there the permutations and the rotations are
invertible, and the sixteen rounds are a Feistel network that the reversed schedule undoes.
-/

namespace Taomee.Crypt

/-! ## Low words -/

/-- The bits of the word from bit 32 on are zero. -/
def Low (x : DesLong) : Prop := ∀ i, 32 ≤ i → x.getLsbD i = false

theorem low_of_lt {x : DesLong} (h : x < 0x100000000) : Low x := fun i hi => by
  have hlt : x.toNat < 2 ^ 32 := BitVec.lt_def.mp h
  exact Nat.testBit_lt_two_pow (Nat.lt_of_lt_of_le hlt (Nat.pow_le_pow_right Nat.two_pos hi))

theorem low_mask : Low 0xffffffff := low_of_lt (by decide)

variable {x y a b m : DesLong}

theorem Low.and_right (x : DesLong) (h : Low y) : Low (x &&& y) := fun i hi => by
  rw [BitVec.getLsbD_and, h i hi, Bool.and_false]

theorem Low.or (hx : Low x) (hy : Low y) : Low (x ||| y) := fun i hi => by
  rw [BitVec.getLsbD_or, hx i hi, hy i hi, Bool.or_false]

theorem Low.xor (hx : Low x) (hy : Low y) : Low (x ^^^ y) := fun i hi => by
  rw [BitVec.getLsbD_xor, hx i hi, hy i hi, Bool.xor_false]

theorem getLsbD_mask (i : Nat) : (0xffffffff : DesLong).getLsbD i = decide (i < 32) := by
  by_cases hi : i < 32
  · have hall : ∀ i : Fin 32, (0xffffffff : DesLong).getLsbD i = true := by decide
    rw [hall ⟨i, hi⟩, decide_eq_true hi]
  · rw [low_mask i (by omega), decide_eq_false hi]

/-! ## The permutations -/

theorem permOp_low {n : Nat} (ha : Low a) (hb : Low b) (hm : Low m) (hmn : Low (m <<< n)) :
    Low (permOp a b n m).1 ∧ Low (permOp a b n m).2 := by
  unfold permOp
  refine ⟨ha.xor ?_, hb.xor (hm.and_right _)⟩
  rw [BitVec.shiftLeft_and_distrib]
  exact hmn.and_right _

/-- Exchanging bits under a mask that survives the shift twice changes nothing. -/
theorem permOp_permOp {n : Nat} (a b : DesLong) (hm : (m <<< n) >>> n = m) :
    permOp (permOp a b n m).1 (permOp a b n m).2 n m = (a, b) := by
  have hshift : ∀ z : DesLong, ((z &&& m) <<< n) >>> n = z &&& m := by
    intro z
    apply BitVec.eq_of_getLsbD_eq
    intro i hi
    have hbit := congrArg (fun w : DesLong => w.getLsbD i) hm
    simp only [BitVec.getLsbD_ushiftRight, BitVec.getLsbD_shiftLeft, BitVec.getLsbD_and] at hbit ⊢
    by_cases hn : n + i < 64
    · simp [hn]
    · simp only [hn, decide_false, Bool.false_and] at hbit ⊢
      rw [← hbit, Bool.and_false]
  have ht : ((a ^^^ ((((a >>> n) ^^^ b) &&& m) <<< n)) >>> n ^^^ (b ^^^ (((a >>> n) ^^^ b) &&& m))) &&& m =
      ((a >>> n) ^^^ b) &&& m := by
    rw [BitVec.ushiftRight_xor_distrib, hshift]
    have hcancel : ∀ p q t : DesLong, p ^^^ t ^^^ (q ^^^ t) = p ^^^ q := by
      intro p q t
      rw [BitVec.xor_assoc, BitVec.xor_comm q t, ← BitVec.xor_assoc t t q, BitVec.xor_self, BitVec.zero_xor]
    rw [hcancel]
  unfold permOp
  dsimp only
  rw [ht, BitVec.xor_assoc, BitVec.xor_assoc, BitVec.xor_self, BitVec.xor_self, BitVec.xor_zero,
    BitVec.xor_zero]

theorem ip_low {l r : DesLong} (hl : Low l) (hr : Low r) : Low (ip l r).1 ∧ Low (ip l r).2 := by
  have h1 := permOp_low (n := 4) (m := 0x0f0f0f0f) hr hl (low_of_lt (by decide)) (low_of_lt (by decide))
  have h2 := permOp_low (n := 16) (m := 0x0000ffff) h1.2 h1.1 (low_of_lt (by decide)) (low_of_lt (by decide))
  have h3 := permOp_low (n := 2) (m := 0x33333333) h2.2 h2.1 (low_of_lt (by decide)) (low_of_lt (by decide))
  have h4 := permOp_low (n := 8) (m := 0x00ff00ff) h3.2 h3.1 (low_of_lt (by decide)) (low_of_lt (by decide))
  have h5 := permOp_low (n := 1) (m := 0x55555555) h4.2 h4.1 (low_of_lt (by decide)) (low_of_lt (by decide))
  exact h5.symm

theorem fp_low {l r : DesLong} (hl : Low l) (hr : Low r) : Low (fp l r).1 ∧ Low (fp l r).2 := by
  have h1 := permOp_low (n := 1) (m := 0x55555555) hl hr (low_of_lt (by decide)) (low_of_lt (by decide))
  have h2 := permOp_low (n := 8) (m := 0x00ff00ff) h1.2 h1.1 (low_of_lt (by decide)) (low_of_lt (by decide))
  have h3 := permOp_low (n := 2) (m := 0x33333333) h2.2 h2.1 (low_of_lt (by decide)) (low_of_lt (by decide))
  have h4 := permOp_low (n := 16) (m := 0x0000ffff) h3.2 h3.1 (low_of_lt (by decide)) (low_of_lt (by decide))
  exact permOp_low (n := 4) (m := 0x0f0f0f0f) h4.2 h4.1 (low_of_lt (by decide)) (low_of_lt (by decide))

/-- `IP` undoes `FP` with the operands exchanged. -/
theorem ip_fp (l r : DesLong) : ip (fp l r).2 (fp l r).1 = (r, l) := by
  unfold ip fp
  simp only [permOp_permOp _ _ (show ((0x0f0f0f0f : DesLong) <<< 4) >>> 4 = 0x0f0f0f0f by decide),
    permOp_permOp _ _ (show ((0x0000ffff : DesLong) <<< 16) >>> 16 = 0x0000ffff by decide),
    permOp_permOp _ _ (show ((0x33333333 : DesLong) <<< 2) >>> 2 = 0x33333333 by decide),
    permOp_permOp _ _ (show ((0x00ff00ff : DesLong) <<< 8) >>> 8 = 0x00ff00ff by decide),
    permOp_permOp _ _ (show ((0x55555555 : DesLong) <<< 1) >>> 1 = 0x55555555 by decide)]

/-- `FP` undoes `IP` with the operands exchanged. -/
theorem fp_ip (l r : DesLong) : fp (ip l r).2 (ip l r).1 = (r, l) := by
  unfold ip fp
  simp only [permOp_permOp _ _ (show ((0x0f0f0f0f : DesLong) <<< 4) >>> 4 = 0x0f0f0f0f by decide),
    permOp_permOp _ _ (show ((0x0000ffff : DesLong) <<< 16) >>> 16 = 0x0000ffff by decide),
    permOp_permOp _ _ (show ((0x33333333 : DesLong) <<< 2) >>> 2 = 0x33333333 by decide),
    permOp_permOp _ _ (show ((0x00ff00ff : DesLong) <<< 8) >>> 8 = 0x00ff00ff by decide),
    permOp_permOp _ _ (show ((0x55555555 : DesLong) <<< 1) >>> 1 = 0x55555555 by decide)]

/-! ## The rotations -/

/-- The rotation before the rounds. -/
def rotateIn (x : DesLong) : DesLong := ((x <<< 1) ||| (x >>> 31)) &&& 0xffffffff

/-- The rotation after the rounds. -/
def rotateOut (x : DesLong) : DesLong := ((x >>> 1) ||| (x <<< 31)) &&& 0xffffffff

theorem rotateIn_low (x : DesLong) : Low (rotateIn x) := low_mask.and_right _

theorem rotateOut_low (x : DesLong) : Low (rotateOut x) := low_mask.and_right _

theorem rotateOut_rotateIn (hx : Low x) : rotateOut (rotateIn x) = x := by
  apply BitVec.eq_of_getLsbD_eq
  intro i hi
  simp only [rotateIn, rotateOut, BitVec.getLsbD_and, BitVec.getLsbD_or, BitVec.getLsbD_shiftLeft,
    BitVec.getLsbD_ushiftRight, getLsbD_mask]
  rcases Nat.lt_or_ge i 31 with h | h
  · have h32 : i < 32 := by omega
    have hin : 1 + i < 32 := by omega
    have hin' : 1 + i < 64 := by omega
    have hlt : ¬ 1 + i < 1 := by omega
    have hlow := hx (31 + (1 + i)) (by omega)
    simp [h, h32, hi, hin, hin', hlow]
  · by_cases h31 : i = 31
    · subst h31
      simp
    · have h32 : ¬ i < 32 := by omega
      simp [h32, hx i (by omega)]

theorem rotateIn_rotateOut (hx : Low x) : rotateIn (rotateOut x) = x := by
  apply BitVec.eq_of_getLsbD_eq
  intro i hi
  simp only [rotateIn, rotateOut, BitVec.getLsbD_and, BitVec.getLsbD_or, BitVec.getLsbD_shiftLeft,
    BitVec.getLsbD_ushiftRight, getLsbD_mask]
  rcases Nat.eq_zero_or_pos i with rfl | h
  · have hlow : x[32] = false := hx 32 (by omega)
    simp [hlow]
  · by_cases h32 : i < 32
    · have hpred : i - 1 < 31 := by omega
      have hpred' : i - 1 < 32 := by omega
      have hback : 1 + (i - 1) = i := by omega
      have hhigh : ¬ 31 + i < 32 := by omega
      have hne : i ≠ 0 := by omega
      simp [h32, hi, hpred, hpred', hback, hhigh, hne]
    · simp [h32, hx i (by omega)]

/-! ## The rounds -/

theorem desSPtrans_lt : ∀ t ∈ desSPtrans, ∀ x ∈ t, x < 0x100000000 := by
  have hall : desSPtrans.all (fun t => t.all fun x => decide (x < 0x100000000)) = true := by decide +kernel
  intro t ht x hx
  exact of_decide_eq_true (List.all_eq_true.mp (List.all_eq_true.mp hall t ht) x hx)

theorem spTrans_low (j i : Nat) : Low (spTrans j i) := by
  unfold spTrans
  rw [List.getD_eq_getElem?_getD, List.getD_eq_getElem?_getD]
  cases ht : desSPtrans[j]? with
  | none => exact low_of_lt (by simp)
  | some t =>
      rw [Option.getD_some]
      cases hx : t[i]? with
      | none => exact low_of_lt (by simp)
      | some x => exact low_of_lt (desSPtrans_lt t (List.mem_of_getElem? ht) x (List.mem_of_getElem? hx))

theorem dRound_low (s : Nat → DesLong) (S : Nat) (R : DesLong) : Low (dRound s S R) := by
  unfold dRound
  exact ((((((((spTrans_low _ _).or (spTrans_low _ _)).or (spTrans_low _ _)).or (spTrans_low _ _)).or
    (spTrans_low _ _)).or (spTrans_low _ _)).or (spTrans_low _ _)).or (spTrans_low _ _))

theorem xor_xor (a b : DesLong) : a ^^^ b ^^^ b = a := by
  rw [BitVec.xor_assoc, BitVec.xor_self, BitVec.xor_zero]

/-- The rounds of DES with the given places of the schedule. -/
def desRounds (s : Nat → DesLong) (ks : List Nat) (p : DesLong × DesLong) : DesLong × DesLong :=
  Feistel.run (· ^^^ ·) (dRound s) ks p

/-- The places of the schedule in the order of encryption. -/
def schedule : List Nat := (List.range 16).map (2 * ·)

theorem encryptRounds_eq (s : Nat → DesLong) (steps : List Nat) : ∀ p,
    steps.foldl (encryptRounds s) p = desRounds s (steps.flatMap fun i => [i, i + 2]) p := by
  induction steps with
  | nil => exact fun _ => rfl
  | cons i steps ih => exact fun p => ih (encryptRounds s p i)

theorem decryptRounds_eq (s : Nat → DesLong) (steps : List Nat) : ∀ p,
    steps.foldl (decryptRounds s) p = desRounds s (steps.flatMap fun i => [i, i - 2]) p := by
  induction steps with
  | nil => exact fun _ => rfl
  | cons i steps ih => exact fun p => ih (decryptRounds s p i)

/-- A block with the places of the schedule in a given order. -/
def desBlock (s : Nat → DesLong) (ks : List Nat) (data : DesLong × DesLong) : DesLong × DesLong :=
  let p := desRounds s ks (rotateIn (ip data.1 data.2).2, rotateIn (ip data.1 data.2).1)
  (fp (rotateOut p.2) (rotateOut p.1)).swap

theorem doDesEcbEncrypt_eq (data : DesLong × DesLong) (s : Nat → DesLong) (encrypt : Bool) :
    doDesEcbEncrypt data s encrypt = desBlock s (if encrypt then schedule else schedule.reverse) data := by
  have henc : (encryptSteps.flatMap fun i => [i, i + 2]) = schedule := by decide
  have hdec : (decryptSteps.flatMap fun i => [i, i - 2]) = schedule.reverse := by decide
  unfold doDesEcbEncrypt desBlock
  cases encrypt with
  | true =>
      simp only [↓reduceIte, encryptRounds_eq, henc, rotateIn, rotateOut]
      rfl
  | false =>
      simp only [Bool.false_eq_true, ↓reduceIte, decryptRounds_eq, hdec, rotateIn, rotateOut]
      rfl

theorem desBlock_low (s : Nat → DesLong) (ks : List Nat) (data : DesLong × DesLong) :
    Low (desBlock s ks data).1 ∧ Low (desBlock s ks data).2 :=
  (fp_low (rotateOut_low _) (rotateOut_low _)).symm

theorem desBlock_reverse (s : Nat → DesLong) (ks : List Nat) {data : DesLong × DesLong}
    (h1 : Low data.1) (h2 : Low data.2) : desBlock s ks.reverse (desBlock s ks data) = data := by
  obtain ⟨hu, hr⟩ := ip_low h1 h2
  set p := desRounds s ks (rotateIn (ip data.1 data.2).2, rotateIn (ip data.1 data.2).1) with hp
  have hlow : Low p.1 ∧ Low p.2 := Feistel.run_keeps (fun k a b ha => ha.xor (dRound_low s k b)) ks _
    (rotateIn_low _) (rotateIn_low _)
  have hblock : desBlock s ks data = (fp (rotateOut p.2) (rotateOut p.1)).swap := rfl
  have hip : ip (desBlock s ks data).1 (desBlock s ks data).2 = (rotateOut p.1, rotateOut p.2) := by
    rw [hblock]
    exact ip_fp _ _
  have hback : desRounds s ks.reverse p.swap =
      (rotateIn (ip data.1 data.2).1, rotateIn (ip data.1 data.2).2) := Feistel.run_reverse xor_xor ks _
  unfold desBlock at hip ⊢
  dsimp only
  rw [hip, rotateIn_rotateOut hlow.1, rotateIn_rotateOut hlow.2]
  change (fp (rotateOut (desRounds s ks.reverse p.swap).2) (rotateOut (desRounds s ks.reverse p.swap).1)).swap = data
  rw [hback, rotateOut_rotateIn hu, rotateOut_rotateIn hr, fp_ip]
  rfl

end Taomee.Crypt
