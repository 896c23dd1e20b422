import Taomee.Attr.AttrApi
import Taomee.Lib.Bits

/-!
# Keys of attributes (attr_api/api_util.c)

The upper half of a key is the lower half of the attribute. The lower half mixes its last two bytes
with those of the process: each pair of bytes goes in as or and as exclusive or, and the latter can
be undone once the attribute is known.
-/

namespace Taomee.Attr

open Taomee.Bits

/-- `check_attr_key_matchable(attr, key)` -/
def checkAttrKeyMatchable (attr key : UInt64) : Int :=
  let attrL32 := attr &&& 0xFFFFFFFF
  let keyH32 := key >>> 32
  if keyH32 = attrL32 then 1 else 0

/-! ## The bits of a key -/

section

variable {attr attr' : UInt64} {pid pid' : UInt32} {i : Nat}

theorem getLsbD_pid_low (hi : i < 64) : ((pid &&& 0xFF).toUInt64).toBitVec.getLsbD i =
    (pid.toBitVec.getLsbD i && decide (i < 8)) := by
  have hmask : (0xFF : UInt32).toBitVec.getLsbD i = decide (i < 8) :=
    getLsbD_lowMask (n := 8) rfl (by decide) i
  rw [UInt32.toBitVec_toUInt64, BitVec.getLsbD_setWidth, UInt32.toBitVec_and, BitVec.getLsbD_and, hmask,
    decide_eq_true hi, Bool.true_and]

theorem getLsbD_pid_high (hi : i < 64) : ((pid &&& 0xFF00).toUInt64).toBitVec.getLsbD i =
    (pid.toBitVec.getLsbD i && decide (8 ≤ i ∧ i < 16)) := by
  have hmask : (0xFF00 : UInt32).toBitVec.getLsbD i = decide (8 ≤ i ∧ i < 16) :=
    getLsbD_mask (n := 8) (k := 8) rfl (by decide) i
  rw [UInt32.toBitVec_toUInt64, BitVec.getLsbD_setWidth, UInt32.toBitVec_and, BitVec.getLsbD_and, hmask,
    decide_eq_true hi, Bool.true_and]

theorem makeAttrKey_bit (hi : i < 64) : (makeAttrKey attr pid).toBitVec.getLsbD i =
    if i < 8 then attr.toBitVec.getLsbD i ^^ pid.toBitVec.getLsbD i
    else if i < 16 then attr.toBitVec.getLsbD i || pid.toBitVec.getLsbD i
    else if i < 24 then attr.toBitVec.getLsbD (i - 16) || pid.toBitVec.getLsbD (i - 16)
    else if i < 32 then attr.toBitVec.getLsbD (i - 16) ^^ pid.toBitVec.getLsbD (i - 16)
    else attr.toBitVec.getLsbD (i - 32) := by
  have h16 : ((16 : UInt64).toBitVec % 64).toNat = 16 := rfl
  have h32 : ((32 : UInt64).toBitVec % 64).toNat = 32 := rfl
  have hsub : i - 16 < 64 := by omega
  have hFF : ∀ j, (0xFF : UInt64).toBitVec.getLsbD j = decide (j < 8) :=
    getLsbD_lowMask rfl (by decide)
  have hFF00 : ∀ j, (0xFF00 : UInt64).toBitVec.getLsbD j = decide (8 ≤ j ∧ j < 16) :=
    getLsbD_mask (n := 8) (k := 8) rfl (by decide)
  have hFFFF : ∀ j, (0xFFFF : UInt64).toBitVec.getLsbD j = decide (j < 16) :=
    getLsbD_lowMask rfl (by decide)
  have hFFFFFFFF : ∀ j, (0xFFFFFFFF : UInt64).toBitVec.getLsbD j = decide (j < 32) :=
    getLsbD_lowMask rfl (by decide)
  unfold makeAttrKey
  simp only [UInt64.toBitVec_or, UInt64.toBitVec_and, UInt64.toBitVec_xor, UInt64.toBitVec_shiftLeft,
    BitVec.getLsbD_or, BitVec.getLsbD_and, BitVec.getLsbD_xor, BitVec.shiftLeft_eq',
    BitVec.getLsbD_shiftLeft, h16, h32, hFF, hFF00, hFFFF, hFFFFFFFF, getLsbD_pid_low hi,
    getLsbD_pid_high hi, getLsbD_pid_low hsub, getLsbD_pid_high hsub]
  -- the four bytes of the lower half, and the upper half
  by_cases h1 : i < 8
  · have h : i < 16 ∧ i < 32 ∧ ¬ 8 ≤ i := by omega
    simp [h1, h]
  by_cases h2 : i < 16
  · have h : i < 32 ∧ 8 ≤ i := by omega
    simp [h1, h2, h]
  by_cases h3 : i < 24
  · have h : i < 32 ∧ i - 16 < 8 ∧ i - 16 < 16 ∧ ¬ 8 ≤ i - 16 := by omega
    simp [h1, h2, h3, h, hi]
  by_cases h4 : i < 32
  · have h : ¬ i - 16 < 8 ∧ i - 16 < 16 ∧ 8 ≤ i - 16 := by omega
    simp [h1, h2, h3, h4, h, hi]
  · simp [h1, h2, h3, h4, hi]

/-- The attribute is in the key, and the process behind an exclusive or with it. -/
theorem makeAttrKey_inj (h : makeAttrKey attr pid = makeAttrKey attr' pid') :
    attr.toNat % 2 ^ 32 = attr'.toNat % 2 ^ 32 ∧ pid.toNat % 2 ^ 16 = pid'.toNat % 2 ^ 16 := by
  have hbit : ∀ i, (makeAttrKey attr pid).toBitVec.getLsbD i = (makeAttrKey attr' pid').toBitVec.getLsbD i :=
    fun i => by rw [h]
  have hattr : ∀ i < 32, attr.toBitVec.getLsbD i = attr'.toBitVec.getLsbD i := by
    intro i hi
    have hup := hbit (i + 32)
    have hsub : i + 32 - 32 = i := by omega
    rw [makeAttrKey_bit (by omega), makeAttrKey_bit (by omega)] at hup
    simpa only [if_neg (show ¬ i + 32 < 8 by omega), if_neg (show ¬ i + 32 < 16 by omega),
      if_neg (show ¬ i + 32 < 24 by omega), if_neg (show ¬ i + 32 < 32 by omega), hsub] using hup
  refine ⟨mod_two_pow_eq_iff.mpr hattr, mod_two_pow_eq_iff.mpr fun i hi => ?_⟩
  by_cases hlow : i < 8
  · have hxor := hbit i
    rw [makeAttrKey_bit (by omega), makeAttrKey_bit (by omega), if_pos hlow, if_pos hlow,
      hattr i (by omega)] at hxor
    exact Bool.xor_right_inj.mp hxor
  · have hxor := hbit (i + 16)
    have hsub : i + 16 - 16 = i := by omega
    rw [makeAttrKey_bit (by omega), makeAttrKey_bit (by omega)] at hxor
    simp only [if_neg (show ¬ i + 16 < 8 by omega), if_neg (show ¬ i + 16 < 16 by omega),
      if_neg (show ¬ i + 16 < 24 by omega), if_pos (show i + 16 < 32 by omega), hsub,
      hattr i (by omega)] at hxor
    exact Bool.xor_right_inj.mp hxor

/-- A key depends on the lower half of the attribute and the last two bytes of the process. -/
theorem makeAttrKey_congr (hattr : attr.toNat % 2 ^ 32 = attr'.toNat % 2 ^ 32)
    (hpid : pid.toNat % 2 ^ 16 = pid'.toNat % 2 ^ 16) : makeAttrKey attr pid = makeAttrKey attr' pid' := by
  have hattr' : ∀ i < 32, attr.toBitVec.getLsbD i = attr'.toBitVec.getLsbD i := mod_two_pow_eq_iff.mp hattr
  have hpid' : ∀ i < 16, pid.toBitVec.getLsbD i = pid'.toBitVec.getLsbD i := mod_two_pow_eq_iff.mp hpid
  refine UInt64.toBitVec_inj.mp (BitVec.eq_of_getLsbD_eq fun i hi => ?_)
  rw [makeAttrKey_bit hi, makeAttrKey_bit hi, hattr' (i - 32) (by omega)]
  by_cases hlow : i < 16
  · rw [hattr' i (by omega), hpid' i hlow]
    simp only [if_pos hlow]
  · by_cases hhigh : i < 32
    · rw [hattr' (i - 16) (by omega), hpid' (i - 16) (by omega)]
      simp only [if_neg hlow, if_pos hhigh, if_neg (show ¬ i < 8 by omega)]
    · simp only [if_neg hlow, if_neg hhigh, if_neg (show ¬ i < 8 by omega), if_neg (show ¬ i < 24 by omega)]

theorem getLsbD_attr_low (attr : UInt64) (i : Nat) :
    (attr &&& 0xFFFFFFFF).toBitVec.getLsbD i = (attr.toBitVec.getLsbD i && decide (i < 32)) := by
  have hmask : (0xFFFFFFFF : UInt64).toBitVec.getLsbD i = decide (i < 32) :=
    getLsbD_lowMask (n := 32) rfl (by decide) i
  rw [UInt64.toBitVec_and, BitVec.getLsbD_and, hmask]

theorem makeAttrKey_high (attr : UInt64) (pid : UInt32) :
    makeAttrKey attr pid >>> 32 = attr &&& 0xFFFFFFFF := by
  have h32 : ((32 : UInt64).toBitVec % 64).toNat = 32 := rfl
  refine UInt64.toBitVec_inj.mp (BitVec.eq_of_getLsbD_eq fun i hi => ?_)
  rw [UInt64.toBitVec_shiftRight, BitVec.ushiftRight_eq', BitVec.getLsbD_ushiftRight, h32, getLsbD_attr_low]
  by_cases hlow : i < 32
  · have hsub : 32 + i - 32 = i := by omega
    rw [makeAttrKey_bit (by omega), hsub, decide_eq_true hlow, Bool.and_true]
    simp only [if_neg (show ¬ 32 + i < 8 by omega), if_neg (show ¬ 32 + i < 16 by omega),
      if_neg (show ¬ 32 + i < 24 by omega), if_neg (show ¬ 32 + i < 32 by omega)]
  · rw [decide_eq_false hlow, Bool.and_false]
    exact BitVec.getLsbD_of_ge _ _ (by omega)

theorem checkAttrKeyMatchable_eq_one : checkAttrKeyMatchable attr' (makeAttrKey attr pid) = 1 ↔
    attr.toNat % 2 ^ 32 = attr'.toNat % 2 ^ 32 := by
  have hlow : attr &&& 0xFFFFFFFF = attr' &&& 0xFFFFFFFF ↔ attr.toNat % 2 ^ 32 = attr'.toNat % 2 ^ 32 := by
    constructor
    · intro h
      refine mod_two_pow_eq_iff.mpr fun i hi => ?_
      have hbit := congrArg (fun a => a.toBitVec.getLsbD i) h
      simpa only [getLsbD_attr_low, decide_eq_true hi, Bool.and_true] using hbit
    · exact fun h => UInt64.toBitVec_inj.mp (and_eq_of_mod_eq h (by decide))
  unfold checkAttrKeyMatchable
  simp only [makeAttrKey_high, hlow]
  by_cases h : attr.toNat % 2 ^ 32 = attr'.toNat % 2 ^ 32
  · rw [if_pos h]
    exact iff_of_true rfl h
  · rw [if_neg h]
    exact iff_of_false (by decide) h

end

/-- Two keys are equal exactly when the attributes agree modulo 2^32 and the processes modulo 2^16,
and a key matches the attributes that agree with its own modulo 2^32. -/
theorem makeAttrKey_eq_iff (attr attr' : UInt64) (pid pid' : UInt32) :
    (makeAttrKey attr pid = makeAttrKey attr' pid' ↔
      attr.toNat % 2 ^ 32 = attr'.toNat % 2 ^ 32 ∧ pid.toNat % 2 ^ 16 = pid'.toNat % 2 ^ 16) ∧
    (checkAttrKeyMatchable attr' (makeAttrKey attr pid) = 1 ↔
      attr.toNat % 2 ^ 32 = attr'.toNat % 2 ^ 32) :=
  ⟨⟨makeAttrKey_inj, fun h => makeAttrKey_congr h.1 h.2⟩, checkAttrKeyMatchable_eq_one⟩

end Taomee.Attr
