import Taomee.Crypt.Schedule

/-!
# Related keys (crypt/qdes.c)

Turning over all bits of the key and of the text turns over all bits of the result. The lowest bit of each byte of
the key is not used.
-/

namespace Taomee.Crypt

variable {key key' mem mem' : Buf} {s d n : Nat} {x y R : DesLong} {sched sched' : Nat → DesLong}

/-! ## Keys with all bits turned over -/

/-- All bits of the bytes. -/
def ones : Buf := fun _ => 0xff

/-- The word with its low bits turned over. -/
def compl (x : DesLong) : DesLong := x ^^^ 0xffffffff

theorem permOp_compl (a b : DesLong) {k : Nat} {m : DesLong}
    (h : (((0xffffffff : DesLong) >>> k) ^^^ 0xffffffff) &&& m = 0) :
    permOp (compl a) (compl b) k m = (compl (permOp a b k m).1, compl (permOp a b k m).2) := by
  have ht : ((compl a >>> k) ^^^ compl b) &&& m = ((a >>> k) ^^^ b) &&& m := by
    have hsplit : (compl a >>> k) ^^^ compl b =
        ((a >>> k) ^^^ b) ^^^ (((0xffffffff : DesLong) >>> k) ^^^ 0xffffffff) := by
      unfold compl
      rw [BitVec.ushiftRight_xor_distrib]
      ac_rfl
    rw [hsplit, xor_and, h]
    exact BitVec.xor_zero
  unfold permOp
  simp only [ht]
  refine Prod.ext ?_ ?_
  · unfold compl
    ac_rfl
  · unfold compl
    ac_rfl

theorem ip_compl (l r : DesLong) : ip (compl l) (compl r) = (compl (ip l r).1, compl (ip l r).2) := by
  unfold ip
  simp (disch := decide) only [permOp_compl]

theorem fp_compl (l r : DesLong) : fp (compl l) (compl r) = (compl (fp l r).1, compl (fp l r).2) := by
  unfold fp
  simp (disch := decide) only [permOp_compl]

/-- The low word, as a word that is linear. -/
theorem lowWord_linear : LinearIn (· ^^^ ·) 0xffffffff fun x : DesLong => x &&& 0xffffffff :=
  (LinearIn.id.and 0xffffffff).mono (by decide)

theorem Low.and_mask (hx : Low x) : x &&& 0xffffffff = x := by
  refine BitVec.eq_of_getLsbD_eq fun i _ => ?_
  rw [BitVec.getLsbD_and, getLsbD_mask]
  by_cases hi : i < 32
  · rw [decide_eq_true hi, Bool.and_true]
  · rw [hx i (by omega), Bool.false_and]

/-- Moving bits around does not see whether they are turned over before or after. -/
theorem compl_of_linear {f : DesLong → DesLong}
    (hlin : LinearIn (· ^^^ ·) 0xffffffff fun x : DesLong => f (x &&& 0xffffffff))
    (hones : f (0xffffffff &&& 0xffffffff) = 0xffffffff) (hx : Low x) : f (compl x) = compl (f x) := by
  have h := hlin.map_op x 0xffffffff
  rw [hones, (hx.xor low_mask).and_mask, hx.and_mask] at h
  exact h

theorem rotateIn_compl (hx : Low x) : rotateIn (compl x) = compl (rotateIn x) :=
  compl_of_linear ((((lowWord_linear.shiftLeft 1).or (lowWord_linear.shiftRight 31) (by decide)).and 0xffffffff).mono
    (by decide)) (by decide) hx

theorem rotateOut_compl (hx : Low x) : rotateOut (compl x) = compl (rotateOut x) :=
  compl_of_linear ((((lowWord_linear.shiftRight 1).or (lowWord_linear.shiftLeft 31) (by decide)).and 0xffffffff).mono
    (by decide)) (by decide) hx

/-- `T` of `D_ENCRYPT`, made of the first word. -/
def turned (U : DesLong) : DesLong :=
  let s0 := ((fudgeShort U 0 >>> 4) ||| (fudgeShort U 1 <<< 12)) &&& 0x3f3f
  let s1 := ((fudgeShort U 1 >>> 4) ||| (fudgeShort U 0 <<< 12)) &&& 0x3f3f
  s0 ||| (s1 <<< 16)

theorem turned_linear : LinearIn (· ^^^ ·) 0x3f3f3f3f turned := by
  have h0 : LinearIn (· ^^^ ·) 0xffff fun U : DesLong => fudgeShort U 0 :=
    ((LinearIn.id.shiftRight _).and 0xffff).mono (by decide)
  have h1 : LinearIn (· ^^^ ·) 0xffff fun U : DesLong => fudgeShort U 1 :=
    ((LinearIn.id.shiftRight _).and 0xffff).mono (by decide)
  have hs₀ := ((h0.shiftRight 4).or (h1.shiftLeft 12) (by decide)).and 0x3f3f
  have hs₁ := ((h1.shiftRight 4).or (h0.shiftLeft 12) (by decide)).and 0x3f3f
  exact (hs₀.or (hs₁.shiftLeft 16) (by decide)).mono (by decide)

theorem dRound_eq (s : Nat → DesLong) (S : Nat) (R : DesLong) : dRound s S R =
    (let T := turned (R ^^^ s (S + 1))
    let U := (R ^^^ s S) &&& 0x3f3f3f3f
    spTrans 1 (fudgeChar T 0) ||| spTrans 3 (fudgeChar T 1) ||| spTrans 5 (fudgeChar T 2) |||
      spTrans 7 (fudgeChar T 3) ||| spTrans 0 (fudgeChar U 0) ||| spTrans 2 (fudgeChar U 1) |||
      spTrans 4 (fudgeChar U 2) ||| spTrans 6 (fudgeChar U 3)) := rfl

theorem dRound_congr {s s' : Nat → DesLong} {S : Nat} {R R' : DesLong}
    (hT : turned (R ^^^ s (S + 1)) = turned (R' ^^^ s' (S + 1)))
    (hU : (R ^^^ s S) &&& 0x3f3f3f3f = (R' ^^^ s' S) &&& 0x3f3f3f3f) : dRound s S R = dRound s' S R' := by
  rw [dRound_eq, dRound_eq, hT, hU]

/-- In the bits that are looked up, the schedule of the key with all bits is all ones. -/
theorem desSetKey_ones : ∀ k ∈ schedule, (compl (desSetKey ones k)) &&& 0x3f3f3f3f = 0 ∧
    turned (compl (desSetKey ones (k + 1))) = 0 := by
  decide +kernel

/-- The schedules differ as the schedule of all ones. -/
def TurnedOver (s s' : Nat → DesLong) : Prop := ∀ i, s' i = s i ^^^ desSetKey ones i

theorem TurnedOver.dRound (h : TurnedOver sched sched') {k : Nat} (hk : k ∈ schedule) (R : DesLong) :
    dRound sched' k (compl R) = dRound sched k R := by
  obtain ⟨hU, hT⟩ := desSetKey_ones k hk
  have hcancel : ∀ i, compl R ^^^ sched' i = (R ^^^ sched i) ^^^ compl (desSetKey ones i) := by
    intro i
    rw [h i]
    unfold compl
    ac_rfl
  refine dRound_congr ?_ ?_
  · rw [hcancel, turned_linear.map_op, hT]
    exact BitVec.xor_zero
  · rw [hcancel, xor_and, hU]
    exact BitVec.xor_zero

theorem compl_xor (a b : DesLong) : compl a ^^^ b = compl (a ^^^ b) := by
  unfold compl
  ac_rfl

theorem TurnedOver.desRounds (h : TurnedOver sched sched') {ks : List Nat} (hks : ∀ k ∈ ks, k ∈ schedule)
    (p : DesLong × DesLong) : desRounds sched' ks (compl p.1, compl p.2) =
      (compl (desRounds sched ks p).1, compl (desRounds sched ks p).2) :=
  Feistel.run_map compl compl_xor ks (fun k hk b => h.dRound (hks k hk) b) p

theorem TurnedOver.desBlock (h : TurnedOver sched sched') {ks : List Nat} (hks : ∀ k ∈ ks, k ∈ schedule)
    (hx : Low x) (hy : Low y) : desBlock sched' ks (compl x, compl y) =
      (compl (desBlock sched ks (x, y)).1, compl (desBlock sched ks (x, y)).2) := by
  obtain ⟨hu, hr⟩ := ip_low hx hy
  set p := Crypt.desRounds sched ks (rotateIn (ip x y).2, rotateIn (ip x y).1) with hp
  have hlow : Low p.1 ∧ Low p.2 := Feistel.run_keeps (fun k a b ha => ha.xor (dRound_low sched k b)) ks _
    (rotateIn_low _) (rotateIn_low _)
  have hrun : Crypt.desRounds sched' ks (rotateIn (ip (compl x) (compl y)).2, rotateIn (ip (compl x) (compl y)).1) =
      (compl p.1, compl p.2) := by
    rw [ip_compl, rotateIn_compl hu, rotateIn_compl hr, hp]
    exact h.desRounds hks (rotateIn (ip x y).2, rotateIn (ip x y).1)
  unfold Crypt.desBlock
  dsimp only
  rw [hrun, rotateOut_compl hlow.1, rotateOut_compl hlow.2, fp_compl]
  rfl

/-! ## Blocks in memory -/

theorem compl_byte (b : UInt8) : ~~~b = b ^^^ 0xff := by
  refine UInt8.toBitVec_inj.mp ?_
  rw [UInt8.toBitVec_not, UInt8.toBitVec_xor, ← BitVec.xor_allOnes]
  rfl

theorem c2l_xorBuf_ones (mem : Buf) (c : Nat) : c2l (xorBuf mem ones) c = compl (c2l mem c) := by
  have hones : c2l ones c = 0xffffffff := by
    change byteLong 0xff ||| byteLong 0xff <<< 8 ||| byteLong 0xff <<< 16 ||| byteLong 0xff <<< 24 = 0xffffffff
    decide
  rw [(c2l_linear c).map_op, hones, compl]

theorem blockAt_compl {a : Nat} (h : ∀ i, i < 8 → mem' (a + i) = ~~~mem (a + i)) :
    blockAt mem' a = (compl (blockAt mem a).1, compl (blockAt mem a).2) := by
  have hsame : blockAt mem' a = blockAt (xorBuf mem ones) a := blockAt_congr fun k hk => by
    rw [h k hk, compl_byte]
    rfl
  rw [hsame]
  exact Prod.ext (c2l_xorBuf_ones _ _) (c2l_xorBuf_ones _ _)

theorem byte_of_blockAt_compl {a : Nat} (h : blockAt mem' a = (compl (blockAt mem a).1, compl (blockAt mem a).2))
    {i : Nat} (hi : i < 8) : mem' (a + i) = ~~~mem (a + i) := by
  have hsame : blockAt mem' a = blockAt (xorBuf mem ones) a := by
    rw [h]
    exact (Prod.ext (c2l_xorBuf_ones _ _) (c2l_xorBuf_ones _ _)).symm
  rw [byte_of_blockAt hsame hi, compl_byte]
  rfl

theorem turnedOver_of_key (h : ∀ i, i < 8 → key' i = ~~~key i) : TurnedOver (desSetKey key) (desSetKey key') := by
  intro i
  have hkey : desSetKey key' = desSetKey (xorBuf key ones) := desSetKey_congr fun k hk => by
    rw [h k hk, compl_byte]
    rfl
  rw [hkey, (desSetKey_linear i).map_op]

theorem desLoop_compl (encrypt : Bool) (hsd : SameOrApart s d n) (hkey : ∀ i, i < 8 → key' i = ~~~key i)
    (htext : ∀ i, i < 8 * n → mem' (s + i) = ~~~mem (s + i)) {i : Nat} (hi : i < 8 * n) :
    desLoop (desSetKey key') encrypt n mem' s d (d + i) = ~~~desLoop (desSetKey key) encrypt n mem s d (d + i) := by
  have hj : i / 8 < n := by omega
  have horder : ∀ k ∈ order encrypt, k ∈ schedule := by
    unfold order
    cases encrypt <;> simp
  have hsplit : d + i = d + 8 * (i / 8) + i % 8 := by omega
  rw [hsplit]
  refine byte_of_blockAt_compl ?_ (Nat.mod_lt _ (by decide))
  have hblock := blockAt_compl (a := s + 8 * (i / 8)) fun k hk => by
    have := htext (8 * (i / 8) + k) (by omega)
    rwa [← Nat.add_assoc] at this
  rw [blockAt_desLoop _ _ _ hsd hj, blockAt_desLoop _ _ _ hsd hj, hblock]
  exact (turnedOver_of_key hkey).desBlock horder (c2l_low _ _) (c2l_low _ _)

/-- With all bits of the key and of the text turned over, all bits of the result are turned over, from buffer to
buffer or in place. -/
theorem des_complement (key key' mem mem' : Buf) (s d n : Nat) (hsd : SameOrApart s d n)
    (hkey : ∀ i, i < 8 → key' i = ~~~key i) (htext : ∀ i, i < 8 * n → mem' (s + i) = ~~~mem (s + i)) :
    (∀ i, i < 8 * n → desEncryptN key' mem' s d n (d + i) = ~~~desEncryptN key mem s d n (d + i)) ∧
      ∀ i, i < 8 * n → desDecryptN key' mem' s d n (d + i) = ~~~desDecryptN key mem s d n (d + i) :=
  ⟨fun _ hi => desLoop_compl true hsd hkey htext hi, fun _ hi => desLoop_compl false hsd hkey htext hi⟩

theorem des_complement_inPlace :
    (∀ i, i < 24 → desEncryptN (fun i => ~~~UInt8.ofNat i) (fun i => ~~~UInt8.ofNat i) 0 0 3 (0 + i) =
        ~~~desEncryptN UInt8.ofNat UInt8.ofNat 0 0 3 (0 + i)) ∧
      ∀ i, i < 24 → desDecryptN (fun i => ~~~UInt8.ofNat i) (fun i => ~~~UInt8.ofNat i) 0 0 3 (0 + i) =
        ~~~desDecryptN UInt8.ofNat UInt8.ofNat 0 0 3 (0 + i) :=
  des_complement UInt8.ofNat (fun i => ~~~UInt8.ofNat i) UInt8.ofNat (fun i => ~~~UInt8.ofNat i) 0 0 3 (.inl rfl)
    (fun _ _ => rfl) fun _ _ => rfl

/-! ## The bits of the key that are not used -/

/-- The lowest bit of byte `j`. -/
def lowestBit (j : Nat) : Buf := fun i => if i = j then 1 else 0

/-- The bytes before `n`. -/
def firstBytes (p : Buf) (n : Nat) : Buf := fun i => if i < n then p i else 0

theorem desSetKey_lowestBit : ∀ j : Fin 8, ∀ i : Fin 32, desSetKey (lowestBit j) i = 0 := by decide +kernel

theorem firstBytes_succ_of_zero {p : Buf} (h : p n = 0) : firstBytes p (n + 1) = firstBytes p n := by
  funext i
  unfold firstBytes
  by_cases hi : i < n
  · rw [if_pos hi, if_pos (Nat.lt_succ_of_lt hi)]
  · rw [if_neg hi]
    by_cases hin : i = n
    · subst hin
      rw [if_pos (Nat.lt_succ_self _), h]
    · rw [if_neg (by omega)]

theorem firstBytes_succ_of_one {p : Buf} (h : p n = 1) :
    firstBytes p (n + 1) = xorBuf (firstBytes p n) (lowestBit n) := by
  funext i
  unfold xorBuf firstBytes lowestBit
  by_cases hin : i = n
  · subst hin
    rw [if_pos (Nat.lt_succ_self _), if_neg (Nat.lt_irrefl _), if_pos rfl, h]
    rfl
  · rw [if_neg hin]
    by_cases hi : i < n
    · rw [if_pos hi, if_pos (Nat.lt_succ_of_lt hi), UInt8.xor_zero]
    · rw [if_neg hi, if_neg (by omega)]
      rfl

theorem desSetKey_firstBytes {p : Buf} (h : ∀ i, i < 8 → p i = 0 ∨ p i = 1) {i : Nat} (hi : i < 32) {n : Nat}
    (hn : n ≤ 8) : desSetKey (firstBytes p n) i = 0 := by
  induction n with
  | zero =>
      have hsame : firstBytes p 0 = xorBuf (firstBytes p 0) (firstBytes p 0) := by
        funext k
        exact (UInt8.xor_self).symm
      rw [hsame, (desSetKey_linear i).map_op, BitVec.xor_self]
      rfl
  | succ n ih =>
      rcases h n hn with h0 | h1
      · rw [firstBytes_succ_of_zero h0]
        exact ih (Nat.le_of_lt hn)
      · rw [firstBytes_succ_of_one h1, (desSetKey_linear i).map_op, ih (Nat.le_of_lt hn),
          desSetKey_lowestBit ⟨n, hn⟩ ⟨i, hi⟩]
        rfl

theorem eq_zero_or_one {b : UInt8} (h : b &&& 0xfe = 0) : b = 0 ∨ b = 1 := by
  have hall : ∀ v : BitVec 8, v &&& 0xfe = 0 → v = 0 ∨ v = 1 := by decide
  exact (hall b.toBitVec (congrArg UInt8.toBitVec h)).imp UInt8.toBitVec_inj.mp UInt8.toBitVec_inj.mp

theorem desSetKey_unused (h : ∀ i, i < 8 → key' i &&& 0xfe = key i &&& 0xfe) : desSetKey key' = desSetKey key := by
  have hbit : ∀ i, i < 8 → xorBuf key key' i = 0 ∨ xorBuf key key' i = 1 := fun i hi => by
    refine eq_zero_or_one ?_
    have hand : (key i ^^^ key' i) &&& 0xfe = (key i &&& 0xfe) ^^^ (key' i &&& 0xfe) :=
      UInt8.toBitVec_inj.mp (xor_and _ _ _)
    change (key i ^^^ key' i) &&& 0xfe = 0
    rw [hand, h i hi, UInt8.xor_self]
  have hkey : desSetKey key' = desSetKey (xorBuf key (firstBytes (xorBuf key key') 8)) := desSetKey_congr fun i hi => by
    unfold xorBuf firstBytes
    rw [if_pos hi, ← UInt8.xor_assoc, UInt8.xor_self, UInt8.zero_xor]
  funext i
  by_cases hi : i < 32
  · rw [hkey, (desSetKey_linear i).map_op, desSetKey_firstBytes hbit hi (Nat.le_refl 8)]
    exact BitVec.xor_zero
  · rw [desSetKey_of_le _ (Nat.le_of_not_lt hi), desSetKey_of_le _ (Nat.le_of_not_lt hi)]

/-- Two keys that differ in no more than the lowest bits of their bytes give the same results. -/
theorem des_unusedBits (key key' mem : Buf) (s d n : Nat) (h : ∀ i, i < 8 → key' i &&& 0xfe = key i &&& 0xfe) :
    desEncryptN key' mem s d n = desEncryptN key mem s d n ∧
      desDecryptN key' mem s d n = desDecryptN key mem s d n := by
  unfold desEncryptN desDecryptN
  rw [desSetKey_unused h]
  exact ⟨rfl, rfl⟩

theorem des_unusedBits_oddKey :
    desEncryptN (fun i => UInt8.ofNat (2 * i + 1)) UInt8.ofNat 0 8 1 =
        desEncryptN (fun i => UInt8.ofNat (2 * i)) UInt8.ofNat 0 8 1 ∧
      desDecryptN (fun i => UInt8.ofNat (2 * i + 1)) UInt8.ofNat 0 8 1 =
        desDecryptN (fun i => UInt8.ofNat (2 * i)) UInt8.ofNat 0 8 1 :=
  des_unusedBits (fun i => UInt8.ofNat (2 * i)) (fun i => UInt8.ofNat (2 * i + 1)) UInt8.ofNat 0 8 1 (by decide)

end Taomee.Crypt
