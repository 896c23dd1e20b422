import Taomee.Crypt.Lemmas.Block

/-!
# Decrypting inverts encrypting

The blocks of a buffer are encrypted one by one, into the same buffer or into one apart from it.
-/

namespace Taomee.Crypt

variable {key mem mem' : Buf} {l : DesLong} {a c d s e n i : Nat}

/-! ## Words in memory -/

theorem getLsbD_byteLong (b : UInt8) (i : Nat) : (byteLong b).getLsbD i = b.toBitVec.getLsbD i := by
  unfold byteLong
  rw [BitVec.getLsbD_setWidth]
  by_cases hi : i < 64
  · simp [hi]
  · simp [BitVec.getLsbD_of_ge b.toBitVec i (by omega)]

theorem toBitVec_longByte (l : DesLong) (n : Nat) :
    (longByte l n).toBitVec = ((l >>> n) &&& 0xff).setWidth 8 := rfl

theorem getLsbD_longByte (l : DesLong) (n : Nat) {i : Nat} (hi : i < 8) :
    (longByte l n).toBitVec.getLsbD i = l.getLsbD (n + i) := by
  have hmask : ∀ i : Fin 8, (0xff : DesLong).getLsbD i = true := by decide
  rw [toBitVec_longByte, BitVec.getLsbD_setWidth, BitVec.getLsbD_and, BitVec.getLsbD_ushiftRight,
    hmask ⟨i, hi⟩]
  simp [hi]

/-- Bit `8 k + i` of a word read from memory is bit `i` of its byte `k`. -/
theorem getLsbD_c2l (mem : Buf) (c : Nat) {k i : Nat} (hk : k < 4) (hi : i < 8) :
    (c2l mem c).getLsbD (8 * k + i) = (mem (c + k)).toBitVec.getLsbD i := by
  have hge : ∀ (b : UInt8) j, 8 ≤ j → b.toBitVec.getLsbD j = false :=
    fun b j hj => BitVec.getLsbD_of_ge _ _ hj
  unfold c2l
  simp only [BitVec.getLsbD_or, BitVec.getLsbD_shiftLeft, getLsbD_byteLong]
  -- the bytes below byte `k` have no such bit, and the shift of those above starts later
  rcases k with _ | _ | _ | _ | k
  · have h16 : i < 16 := by omega
    have h24 : i < 24 := by omega
    simp [hi, h16, h24]
  · have h8 : 8 * (0 + 1) + i - 8 = i := by omega
    have hnot : ¬ 8 * (0 + 1) + i < 8 := by omega
    have h16 : 8 * (0 + 1) + i < 16 := by omega
    have h24 : 8 * (0 + 1) + i < 24 := by omega
    have h64 : 8 * (0 + 1) + i < 64 := by omega
    rw [hge _ _ (show 8 ≤ 8 * (0 + 1) + i by omega), h8]
    simp only [hnot, h16, h24, h64, decide_true, decide_false, Bool.not_true, Bool.not_false,
      Bool.true_and, Bool.false_and, Bool.false_or, Bool.or_false]
  · have h16 : 8 * (0 + 1 + 1) + i - 16 = i := by omega
    have hnot : ¬ 8 * (0 + 1 + 1) + i < 16 := by omega
    have h24 : 8 * (0 + 1 + 1) + i < 24 := by omega
    have h64 : 8 * (0 + 1 + 1) + i < 64 := by omega
    rw [hge _ _ (show 8 ≤ 8 * (0 + 1 + 1) + i by omega),
      hge _ _ (show 8 ≤ 8 * (0 + 1 + 1) + i - 8 by omega), h16]
    simp only [hnot, h24, h64, decide_true, decide_false, Bool.not_true, Bool.not_false,
      Bool.true_and, Bool.false_and, Bool.and_false, Bool.false_or, Bool.or_false]
  · have h24 : 8 * (0 + 1 + 1 + 1) + i - 24 = i := by omega
    have hnot : ¬ 8 * (0 + 1 + 1 + 1) + i < 24 := by omega
    have h64 : 8 * (0 + 1 + 1 + 1) + i < 64 := by omega
    rw [hge _ _ (show 8 ≤ 8 * (0 + 1 + 1 + 1) + i by omega),
      hge _ _ (show 8 ≤ 8 * (0 + 1 + 1 + 1) + i - 8 by omega),
      hge _ _ (show 8 ≤ 8 * (0 + 1 + 1 + 1) + i - 16 by omega), h24]
    simp only [hnot, h64, decide_true, decide_false, Bool.not_false,
      Bool.true_and, Bool.and_false, Bool.false_or]
  · omega

theorem c2l_low (mem : Buf) (c : Nat) : Low (c2l mem c) := by
  intro i hi
  have hge : ∀ (b : UInt8) j, 8 ≤ j → b.toBitVec.getLsbD j = false :=
    fun b j hj => BitVec.getLsbD_of_ge _ _ hj
  unfold c2l
  simp only [BitVec.getLsbD_or, BitVec.getLsbD_shiftLeft, getLsbD_byteLong]
  rw [hge _ _ (show 8 ≤ i by omega), hge _ _ (show 8 ≤ i - 8 by omega),
    hge _ _ (show 8 ≤ i - 16 by omega), hge _ _ (show 8 ≤ i - 24 by omega)]
  simp

theorem longByte_c2l (mem : Buf) (c : Nat) {k : Nat} (hk : k < 4) :
    longByte (c2l mem c) (8 * k) = mem (c + k) := by
  apply UInt8.toBitVec_inj.mp
  apply BitVec.eq_of_getLsbD_eq
  intro i hi
  rw [getLsbD_longByte _ _ hi, getLsbD_c2l mem c hk hi]

theorem l2c_apply (mem : Buf) (l : DesLong) (c : Nat) {k : Nat} (hk : k < 4) :
    l2c mem l c (c + k) = longByte l (8 * k) := by
  unfold l2c
  rcases k with _ | _ | _ | _ | k
  · exact Buf.write_inside mem c _ (i := 0) (by simp)
  · exact Buf.write_inside mem c _ (i := 1) (by simp)
  · exact Buf.write_inside mem c _ (i := 2) (by simp)
  · exact Buf.write_inside mem c _ (i := 3) (by simp)
  · omega

theorem l2c_outside (mem : Buf) (l : DesLong) {c i : Nat} (h : i < c ∨ c + 4 ≤ i) :
    l2c mem l c i = mem i := Buf.write_outside mem (by simpa using h)

theorem c2l_l2c (mem : Buf) (hl : Low l) (c : Nat) : c2l (l2c mem l c) c = l := by
  apply BitVec.eq_of_getLsbD_eq
  intro j hj
  by_cases h : j < 32
  · have hk : j / 8 < 4 := by omega
    have hi : j % 8 < 8 := Nat.mod_lt _ (by omega)
    have hj' : 8 * (j / 8) + j % 8 = j := Nat.div_add_mod j 8
    rw [← hj', getLsbD_c2l _ _ hk hi, l2c_apply _ _ _ hk, getLsbD_longByte _ _ hi]
  · rw [c2l_low _ _ j (by omega), hl j (by omega)]

theorem c2l_congr (h : ∀ k, k < 4 → mem (a + k) = mem' (c + k)) : c2l mem a = c2l mem' c := by
  unfold c2l
  rw [h 1 (by omega), h 2 (by omega), h 3 (by omega)]
  exact congrArg (fun b => byteLong b ||| _ ||| _ ||| _) (h 0 (by omega))

/-! ## Blocks in memory -/

/-- The two words of the block at `a`. -/
def blockAt (mem : Buf) (a : Nat) : DesLong × DesLong := (c2l mem a, c2l mem (a + 4))

theorem blockAt_congr (h : ∀ k, k < 8 → mem (a + k) = mem' (c + k)) : blockAt mem a = blockAt mem' c := by
  unfold blockAt
  rw [c2l_congr fun k hk => h k (by omega), c2l_congr (a := a + 4) (c := c + 4) fun k hk => ?_]
  have := h (4 + k) (by omega)
  rwa [← Nat.add_assoc, ← Nat.add_assoc] at this

theorem byte_of_blockAt (h : blockAt mem a = blockAt mem' c) {k : Nat} (hk : k < 8) :
    mem (a + k) = mem' (c + k) := by
  obtain ⟨h1, h2⟩ := Prod.mk.inj h
  by_cases hlow : k < 4
  · rw [← longByte_c2l mem a hlow, ← longByte_c2l mem' c hlow, h1]
  · have hk' : k - 4 < 4 := by omega
    have hadd : ∀ x, x + k = x + 4 + (k - 4) := fun x => by omega
    rw [hadd a, hadd c, ← longByte_c2l mem (a + 4) hk', ← longByte_c2l mem' (c + 4) hk', h2]

theorem desEcbEncrypt_outside (mem : Buf) (s d : Nat) (ks : Nat → DesLong) (encrypt : Bool)
    (h : i < d ∨ d + 8 ≤ i) : desEcbEncrypt mem s d ks encrypt i = mem i := by
  unfold desEcbEncrypt
  rw [l2c_outside _ _ (by omega), l2c_outside _ _ (by omega)]

/-- The places of the schedule in the order of encryption or decryption. -/
def order (encrypt : Bool) : List Nat := if encrypt then schedule else schedule.reverse

theorem blockAt_desEcbEncrypt (mem : Buf) (s d : Nat) (ks : Nat → DesLong) (encrypt : Bool) :
    blockAt (desEcbEncrypt mem s d ks encrypt) d = desBlock ks (order encrypt) (blockAt mem s) := by
  have hlow := desBlock_low ks (order encrypt) (blockAt mem s)
  have hll : doDesEcbEncrypt (c2l mem s, c2l mem (s + 4)) ks encrypt =
      desBlock ks (order encrypt) (blockAt mem s) := doDesEcbEncrypt_eq _ _ _
  unfold desEcbEncrypt
  rw [hll]
  generalize desBlock ks (order encrypt) (blockAt mem s) = p at hlow ⊢
  have hfirst : c2l (l2c (l2c mem p.1 d) p.2 (d + 4)) d = p.1 :=
    (c2l_congr fun k hk => l2c_outside _ _ (by omega)).trans (c2l_l2c mem hlow.1 d)
  exact Prod.ext hfirst (c2l_l2c _ hlow.2 (d + 4))

/-! ## Buffers -/

/-- The destination is the source, or the two have no byte in common. -/
def SameOrApart (s d n : Nat) : Prop := s = d ∨ s + 8 * n ≤ d ∨ d + 8 * n ≤ s

theorem desLoop_outside (ks : Nat → DesLong) (encrypt : Bool) (n : Nat) : ∀ {mem : Buf} {s d i : Nat},
    i < d ∨ d + 8 * n ≤ i → desLoop ks encrypt n mem s d i = mem i := by
  induction n with
  | zero => exact fun _ => rfl
  | succ n ih =>
      intro mem s d i h
      unfold desLoop
      rw [ih (by omega), desEcbEncrypt_outside _ _ _ _ _ (by omega)]

/-- Every block of the destination is the encrypted block of the source. -/
theorem blockAt_desLoop (ks : Nat → DesLong) (encrypt : Bool) (n : Nat) : ∀ {mem : Buf} {s d j : Nat},
    SameOrApart s d n → j < n → blockAt (desLoop ks encrypt n mem s d) (d + 8 * j) =
      desBlock ks (order encrypt) (blockAt mem (s + 8 * j)) := by
  induction n with
  | zero =>
      intro mem s d j _ hj
      omega
  | succ n ih =>
      intro mem s d j hsd hj
      unfold desLoop
      rcases j with _ | j
      · -- later blocks leave the first one alone
        rw [← blockAt_desEcbEncrypt]
        exact blockAt_congr fun k hk => desLoop_outside _ _ _ (by omega)
      · have hrest : SameOrApart (s + 8) (d + 8) n := by
          unfold SameOrApart at hsd ⊢
          omega
        have hd : d + 8 * (j + 1) = d + 8 + 8 * j := by omega
        have hs : s + 8 * (j + 1) = s + 8 + 8 * j := by omega
        rw [hd, hs, ih hrest (by omega)]
        refine congrArg _ (blockAt_congr fun k hk => desEcbEncrypt_outside _ _ _ _ _ ?_)
        unfold SameOrApart at hsd
        omega

/-- One order of the schedule, a copy of the result and then the other order restore the source. -/
theorem desLoop_copy (ks : Nat → DesLong) (encrypt : Bool) (mem mem' : Buf) (hsd : SameOrApart s d n)
    (hce : SameOrApart c e n) (hcopy : ∀ i, i < 8 * n → mem' (c + i) = desLoop ks encrypt n mem s d (d + i))
    (hi : i < 8 * n) : desLoop ks (!encrypt) n mem' c e (e + i) = mem (s + i) := by
  have hj : i / 8 < n := by omega
  have hadd : ∀ x, x + i = x + 8 * (i / 8) + i % 8 := fun x => by omega
  rw [hadd e, hadd s]
  refine byte_of_blockAt ?_ (Nat.mod_lt _ (by omega))
  have hundo : order (!encrypt) = (order encrypt).reverse := by
    cases encrypt <;> simp [order]
  have hblock : blockAt mem' (c + 8 * (i / 8)) = blockAt (desLoop ks encrypt n mem s d) (d + 8 * (i / 8)) :=
    blockAt_congr fun k hk => by
      rw [Nat.add_assoc, Nat.add_assoc]
      exact hcopy _ (by omega)
  rw [blockAt_desLoop _ _ _ hce hj, hblock, blockAt_desLoop _ _ _ hsd hj, hundo,
    desBlock_reverse _ _ (c2l_low _ _) (c2l_low _ _)]

/-- Decrypting the encrypted buffer gives the buffer back, and so does encrypting the decrypted one,
from buffer to buffer or in place. -/
theorem des_roundTrip (key mem : Buf) (s d e n : Nat) (hsd : SameOrApart s d n) (hde : SameOrApart d e n) :
    (∀ i, i < 8 * n → desDecryptN key (desEncryptN key mem s d n) d e n (e + i) = mem (s + i)) ∧
      ∀ i, i < 8 * n → desEncryptN key (desDecryptN key mem s d n) d e n (e + i) = mem (s + i) :=
  ⟨fun _ hi => desLoop_copy _ true mem _ hsd hde (fun _ _ => rfl) hi,
    fun _ hi => desLoop_copy _ false mem _ hsd hde (fun _ _ => rfl) hi⟩

/-- Three blocks that count up, in place. -/
theorem des_roundTrip_inPlace :
    (∀ i, i < 24 → desDecryptN UInt8.ofNat (desEncryptN UInt8.ofNat UInt8.ofNat 0 0 3) 0 0 3 (0 + i) =
        UInt8.ofNat (0 + i)) ∧
      ∀ i, i < 24 → desEncryptN UInt8.ofNat (desDecryptN UInt8.ofNat UInt8.ofNat 0 0 3) 0 0 3 (0 + i) =
        UInt8.ofNat (0 + i) :=
  des_roundTrip UInt8.ofNat UInt8.ofNat 0 0 0 3 (.inl rfl) (.inl rfl)

end Taomee.Crypt
