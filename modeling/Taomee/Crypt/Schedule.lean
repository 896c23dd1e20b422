import Mathlib.Data.List.GetD
import Taomee.Lib.Linear
import Taomee.Crypt.RoundTrip

/-!
# The schedule of a key is linear

Every word of the schedule is linear in exclusive or of the bytes of the key: `des_set_key` moves bits around and
looks them up in tables that are linear themselves. So the schedules of related keys are related.
-/

namespace Taomee.Crypt

/-- Exclusive or, byte by byte. -/
def xorBuf (a b : Buf) : Buf := fun i => a i ^^^ b i

section

variable {α : Type*} {op : α → α → α} {a b f : α → DesLong} {key key' : Buf} {m : DesLong}

/-! ## The halves of the key -/

/-- What the loop of `des_set_key` starts with. -/
def keyHalves (key : Buf) : DesLong × DesLong :=
  let p₁ := permOp (c2l key 4) (c2l key 0) 4 0x0f0f0f0f
  let p₂ := permOp (hpermOp p₁.1 (-2) 0xcccc0000) (hpermOp p₁.2 (-2) 0xcccc0000) 1 0x55555555
  let p₃ := permOp p₂.2 p₂.1 8 0x00ff00ff
  let p₄ := permOp p₃.2 p₃.1 1 0x55555555
  (p₄.2 &&& 0x0fffffff, ((p₄.1 &&& 0x000000ff) <<< 16) ||| (p₄.1 &&& 0x0000ff00) |||
    ((p₄.1 &&& 0x00ff0000) >>> 16) ||| ((p₄.2 &&& 0xf0000000) >>> 4))

theorem desSetKey_eq (key : Buf) (i : Nat) : desSetKey key i =
    (shifts2.foldl setKeyRound ((keyHalves key).1, (keyHalves key).2, [])).2.2.getD i 0 := rfl

theorem byteLong_linear (i : Nat) : LinearIn xorBuf 0xff fun key => byteLong (key i) := by
  refine ⟨fun a b => ?_, fun a => ?_⟩
  · refine BitVec.eq_of_getLsbD_eq fun j _ => ?_
    rw [BitVec.getLsbD_xor, getLsbD_byteLong, getLsbD_byteLong, getLsbD_byteLong, ← BitVec.getLsbD_xor]
    rfl
  · have hall : ∀ b : BitVec 8, b.setWidth 64 &&& (0xff : DesLong) = b.setWidth 64 := by decide
    exact hall _

theorem c2l_linear (c : Nat) : LinearIn xorBuf 0xffffffff fun key => c2l key c :=
  ((((byteLong_linear c).or ((byteLong_linear (c + 1)).shiftLeft 8) (by decide)).or
    ((byteLong_linear (c + 2)).shiftLeft 16) (by decide)).or
      ((byteLong_linear (c + 3)).shiftLeft 24) (by decide)).mono (by decide)

/-- Exchanging bits under a mask, where no bit leaves the low word. -/
theorem permOp_linear (n : Nat) (m : DesLong) (ha : LinearIn op 0xffffffff a) (hb : LinearIn op 0xffffffff b)
    (hm : m &&& 0xffffffff = m) (hmn : (m <<< n) &&& 0xffffffff = m <<< n) :
    LinearIn op 0xffffffff (fun x => (permOp (a x) (b x) n m).1) ∧
      LinearIn op 0xffffffff fun x => (permOp (a x) (b x) n m).2 := by
  have ht : LinearIn op m fun x => ((a x >>> n) ^^^ b x) &&& m :=
    (((ha.shiftRight n).xor hb).and m).mono (by rw [BitVec.and_assoc, BitVec.and_self])
  exact ⟨(ha.xor ((ht.shiftLeft n).mono hmn)).mono (by decide), (hb.xor (ht.mono hm)).mono (by decide)⟩

theorem hpermOp_linear (ha : LinearIn op 0xffffffff a) :
    LinearIn op 0xffffffff fun x => hpermOp (a x) (-2) 0xcccc0000 := by
  have ht : LinearIn op 0xcccc0000 fun x => ((a x <<< 18) ^^^ a x) &&& 0xcccc0000 :=
    (((ha.shiftLeft 18).xor ha).and 0xcccc0000).mono (by decide)
  exact ((ha.xor ht).xor (ht.shiftRight 18)).mono (by decide)

theorem keyHalves_linear : LinearIn xorBuf 0x0fffffff (fun key => (keyHalves key).1) ∧
    LinearIn xorBuf 0x0fffffff fun key => (keyHalves key).2 := by
  obtain ⟨hd₁, hc₁⟩ := permOp_linear 4 0x0f0f0f0f (c2l_linear 4) (c2l_linear 0) (by decide) (by decide)
  obtain ⟨hd₂, hc₂⟩ := permOp_linear 1 0x55555555 (hpermOp_linear hd₁) (hpermOp_linear hc₁) (by decide) (by decide)
  obtain ⟨hc₃, hd₃⟩ := permOp_linear 8 0x00ff00ff hc₂ hd₂ (by decide) (by decide)
  obtain ⟨hd₄, hc₄⟩ := permOp_linear 1 0x55555555 hd₃ hc₃ (by decide) (by decide)
  refine ⟨(hc₄.and 0x0fffffff).mono (by decide), ?_⟩
  exact (((((hd₄.and 0x000000ff).shiftLeft 16).or (hd₄.and 0x0000ff00) (by decide)).or
    ((hd₄.and 0x00ff0000).shiftRight 16) (by decide)).or
      ((hc₄.and 0xf0000000).shiftRight 4) (by decide)).mono (by decide)

theorem keyHalves_congr (h : ∀ i, i < 8 → key i = key' i) : keyHalves key = keyHalves key' := by
  have h0 : c2l key 0 = c2l key' 0 := c2l_congr fun k hk => h _ (by omega)
  have h4 : c2l key 4 = c2l key' 4 := c2l_congr fun k hk => h _ (by omega)
  unfold keyHalves
  rw [h0, h4]

/-! ## The rounds of the schedule -/

/-- The rotation of a half of 28 bits. -/
def rotateHalf (shift2 : Nat) (x : DesLong) : DesLong :=
  (if shift2 ≠ 0 then (x >>> 2) ||| (x <<< 26) else (x >>> 1) ||| (x <<< 27)) &&& 0x0fffffff

/-- The bits picked from the first half. -/
def pickS (c : DesLong) : DesLong :=
  skb 0 (c &&& 0x3f) ||| skb 1 (((c >>> 6) &&& 0x03) ||| ((c >>> 7) &&& 0x3c)) |||
    skb 2 (((c >>> 13) &&& 0x0f) ||| ((c >>> 14) &&& 0x30)) |||
    skb 3 (((c >>> 20) &&& 0x01) ||| ((c >>> 21) &&& 0x06) ||| ((c >>> 22) &&& 0x38))

/-- The bits picked from the second half. -/
def pickT (d : DesLong) : DesLong :=
  skb 4 (d &&& 0x3f) ||| skb 5 (((d >>> 7) &&& 0x03) ||| ((d >>> 8) &&& 0x3c)) |||
    skb 6 ((d >>> 15) &&& 0x3f) ||| skb 7 (((d >>> 21) &&& 0x0f) ||| ((d >>> 22) &&& 0x30))

def firstWord (c d : DesLong) : DesLong := ((pickT d <<< 16) ||| (pickS c &&& 0x0000ffff)) &&& 0xffffffff

def secondWord (c d : DesLong) : DesLong :=
  (((pickS c >>> 16 ||| (pickT d &&& 0xffff0000)) <<< 4) ||| ((pickS c >>> 16 ||| (pickT d &&& 0xffff0000)) >>> 28)) &&&
    0xffffffff

/-- The words that a round adds to the schedule. -/
def nextWords (c d : DesLong) : List DesLong := [firstWord c d, secondWord c d]

theorem setKeyRound_eq (c d : DesLong) (k : List DesLong) (shift2 : Nat) : setKeyRound (c, d, k) shift2 =
    (rotateHalf shift2 c, rotateHalf shift2 d, k ++ nextWords (rotateHalf shift2 c) (rotateHalf shift2 d)) := by
  unfold setKeyRound rotateHalf
  by_cases h : shift2 ≠ 0
  · simp only [if_pos h]
    rfl
  · simp only [if_neg h]
    rfl

theorem rotateHalf_linear (shift2 : Nat) (hf : LinearIn op 0x0fffffff f) :
    LinearIn op 0x0fffffff fun x => rotateHalf shift2 (f x) := by
  unfold rotateHalf
  by_cases h : shift2 ≠ 0
  · simp only [if_pos h]
    exact (((hf.shiftRight 2).or (hf.shiftLeft 26) (by decide)).and 0x0fffffff).mono (by decide)
  · simp only [if_neg h]
    exact (((hf.shiftRight 1).or (hf.shiftLeft 27) (by decide)).and 0x0fffffff).mono (by decide)

/-- The word when the bit is set. -/
def onBit (bit : Bool) (w : DesLong) : DesLong := if bit then w else 0

theorem onBit_xor (bit bit' : Bool) (w : DesLong) : onBit (bit ^^ bit') w = onBit bit w ^^^ onBit bit' w := by
  cases bit <;> cases bit' <;> simp [onBit]

/-- What a table gives, put together from what it gives for single bits. -/
def fromBits (j : Nat) (x : DesLong) : DesLong :=
  onBit (x.getLsbD 0) (skb j 1) ^^^ onBit (x.getLsbD 1) (skb j 2) ^^^ onBit (x.getLsbD 2) (skb j 4) ^^^
    onBit (x.getLsbD 3) (skb j 8) ^^^ onBit (x.getLsbD 4) (skb j 16) ^^^ onBit (x.getLsbD 5) (skb j 32)

theorem fromBits_xor (j : Nat) (x y : DesLong) : fromBits j (x ^^^ y) = fromBits j x ^^^ fromBits j y := by
  unfold fromBits
  simp only [BitVec.getLsbD_xor, onBit_xor]
  ac_rfl

/-- The eight tables of 64 words are linear. -/
theorem skb_eq_fromBits : ∀ j : Fin 8, ∀ x : Fin 64, skb j (BitVec.ofNat 64 x) = fromBits j (BitVec.ofNat 64 x) := by
  decide +kernel

/-- The bits that a table gives are those that it gives for six bits that are set. -/
theorem skb_mask : ∀ j : Fin 8, ∀ x : Fin 64,
    skb j (BitVec.ofNat 64 x) &&& skb j 0x3f = skb j (BitVec.ofNat 64 x) := by
  decide +kernel

theorem exists_index {x : DesLong} (h : x &&& 0x3f = x) : ∃ i : Fin 64, x = BitVec.ofNat 64 i := by
  have hlt : x.toNat < 64 := by
    rw [← h, BitVec.toNat_and]
    exact Nat.lt_of_le_of_lt Nat.and_le_right (by decide)
  exact ⟨⟨x.toNat, hlt⟩, (BitVec.ofNat_toNat 64 x).symm.trans (by simp)⟩

theorem skb_linear (j : Fin 8) (hf : LinearIn op 0x3f f) : LinearIn op (skb j 0x3f) fun x => skb j (f x) := by
  refine hf.lookup (fun x y hx hy => ?_) fun x hx => ?_
  · have hxy : (x ^^^ y) &&& 0x3f = x ^^^ y := by
      rw [xor_and, hx, hy]
    obtain ⟨i, rfl⟩ := exists_index hx
    obtain ⟨i', rfl⟩ := exists_index hy
    obtain ⟨i'', hi''⟩ := exists_index hxy
    rw [hi'', skb_eq_fromBits, skb_eq_fromBits, skb_eq_fromBits, ← fromBits_xor, hi'']
  · obtain ⟨i, rfl⟩ := exists_index hx
    exact skb_mask j i

theorem pickS_linear (hf : LinearIn op 0x0fffffff f) : LinearIn op 0xffffffff fun x => pickS (f x) := by
  have h0 := skb_linear 0 ((hf.and 0x3f).mono (by decide))
  have h1 := skb_linear 1 ((((hf.shiftRight 6).and 0x03).or ((hf.shiftRight 7).and 0x3c) (by decide)).mono (by decide))
  have h2 := skb_linear 2
    ((((hf.shiftRight 13).and 0x0f).or ((hf.shiftRight 14).and 0x30) (by decide)).mono (by decide))
  have h3 := skb_linear 3 (((((hf.shiftRight 20).and 0x01).or ((hf.shiftRight 21).and 0x06) (by decide)).or
    ((hf.shiftRight 22).and 0x38) (by decide)).mono (by decide))
  exact (((h0.or h1 (by decide +kernel)).or h2 (by decide +kernel)).or h3 (by decide +kernel)).mono (by decide +kernel)

theorem pickT_linear (hf : LinearIn op 0x0fffffff f) : LinearIn op 0xffffffff fun x => pickT (f x) := by
  have h4 := skb_linear 4 ((hf.and 0x3f).mono (by decide))
  have h5 := skb_linear 5 ((((hf.shiftRight 7).and 0x03).or ((hf.shiftRight 8).and 0x3c) (by decide)).mono (by decide))
  have h6 := skb_linear 6 (((hf.shiftRight 15).and 0x3f).mono (by decide))
  have h7 := skb_linear 7
    ((((hf.shiftRight 21).and 0x0f).or ((hf.shiftRight 22).and 0x30) (by decide)).mono (by decide))
  exact (((h4.or h5 (by decide +kernel)).or h6 (by decide +kernel)).or h7 (by decide +kernel)).mono (by decide +kernel)

theorem firstWord_linear (ha : LinearIn op 0x0fffffff a) (hb : LinearIn op 0x0fffffff b) :
    LinearIn op 0xffffffff fun x => firstWord (a x) (b x) :=
  ((((pickT_linear hb).shiftLeft 16).or ((pickS_linear ha).and 0x0000ffff) (by decide)).and 0xffffffff).mono (by decide)

theorem secondWord_linear (ha : LinearIn op 0x0fffffff a) (hb : LinearIn op 0x0fffffff b) :
    LinearIn op 0xffffffff fun x => secondWord (a x) (b x) := by
  have hs : LinearIn op 0xffffffff fun x => pickS (a x) >>> 16 ||| (pickT (b x) &&& 0xffff0000) :=
    (((pickS_linear ha).shiftRight 16).or ((pickT_linear hb).and 0xffff0000) (by decide)).mono (by decide)
  exact (((hs.shiftLeft 4).or (hs.shiftRight 28) (by decide)).and 0xffffffff).mono (by decide)

theorem nextWords_linear (ha : LinearIn op 0x0fffffff a) (hb : LinearIn op 0x0fffffff b) (j : Nat) :
    LinearIn op 0xffffffff fun x => (nextWords (a x) (b x)).getD j 0 := by
  rcases j with _ | _ | j
  · exact firstWord_linear ha hb
  · exact secondWord_linear ha hb
  · exact LinearIn.zero.mono BitVec.zero_and

/-- The halves and the words so far are linear, and so many for every key. -/
structure LinearSchedule (op : α → α → α) (st : α → DesLong × DesLong × List DesLong) : Prop where
  c : LinearIn op 0x0fffffff fun x => (st x).1
  d : LinearIn op 0x0fffffff fun x => (st x).2.1
  length : ∃ n, ∀ x, (st x).2.2.length = n
  words : ∀ i, LinearIn op 0xffffffff fun x => (st x).2.2.getD i 0

theorem LinearSchedule.round {st : α → DesLong × DesLong × List DesLong} (h : LinearSchedule op st) (shift2 : Nat) :
    LinearSchedule op fun x => setKeyRound (st x) shift2 := by
  have hc := rotateHalf_linear shift2 h.c
  have hd := rotateHalf_linear shift2 h.d
  obtain ⟨n, hn⟩ := h.length
  have heq : (fun x => setKeyRound (st x) shift2) = fun x => (rotateHalf shift2 (st x).1, rotateHalf shift2 (st x).2.1,
      (st x).2.2 ++ nextWords (rotateHalf shift2 (st x).1) (rotateHalf shift2 (st x).2.1)) :=
    funext fun x => setKeyRound_eq _ _ _ _
  rw [heq]
  refine ⟨hc, hd, ⟨n + 2, fun x => by rw [List.length_append, hn]; rfl⟩, fun i => ?_⟩
  by_cases hi : i < n
  · exact (h.words i).congr fun x => List.getD_append _ _ _ _ (by rwa [hn])
  · refine (nextWords_linear hc hd (i - n)).congr fun x => ?_
    rw [List.getD_append_right _ _ _ _ (by rw [hn]; omega), hn]

theorem LinearSchedule.rounds (shifts : List Nat) : ∀ {st : α → DesLong × DesLong × List DesLong},
    LinearSchedule op st → LinearSchedule op fun x => shifts.foldl setKeyRound (st x) := by
  induction shifts with
  | nil => exact id
  | cons shift2 shifts ih => exact fun h => ih (h.round shift2)

end

/-! ## The schedule -/

theorem desSetKey_linear (i : Nat) : LinearIn xorBuf 0xffffffff fun key => desSetKey key i := by
  have hstart : LinearSchedule xorBuf fun key => ((keyHalves key).1, (keyHalves key).2, []) :=
    ⟨keyHalves_linear.1, keyHalves_linear.2, ⟨0, fun _ => rfl⟩, fun _ => LinearIn.zero.mono BitVec.zero_and⟩
  exact (hstart.rounds shifts2).words i

theorem desSetKey_congr {key key' : Buf} (h : ∀ i, i < 8 → key i = key' i) : desSetKey key = desSetKey key' := by
  funext i
  rw [desSetKey_eq, desSetKey_eq, keyHalves_congr h]

theorem length_rounds (shifts : List Nat) : ∀ st : DesLong × DesLong × List DesLong,
    (shifts.foldl setKeyRound st).2.2.length = st.2.2.length + 2 * shifts.length := by
  induction shifts with
  | nil => exact fun _ => rfl
  | cons shift2 shifts ih =>
      intro st
      obtain ⟨c, d, k⟩ := st
      rw [List.foldl_cons, ih, setKeyRound_eq]
      simp only [nextWords, List.length_append, List.length_cons, List.length_nil]
      omega

theorem desSetKey_of_le (key : Buf) {i : Nat} (hi : 32 ≤ i) : desSetKey key i = 0 := by
  rw [desSetKey_eq]
  refine List.getD_eq_default _ _ ?_
  rw [length_rounds]
  exact hi

end Taomee.Crypt
