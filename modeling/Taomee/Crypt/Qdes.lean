import Taomee.Lib.Bytes
import Taomee.Crypt.Tables

/-!
# DES in ECB mode (crypt/qdes.c)

`DES_LONG` is an unsigned integer of 64 bits on a little-endian machine. Source and destination are
places in one memory.
-/

namespace Taomee.Crypt

/-! ## The macros -/

/-- `PERM_OP(a, b, t, n, m)`: the new `a` and `b`. -/
def permOp (a b : DesLong) (n : Nat) (m : DesLong) : DesLong × DesLong :=
  let t := ((a >>> n) ^^^ b) &&& m
  (a ^^^ (t <<< n), b ^^^ t)

/-- `HPERM_OP(a, t, n, m)`: the new `a`. -/
def hpermOp (a : DesLong) (n : Int) (m : DesLong) : DesLong :=
  let t := ((a <<< (16 - n).toNat) ^^^ a) &&& m
  a ^^^ t ^^^ (t >>> (16 - n).toNat)

/-- A byte read as a `DES_LONG`. -/
def byteLong (b : UInt8) : DesLong := b.toBitVec.setWidth 64

/-- `c2l(c, l)`: the `l` read at `c`. -/
def c2l (mem : Buf) (c : Nat) : DesLong :=
  byteLong (mem c) ||| (byteLong (mem (c + 1)) <<< 8) ||| (byteLong (mem (c + 2)) <<< 16) |||
    (byteLong (mem (c + 3)) <<< 24)

/-- `(unsigned char)((l >> n) & 0xff)`. -/
def longByte (l : DesLong) (n : Nat) : UInt8 := ⟨((l >>> n) &&& 0xff).setWidth 8⟩

/-- `l2c(l, c)`: the memory after the bytes of `l` are stored at `c`. -/
def l2c (mem : Buf) (l : DesLong) (c : Nat) : Buf :=
  mem.write c [longByte l 0, longByte l 8, longByte l 16, longByte l 24]

/-- `U.s[k]` of `union fudge` with `U.l = l`. -/
def fudgeShort (l : DesLong) (k : Nat) : DesLong := (l >>> (16 * k)) &&& 0xffff

/-- `U.c[k]` of `union fudge` with `U.l = l`. -/
def fudgeChar (l : DesLong) (k : Nat) : Nat := ((l >>> (8 * k)) &&& 0xff).toNat

/-- `des_SPtrans[j][i]`. -/
def spTrans (j i : Nat) : DesLong := (desSPtrans.getD j []).getD i 0

/-- What `D_ENCRYPT(L, R, S)` combines with `L`. -/
def dRound (s : Nat → DesLong) (S : Nat) (R : DesLong) : DesLong :=
  let U := R ^^^ s (S + 1)
  let s0 := ((fudgeShort U 0 >>> 4) ||| (fudgeShort U 1 <<< 12)) &&& 0x3f3f
  let s1 := ((fudgeShort U 1 >>> 4) ||| (fudgeShort U 0 <<< 12)) &&& 0x3f3f
  let T := s0 ||| (s1 <<< 16)
  let U := (R ^^^ s S) &&& 0x3f3f3f3f
  spTrans 1 (fudgeChar T 0) ||| spTrans 3 (fudgeChar T 1) ||| spTrans 5 (fudgeChar T 2) |||
    spTrans 7 (fudgeChar T 3) ||| spTrans 0 (fudgeChar U 0) ||| spTrans 2 (fudgeChar U 1) |||
    spTrans 4 (fudgeChar U 2) ||| spTrans 6 (fudgeChar U 3)

/-- `D_ENCRYPT(L, R, S)`: the new `L`. -/
def dEncrypt (s : Nat → DesLong) (L R : DesLong) (S : Nat) : DesLong := L ^^^ dRound s S R

/-- `IP(l, r)`: the new `l` and `r`. -/
def ip (l r : DesLong) : DesLong × DesLong :=
  let (r, l) := permOp r l 4 0x0f0f0f0f
  let (l, r) := permOp l r 16 0x0000ffff
  let (r, l) := permOp r l 2 0x33333333
  let (l, r) := permOp l r 8 0x00ff00ff
  let (r, l) := permOp r l 1 0x55555555
  (l, r)

/-- `FP(l, r)`: the new `l` and `r`. -/
def fp (l r : DesLong) : DesLong × DesLong :=
  let (l, r) := permOp l r 1 0x55555555
  let (r, l) := permOp r l 8 0x00ff00ff
  let (l, r) := permOp l r 2 0x33333333
  let (r, l) := permOp r l 16 0x0000ffff
  let (l, r) := permOp l r 4 0x0f0f0f0f
  (l, r)

/-! ## des_set_key -/

/-- `des_skb[j][i]`. -/
def skb (j : Nat) (i : DesLong) : DesLong := (desSkb.getD j []).getD i.toNat 0

/-- The body of the loop of `des_set_key`: the new `c` and `d`, and the schedule so far. -/
def setKeyRound (st : DesLong × DesLong × List DesLong) (shift2 : Nat) :
    DesLong × DesLong × List DesLong :=
  let (c, d, k) := st
  let (c, d) :=
    if shift2 ≠ 0 then ((c >>> 2) ||| (c <<< 26), (d >>> 2) ||| (d <<< 26))
    else ((c >>> 1) ||| (c <<< 27), (d >>> 1) ||| (d <<< 27))
  let c := c &&& 0x0fffffff
  let d := d &&& 0x0fffffff
  let s :=
    skb 0 (c &&& 0x3f) ||| skb 1 (((c >>> 6) &&& 0x03) ||| ((c >>> 7) &&& 0x3c)) |||
      skb 2 (((c >>> 13) &&& 0x0f) ||| ((c >>> 14) &&& 0x30)) |||
      skb 3 (((c >>> 20) &&& 0x01) ||| ((c >>> 21) &&& 0x06) ||| ((c >>> 22) &&& 0x38))
  let t :=
    skb 4 (d &&& 0x3f) ||| skb 5 (((d >>> 7) &&& 0x03) ||| ((d >>> 8) &&& 0x3c)) |||
      skb 6 ((d >>> 15) &&& 0x3f) ||| skb 7 (((d >>> 21) &&& 0x0f) ||| ((d >>> 22) &&& 0x30))
  let k0 := ((t <<< 16) ||| (s &&& 0x0000ffff)) &&& 0xffffffff
  let s := (s >>> 16) ||| (t &&& 0xffff0000)
  let s := (s <<< 4) ||| (s >>> 28)
  (c, d, k ++ [k0, s &&& 0xffffffff])

/-- `des_set_key`: the schedule of the key, read as an array of `DES_LONG`. -/
def desSetKey (key : Buf) : Nat → DesLong :=
  let c := c2l key 0
  let d := c2l key 4
  let (d, c) := permOp d c 4 0x0f0f0f0f
  let c := hpermOp c (-2) 0xcccc0000
  let d := hpermOp d (-2) 0xcccc0000
  let (d, c) := permOp d c 1 0x55555555
  let (c, d) := permOp c d 8 0x00ff00ff
  let (d, c) := permOp d c 1 0x55555555
  let d := ((d &&& 0x000000ff) <<< 16) ||| (d &&& 0x0000ff00) ||| ((d &&& 0x00ff0000) >>> 16) |||
    ((c &&& 0xf0000000) >>> 4)
  let c := c &&& 0x0fffffff
  let (_, _, k) := shifts2.foldl setKeyRound (c, d, [])
  fun i => k.getD i 0

/-! ## Blocks -/

/-- The body of the loop for `encrypt`. -/
def encryptRounds (s : Nat → DesLong) (p : DesLong × DesLong) (i : Nat) : DesLong × DesLong :=
  let (l, r) := p
  let l := dEncrypt s l r (i + 0)
  let r := dEncrypt s r l (i + 2)
  (l, r)

/-- The body of the loop for decrypting. -/
def decryptRounds (s : Nat → DesLong) (p : DesLong × DesLong) (i : Nat) : DesLong × DesLong :=
  let (l, r) := p
  let l := dEncrypt s l r (i - 0)
  let r := dEncrypt s r l (i - 2)
  (l, r)

/-- `for (i = 0; i < 32; i += 4)`. -/
def encryptSteps : List Nat := [0, 4, 8, 12, 16, 20, 24, 28]

/-- `for (i = 30; i > 0; i -= 4)`. -/
def decryptSteps : List Nat := [30, 26, 22, 18, 14, 10, 6, 2]

/-- `do_des_ecb_encrypt`: the new `data[0]` and `data[1]`. -/
def doDesEcbEncrypt (data : DesLong × DesLong) (s : Nat → DesLong) (encrypt : Bool) :
    DesLong × DesLong :=
  let (u, r) := ip data.1 data.2
  let l := (r <<< 1) ||| (r >>> 31)
  let r := (u <<< 1) ||| (u >>> 31)
  let l := l &&& 0xffffffff
  let r := r &&& 0xffffffff
  let (l, r) :=
    if encrypt then encryptSteps.foldl (encryptRounds s) (l, r)
    else decryptSteps.foldl (decryptRounds s) (l, r)
  let l := (l >>> 1) ||| (l <<< 31)
  let r := (r >>> 1) ||| (r <<< 31)
  let l := l &&& 0xffffffff
  let r := r &&& 0xffffffff
  let (r, l) := fp r l
  (l, r)

/-- `des_ecb_encrypt`. -/
def desEcbEncrypt (mem : Buf) (input output : Nat) (ks : Nat → DesLong) (encrypt : Bool) : Buf :=
  let ll := doDesEcbEncrypt (c2l mem input, c2l mem (input + 4)) ks encrypt
  l2c (l2c mem ll.1 output) ll.2 (output + 4)

/-- The loop of `des_encrypt_n` and `des_decrypt_n`. -/
def desLoop (ks : Nat → DesLong) (encrypt : Bool) : Nat → Buf → Nat → Nat → Buf
  | 0, mem, _, _ => mem
  | n + 1, mem, sText, dText =>
      desLoop ks encrypt n (desEcbEncrypt mem sText dText ks encrypt) (sText + 8) (dText + 8)

/-- `des_encrypt_n(key, s_text, d_text, n)`, with the 8 bytes of the key from `key[0]` on. -/
def desEncryptN (key mem : Buf) (sText dText n : Nat) : Buf :=
  desLoop (desSetKey key) true n mem sText dText

/-- `des_decrypt_n(key, s_text, d_text, n)`. -/
def desDecryptN (key mem : Buf) (sText dText n : Nat) : Buf :=
  desLoop (desSetKey key) false n mem sText dText

end Taomee.Crypt
