import Taomee.Lib.CString

/-!
# Bytes and hexadecimal text (dataformatter/bin_str.h)

The functions index their buffers, `char` has a sign, and a byte is what is left of an `int` of which
only the low eight bits are stored.
-/

namespace Taomee.Dataformatter

/-- `toupper` of the C locale. -/
def toupper (c : UInt8) : UInt8 := if 0x61 ≤ c ∧ c ≤ 0x7A then c - 0x20 else c

/-- `(c >= 'A' ? (c - 'A') + 10 : (c - '0'))`, for a `char`. -/
def digitValue (c : UInt8) : Int := if c.toInt8.toInt ≥ 0x41 then c.toInt8.toInt - 0x41 + 10 else c.toInt8.toInt - 0x30

/-- `char2hex(first, second)` -/
def char2hex (first second : UInt8) : UInt8 :=
  UInt8.ofInt (digitValue (toupper first) * 16) + UInt8.ofInt (digitValue (toupper second))

/-- `hex_map`, "0123456789ABCDEF". -/
def hexMap : List UInt8 :=
  [0x30, 0x31, 0x32, 0x33, 0x34, 0x35, 0x36, 0x37, 0x38, 0x39, 0x41, 0x42, 0x43, 0x44, 0x45, 0x46]

/-- `hex_map[k]` -/
def hexDigit (k : UInt8) : UInt8 := hexMap.getD k.toNat 0

/-- `hex2char(hex, &dest[off])` -/
def hex2char (hex : UInt8) (dest : Buf) (off : Nat) : Buf :=
  (dest.set off (hexDigit (hex / 16))).set (off + 1) (hexDigit (hex % 16))

/-- The loop of `hex2str`, from `srchex[i]` on. -/
def hex2strLoop : List UInt8 → Nat → Buf → Buf
  | [], _, dest => dest
  | hex :: srchex, i, dest => hex2strLoop srchex (i + 1) (hex2char hex dest (i * 2))

/-- `hex2str(srchex, srclen, dest)` -/
def hex2str (srchex : List UInt8) (dest : Buf) : Buf :=
  (hex2strLoop srchex 0 dest).set (srchex.length * 2) 0

/-- `strcpy(&dest[off], sep)` -/
def strcpy (dest : Buf) (off : Nat) (sep : List UInt8) : Buf := dest.write off (sep ++ [0])

/-- The loop of `hex2str_s`, from `srchex[i]` on. -/
def hex2strSLoop (srclen : Nat) (sep : List UInt8) : List UInt8 → Nat → Buf → Buf
  | [], _, dest => dest
  | hex :: srchex, i, dest =>
      let incr := sep.length + 2
      let dest := hex2char hex dest (i * incr)
      if i ≠ srclen - 1 then hex2strSLoop srclen sep srchex (i + 1) (strcpy dest (i * incr + 2) sep)
      else hex2strSLoop srclen sep srchex (i + 1) dest

/-- `hex2str_s(srchex, srclen, dest, sep)` -/
def hex2strS (srchex : List UInt8) (dest : Buf) (sep : List UInt8) : Buf :=
  (hex2strSLoop srchex.length sep srchex 0 dest).set (srchex.length * (sep.length + 2)) 0

/-- The loop of `str2hex`, for at most `fuel` steps. -/
def str2hexLoop (src : Buf) (srclen : Nat) : Nat → Nat → Buf → Option Buf
  | 0, _, _ => none
  | fuel + 1, i, dest =>
      if i = srclen then some dest
      else str2hexLoop src srclen fuel (i + 2) (dest.set (i / 2) (char2hex (src i) (src (i + 1))))

/-- `str2hex(src, srclen, dest)`, which does not end when `srclen` is odd. -/
def str2hex (src : Buf) (srclen : Nat) (dest : Buf) : Option Buf := str2hexLoop src srclen (srclen + 1) 0 dest

/-! ## Two digits for a byte -/

/-- The two digits of a byte. -/
def twoDigits (hex : UInt8) : List UInt8 := [hexDigit (hex / 16), hexDigit (hex % 16)]

@[simp] theorem twoDigits_length (hex : UInt8) : (twoDigits hex).length = 2 := rfl

theorem hex2char_eq (hex : UInt8) (dest : Buf) (off : Nat) :
    hex2char hex dest off = dest.write off (twoDigits hex) := by
  unfold hex2char twoDigits
  rw [Buf.set_eq_write, Buf.set_eq_write]
  exact Buf.write_append dest off [_] [_]

/-- The digits of all bytes. -/
def digits (srchex : List UInt8) : List UInt8 := srchex.flatMap twoDigits

theorem digits_length (srchex : List UInt8) : (digits srchex).length = srchex.length * 2 := by
  unfold digits
  rw [List.length_flatMap]
  induction srchex with
  | nil => rfl
  | cons hex srchex ih =>
      rw [List.map_cons, List.sum_cons, ih, List.length_cons, twoDigits_length]
      omega

theorem hex2strLoop_eq (done srchex : List UInt8) (dest : Buf) :
    hex2strLoop srchex done.length (dest.write 0 (digits done)) = dest.write 0 (digits (done ++ srchex)) := by
  induction srchex generalizing done with
  | nil => rw [List.append_nil, hex2strLoop]
  | cons hex srchex ih =>
      have happend : digits (done ++ [hex]) = digits done ++ twoDigits hex := by
        unfold digits
        rw [List.flatMap_append, List.flatMap_singleton]
      have hwrite := Buf.write_append dest 0 (digits done) (twoDigits hex)
      rw [Nat.zero_add, digits_length] at hwrite
      have hlen : done.length + 1 = (done ++ [hex]).length := by simp
      rw [hex2strLoop, hex2char_eq, hwrite, ← happend, hlen, ih, List.append_assoc]
      rfl

theorem hex2str_eq (srchex : List UInt8) (dest : Buf) :
    hex2str srchex dest = dest.write 0 (digits srchex ++ [0]) := by
  have hloop := hex2strLoop_eq [] srchex dest
  have hnil : dest.write 0 (digits []) = dest := Buf.write_nil dest 0
  rw [hnil, List.length_nil, List.nil_append] at hloop
  unfold hex2str
  rw [Buf.set_eq_write, ← digits_length, hloop]
  have happend := Buf.write_append dest 0 (digits srchex) [0]
  rwa [Nat.zero_add] at happend

end Taomee.Dataformatter
