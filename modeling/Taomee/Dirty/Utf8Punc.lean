import Mathlib.Data.List.Infix
import Taomee.Lib.Bytes

/-!
# The text normaliser (tm_dirty/utf8_punc.c)

Texts are lists of bytes. Characters are normalised by lookahead on the encoded bytes, never by
decoding: full-width ASCII becomes ASCII, letters become upper case, punctuation is dropped
(`stringFilter`) or masked (`stringReplace`).
-/

namespace Taomee.Dirty

/-! ## Character classes (utf8_punc.h) -/

def isAsciiNumber (c : UInt8) : Bool := 0x31 ≤ c && c ≤ 0x39
def isAsciiUpperAlpha (c : UInt8) : Bool := 0x41 ≤ c && c ≤ 0x5A
def isAsciiLowerAlpha (c : UInt8) : Bool := 0x61 ≤ c && c ≤ 0x7A
def isAsciiAlpha (c : UInt8) : Bool := isAsciiUpperAlpha c || isAsciiLowerAlpha c
def isAsciiAlphaOrNumber (c : UInt8) : Bool := isAsciiNumber c || isAsciiAlpha c
def isAsciiPuncOrSymbol (c : UInt8) : Bool := c ≤ 0x7F && !isAsciiAlphaOrNumber c

/-- The bytes `'*'`, `'+'`, `'-'`, `'<'` and `'>'`. -/
def star : UInt8 := 0x2A
def plus : UInt8 := 0x2B
def minus : UInt8 := 0x2D
def lessThan : UInt8 := 0x3C
def greaterThan : UInt8 := 0x3E

/-- The table that `init_xlatcase` fills: `toupper` of the C locale. -/
def xlatcase (c : UInt8) : UInt8 := if isAsciiLowerAlpha c then c - 0x20 else c

/-! ## Full-width and half-width forms -/

/-- `d_s_utf8_t`: a half-width byte and the three bytes of a full-width character. -/
structure DSUtf8 where
  dbc : UInt8
  sbc0 : UInt8
  sbc1 : UInt8
  sbc2 : UInt8
  deriving DecidableEq, Repr

/-- `dbc_sbc_exchange`: flag 0 writes `sbc` from `dbc`, flag 1 writes `dbc` from `sbc`. -/
def dbcSbcExchange (p : DSUtf8) (flag : Int) : DSUtf8 × Int :=
  if flag = 0 then
    if p.dbc = 0x20 ∨ (0x21 ≤ p.dbc ∧ p.dbc ≤ 0x7E) then
      let unicode : UInt16 := if p.dbc = 0x20 then 0x3000 else p.dbc.toUInt16 + 0xFEE0
      let hp := ((unicode >>> 12) &&& 0x000F).toUInt8
      let mp := ((unicode >>> 6) &&& 0x003F).toUInt8
      let lp := (unicode &&& 0x003F).toUInt8
      ({ p with sbc0 := 0xE0 ||| hp, sbc1 := 0x80 ||| mp, sbc2 := 0x80 ||| lp }, 0)
    else (p, -1)
  else if flag = 1 then
    let unicode : UInt16 := ((p.sbc0 &&& 0x0F).toUInt16 <<< 12) |||
      ((p.sbc1 &&& 0x3F).toUInt16 <<< 6) ||| (p.sbc2 &&& 0x3F).toUInt16
    ({ p with dbc := if unicode = 0x3000 then 0x20 else (unicode - 0xFEE0).toUInt8 }, 0)
  else (p, -1)

/-! ## What starts at a byte -/

/-- The `switch (s[i])` that `string_filter` and `string_replace` share: `sbc_flag` and
`jump_bytes` for the byte `c` with the bytes `rest` behind it. -/
def switchByte (c : UInt8) (rest : List UInt8) : Bool × Nat :=
  if c = 0xC2 then
    match rest with
    | b :: _ => if 0xA0 ≤ b ∧ b ≤ 0xBF then (false, 1) else (false, 0)
    | [] => (false, 0)
  else if c = 0xC3 then
    match rest with
    | b :: _ => if b = 0x97 ∨ b = 0xB7 then (false, 1) else (false, 0)
    | [] => (false, 0)
  else if c = 0xE2 then
    match rest with
    | b :: b' :: _ =>
        if (b = 0x80 ∧ 0x80 ≤ b' ∧ b' ≤ 0xBF) ∨ (b = 0x81 ∧ 0x80 ≤ b' ∧ b' ≤ 0xAF) then (false, 2)
        else (false, 0)
    | _ => (false, 0)
  else if c = 0xE3 then
    match rest with
    | b :: b' :: _ => if b = 0x80 ∧ 0x80 ≤ b' ∧ b' ≤ 0xBF then (false, 2) else (false, 0)
    | _ => (false, 0)
  else if c = 0xEF then
    match rest with
    | b :: b' :: _ =>
        if b = 0xBC then if 0x81 ≤ b' ∧ b' ≤ 0xBF then (true, 0) else (false, 0)
        else if b = 0xBD then if 0x80 ≤ b' ∧ b' ≤ 0x9E then (true, 0) else (false, 0)
        else if b = 0xB9 then if 0x90 ≤ b' ∧ b' ≤ 0xAF then (false, 2) else (false, 0)
        else (false, 0)
    | _ => (false, 0)
  else (false, 0)

/-- `convert.dbc` after the conversion of a full-width character. -/
def convertDbc (c : UInt8) (rest : List UInt8) : UInt8 :=
  match rest with
  | b :: b' :: _ => (dbcSbcExchange { dbc := 0, sbc0 := c, sbc1 := b, sbc2 := b' } 1).1.dbc
  | _ => 0

/-- The switch followed by the conversion, which turns full-width punctuation into a jump:
`sbc_flag`, `jump_bytes` and `convert.dbc`. -/
def classify (c : UInt8) (rest : List UInt8) : Bool × Nat × UInt8 :=
  let (sbcFlag, jumpBytes) := switchByte c rest
  if sbcFlag then
    let dbc := convertDbc c rest
    if isAsciiPuncOrSymbol dbc then (true, 2, dbc) else (true, jumpBytes, dbc)
  else (false, jumpBytes, 0)

/-! ## string_filter and string_replace -/

/-- The loop of `string_filter`: the bytes it stores into `d` and what it subtracts from `*m`.
The counter is the number of bytes that `i` still has to jump over. -/
def stringFilterLoop (flag : Int) : Nat → List UInt8 → List UInt8 × Int
  | _, [] => ([], 0)
  | k + 1, _ :: rest => stringFilterLoop flag k rest
  | 0, c :: rest =>
      let (sbcFlag, jumpBytes, dbc) := classify c rest
      if jumpBytes ≥ 1 then
        let (d, sub) := stringFilterLoop flag jumpBytes rest
        (d, sub + (jumpBytes + 1))
      else if sbcFlag then
        let (d, sub) := stringFilterLoop flag 2 rest
        ((if flag = 0 then xlatcase dbc else dbc) :: d, sub + 2)
      else if isAsciiPuncOrSymbol c then
        let (d, sub) := stringFilterLoop flag 0 rest
        (d, sub + 1)
      else
        let (d, sub) := stringFilterLoop flag 0 rest
        ((if flag = 0 then xlatcase c else c) :: d, sub)

/-- `string_filter(d, s, m, flag)`: the bytes stored from `d[0]` on, and the final `*m`. -/
def stringFilter (s : List UInt8) (m : Int) (flag : Int) : List UInt8 × Int :=
  let (d, sub) := stringFilterLoop flag 0 (s.take m.toNat)
  (d, m - sub)

/-- The loop of `string_replace`: the bytes it stores into `d`. -/
def stringReplaceLoop : Nat → List UInt8 → List UInt8
  | _, [] => []
  | k + 1, _ :: rest => stringReplaceLoop k rest
  | 0, c :: rest =>
      let (sbcFlag, jumpBytes, dbc) := classify c rest
      if jumpBytes = 1 then plus :: plus :: stringReplaceLoop jumpBytes rest
      else if jumpBytes = 2 then plus :: plus :: plus :: stringReplaceLoop jumpBytes rest
      else if sbcFlag then xlatcase dbc :: minus :: minus :: stringReplaceLoop 2 rest
      else if isAsciiPuncOrSymbol c then plus :: stringReplaceLoop 0 rest
      else xlatcase c :: stringReplaceLoop 0 rest

/-- `string_replace(d, s, len)`: the bytes stored from `d[0]` on. -/
def stringReplace (s : List UInt8) (len : Int) : List UInt8 :=
  stringReplaceLoop 0 (s.take len.toNat)

/-- The text that the matcher reads of `s`. -/
def filtered (s : List UInt8) : List UInt8 := (stringFilter s s.length 0).1

/-- The image of `s`, byte for byte, in which words are starred. -/
def masked (s : List UInt8) : List UInt8 := stringReplace s s.length

/-! ## replace_char_in_angle_brackets -/

/-- The loop of `replace_char_in_angle_brackets` at index `i`, with the recorded opening brackets
(the last one first) and the destination. It leaves early when 65536 brackets are open. -/
def bracketLoop : List UInt8 → Nat → List Nat → Buf → Buf
  | [], _, _, d => d
  | c :: rest, i, locRecord, d =>
      if c = lessThan then
        if (i :: locRecord).length ≥ 65536 then d.set i c
        else bracketLoop rest (i + 1) (i :: locRecord) (d.set i c)
      else if c ≠ greaterThan then bracketLoop rest (i + 1) locRecord (d.set i c)
      else
        match locRecord with
        | [] => bracketLoop rest (i + 1) [] (d.set i c)
        | start :: locRecord =>
            bracketLoop rest (i + 1) locRecord (d.fill start (i - start + 1) plus)

/-- `replace_char_in_angle_brackets(d, s, len)`. -/
def replaceCharInAngleBrackets (d : Buf) (s : List UInt8) (len : Int) : Buf :=
  bracketLoop (s.take len.toNat) 0 [] d

end Taomee.Dirty
