import Taomee.Dirty.Acsm

/-!
# acsm_pattern_replace (tm_dirty/acsm.c)

Three rounds read three copies of the masked text. At every match a walk goes back from the match
and writes stars, until it has counted as many bytes as the pattern has. A walk that would read
below its copy has no result.
-/

namespace Taomee.Dirty

/-! ## The walks back -/

/-- `for (j = 0; j < pattern_length; ) { .. tmp--; }` with `left` bytes still to count and `tmp` at
the last of the `pos` first bytes: a byte counts when `count` holds, and is starred when `write`
holds. -/
def walk (count : UInt8 → Bool) (write : Buf → Nat → Bool) : Nat → Nat → Buf → Option Buf
  | 0, left, buf => if left = 0 then some buf else none
  | tmp + 1, left, buf =>
      if left = 0 then some buf
      else
        walk count write tmp (if count (buf tmp) then left - 1 else left)
          (if write buf tmp then buf.set tmp star else buf)

/-- The walk of the first round. -/
def countsFull (c : UInt8) : Bool := c ≠ minus || c = star
def starsFull (_ : Buf) (_ : Nat) : Bool := true

/-- The walk of the second round, which looks behind at the fillers of a full-width letter. -/
def countsAlpha (c : UInt8) : Bool := isAsciiAlpha c || c = star
def starsAlpha (tc : Buf) (tmp : Nat) : Bool :=
  isAsciiAlpha (tc tmp) ||
    (tc tmp = minus &&
      ((1 ≤ tmp && isAsciiAlpha (tc (tmp - 1))) || (2 ≤ tmp && isAsciiAlpha (tc (tmp - 2)))))

/-- The walk of the third round. -/
def countsOther (c : UInt8) : Bool :=
  (!isAsciiAlphaOrNumber c && c ≠ plus && c ≠ minus) || c = star
def starsOther (tc : Buf) (tmp : Nat) : Bool := countsOther (tc tmp)

/-! ## The rounds -/

/-- `T` after the fillers that follow it are jumped over. -/
def skipFillers (tc : Buf) (n t : Nat) : Nat :=
  if t + 1 < n ∧ tc (t + 1) = minus then
    if t + 2 < n ∧ tc (t + 2) = minus then t + 2 else t + 1
  else t

/-- What the three rounds differ in: the bytes they read, whether they jump over the fillers behind a
match, and their walk. -/
structure Round where
  keep : UInt8 → Bool
  skip : Bool
  count : UInt8 → Bool
  write : Buf → Nat → Bool

/-- Full match. -/
def roundFull : Round := ⟨fun _ => true, true, countsFull, starsFull⟩

/-- Just A-Z a-z. -/
def roundAlpha : Round := ⟨isAsciiAlpha, true, countsAlpha, starsAlpha⟩

/-- Exclude A-Z a-z 0-9. -/
def roundOther : Round :=
  ⟨fun c => !(isAsciiAlphaOrNumber c || c = plus || c = minus), false, countsOther, starsOther⟩

/-- The loop of a round at index `t`, for at most `fuel` turns: the copy with its stars, and `flag`. -/
def replaceLoop (acsm : AcsmStruct) (r : Round) (n : Nat) :
    Nat → Buf → Int → Nat → Int → Option (Buf × Int)
  | 0, tc, _, _, flag => some (tc, flag)
  | fuel + 1, tc, state, t, flag =>
      if t < n then
        if r.keep (tc t) then
          let state := (acsm.acsmStateTable state).nextState (tc t)
          let index := (acsm.acsmStateTable state).longestPatternIndex
          if index ≠ -1 then
            let patternLength := (acsm.acsmPatterns index).n
            let t := if r.skip then skipFillers tc n t else t
            match walk r.count r.write (t + 1) patternLength.toNat tc with
            | none => none
            | some tc => replaceLoop acsm r n fuel tc state (t + 1) 1
          else replaceLoop acsm r n fuel tc state (t + 1) flag
        else replaceLoop acsm r n fuel tc state (t + 1) flag
      else some (tc, flag)

/-- A whole round over the `n` bytes of its copy. -/
def replaceRound (acsm : AcsmStruct) (r : Round) (n : Nat) (tc : Buf) (flag : Int) :
    Option (Buf × Int) :=
  replaceLoop acsm r n n tc 0 0 flag

/-- The last loop: a byte starred in some copy is starred in the text. -/
def mergeStars (tx : List UInt8) (n : Nat) (tc0 tc1 tc2 : Buf) : List UInt8 :=
  tx.mapIdx fun i c =>
    if i < n ∧ (tc0 i = star ∨ tc1 i = star ∨ tc2 i = star) then star else c

/-- `acsm_pattern_replace(acsm, Tx, n, jump_tag)`: the text it leaves and the return value. `tc` is
what the automatic arrays `Tc` hold before they are written, `tc1` what `Tc_1` holds. There is no
result when a walk would leave its copy. -/
def acsmPatternReplace (acsm : AcsmStruct) (tc tc1 : Buf) (tx : List UInt8) (n jumpTag : Int) :
    Option (List UInt8 × Int) :=
  if n > maxStrBuffer then some (tx, -1)
  else
    let tc := tc.store (stringReplace (maskTags tc1 tx n jumpTag) n)
    match replaceRound acsm roundFull n.toNat tc 0 with
    | none => none
    | some (tc0, flag) =>
        match replaceRound acsm roundAlpha n.toNat tc flag with
        | none => none
        | some (tc1, flag) =>
            match replaceRound acsm roundOther n.toNat tc flag with
            | none => none
            | some (tc2, flag) => some (mergeStars tx n.toNat tc0 tc1 tc2, flag)

end Taomee.Dirty
