import Taomee.Dirty.Utf8Punc

/-!
# The matcher (tm_dirty/acsm.c)

The pattern list and the state table of one handle, building them, and the queries on them. The
C `int`s are integers, and the tables are functions of an `int` index. `malloc` is assumed to
succeed. Loops that the code does not bound take fuel and return `none` without it.
-/

namespace Taomee.Dirty

def maxStrBuffer : Int := 1000000
def acsmFailState : Int := -1
def maxKeywordLen : Int := 256
def maxPatterns : Int := 81920
def maxState : Int := 512 * 1024

/-! ## Data -/

/-- `ACSM_PATTERN`: the normalised word and its length. -/
structure AcsmPattern where
  patrn : Buf
  n : Int

/-- `ACSM_STATETABLE`: one state. -/
structure AcsmStateTable where
  nextState : UInt8 → Int
  failState : Int
  longestPatternIndex : Int

/-- `ACSM_STRUCT`: one handle with the two arrays it points to. -/
structure AcsmStruct where
  acsmMaxStates : Int
  acsmNumStates : Int
  totalPattern : Int
  flag : Int
  acsmPatterns : Int → AcsmPattern
  acsmStateTable : Int → AcsmStateTable

/-- The bytes of a pattern that the automaton sees. -/
def AcsmPattern.word (p : AcsmPattern) : List UInt8 := p.patrn.toList p.n.toNat

/-- `acsmNew`: a handle in zero-filled memory. -/
def acsmNew : AcsmStruct :=
  { acsmMaxStates := 0, acsmNumStates := 0, totalPattern := 0, flag := 0
    acsmPatterns := fun _ => { patrn := fun _ => 0, n := 0 }
    acsmStateTable := fun _ => { nextState := fun _ => 0, failState := 0, longestPatternIndex := 0 } }

namespace AcsmStruct

def setPattern (acsm : AcsmStruct) (i : Int) (p : AcsmPattern) : AcsmStruct :=
  { acsm with acsmPatterns := fun k => if k = i then p else acsm.acsmPatterns k }

def setState (acsm : AcsmStruct) (s : Int) (e : AcsmStateTable) : AcsmStruct :=
  { acsm with acsmStateTable := fun k => if k = s then e else acsm.acsmStateTable k }

def setNext (acsm : AcsmStruct) (s : Int) (i : UInt8) (v : Int) : AcsmStruct :=
  acsm.setState s { acsm.acsmStateTable s with
    nextState := fun j => if j = i then v else (acsm.acsmStateTable s).nextState j }

def setFail (acsm : AcsmStruct) (s v : Int) : AcsmStruct :=
  acsm.setState s { acsm.acsmStateTable s with failState := v }

def setLongest (acsm : AcsmStruct) (s v : Int) : AcsmStruct :=
  acsm.setState s { acsm.acsmStateTable s with longestPatternIndex := v }

end AcsmStruct

/-! ## Adding patterns -/

/-- The 32-bit integer `n` with byte `k` (little endian) overwritten by zero. -/
def clearIntByte (n : Int) (k : Nat) : Int :=
  let u : Nat := (n % 2 ^ 32).toNat
  let v : Nat := u - u / 256 ^ k % 256 * 256 ^ k
  if v < 2 ^ 31 then v else v - 2 ^ 32

/-- `memset(plist->patrn + off, 0, 1)` with `plist = &acsmPatterns[i]`. An `ACSM_PATTERN` takes
260 bytes, the 256 of `patrn` and the 4 of `n`, so a negative `off` lands in an earlier element. -/
def memsetPatrn (acsm : AcsmStruct) (i off : Int) : AcsmStruct :=
  let a := i * 260 + off
  let p := acsm.acsmPatterns (a / 260)
  let r := (a % 260).toNat
  if r < 256 then acsm.setPattern (a / 260) { p with patrn := p.patrn.set r 0 }
  else acsm.setPattern (a / 260) { p with n := clearIntByte p.n (r - 256) }

/-- `acsmAddPattern(p, pat, n)`. -/
def acsmAddPattern (p : AcsmStruct) (pat : List UInt8) (n : Int) : AcsmStruct × Int :=
  if p.totalPattern ≥ maxPatterns then (p, -1)
  else
    let i := p.totalPattern
    let p := { p with totalPattern := i + 1 }
    let newN := if n > maxKeywordLen - 1 then maxKeywordLen - 1 else n
    let (d, newN) := stringFilter pat newN 0
    let p := p.setPattern i { p.acsmPatterns i with patrn := (p.acsmPatterns i).patrn.store d }
    if newN = 0 then ({ p with totalPattern := p.totalPattern - 1 }, 0)
    else
      let p := memsetPatrn p i newN
      (p.setPattern i { p.acsmPatterns i with n := newN }, 0)

/-! ## Building the trie -/

/-- `AddMatchListEntry`. -/
def addMatchListEntry (acsm : AcsmStruct) (state patternIndex : Int) : AcsmStruct :=
  let curIndex := (acsm.acsmStateTable state).longestPatternIndex
  if curIndex < 0 ∨ (acsm.acsmPatterns curIndex).n < (acsm.acsmPatterns patternIndex).n then
    acsm.setLongest state patternIndex
  else acsm

/-- The first loop of `AddPatternStates`: follow existing states; the state reached and the bytes
still to add. -/
def matchExisting (acsm : AcsmStruct) : Int → List UInt8 → Int × List UInt8
  | state, [] => (state, [])
  | state, c :: pattern =>
      let next := (acsm.acsmStateTable state).nextState c
      if next = acsmFailState then (state, c :: pattern) else matchExisting acsm next pattern

/-- The second loop of `AddPatternStates`: one new state for each byte; no state when the table
runs out. -/
def addNewStates : AcsmStruct → Int → List UInt8 → AcsmStruct × Option Int
  | acsm, state, [] => (acsm, some state)
  | acsm, state, c :: pattern =>
      let acsm := { acsm with acsmNumStates := acsm.acsmNumStates + 1 }
      if acsm.acsmNumStates ≥ acsm.acsmMaxStates then (acsm, none)
      else addNewStates (acsm.setNext state c acsm.acsmNumStates) acsm.acsmNumStates pattern

/-- `AddPatternStates`. -/
def addPatternStates (acsm : AcsmStruct) (patternIndex : Int) : AcsmStruct × Int :=
  let (state, pattern) := matchExisting acsm 0 (acsm.acsmPatterns patternIndex).word
  match addNewStates acsm state pattern with
  | (acsm, none) => (acsm, -1)
  | (acsm, some state) => (addMatchListEntry acsm state patternIndex, 0)

/-! ## Build_DFA -/

/-- The byte values in the order of `for (i = 0; i < ALPHABET_SIZE; i++)`. -/
def alphabet : List UInt8 := (List.range 256).map UInt8.ofNat

/-- The body of the first loop of `Build_DFA`, on the table and the queue. -/
def queueRootChild (st : AcsmStruct × List Int) (i : UInt8) : AcsmStruct × List Int :=
  let s := (st.1.acsmStateTable 0).nextState i
  if s ≠ acsmFailState ∧ s ≠ 0 then (st.1.setFail s 0, st.2 ++ [s]) else st

/-- `while ((next = NextState[fs][i]) == ACSM_FAIL_STATE) fs = FailState[fs]`: the final `next`. -/
def failLoop (acsm : AcsmStruct) (i : UInt8) : Nat → Int → Option Int
  | 0, _ => none
  | fuel + 1, fs =>
      let next := (acsm.acsmStateTable fs).nextState i
      if next = acsmFailState then failLoop acsm i fuel (acsm.acsmStateTable fs).failState
      else some next

/-- The body of the loop over `i` for the dequeued state `r`. -/
def visitChild (fuel : Nat) (r : Int) (st : AcsmStruct × List Int) (i : UInt8) :
    Option (AcsmStruct × List Int) :=
  let acsm := st.1
  let s := (acsm.acsmStateTable r).nextState i
  if s ≠ acsmFailState then
    match failLoop acsm i fuel (acsm.acsmStateTable r).failState with
    | none => none
    | some next =>
        let acsm := acsm.setFail s next
        let longest := (acsm.acsmStateTable next).longestPatternIndex
        some (if longest ≠ -1 then addMatchListEntry acsm s longest else acsm, st.2 ++ [s])
  else
    let fs := (acsm.acsmStateTable r).failState
    some (acsm.setNext r i ((acsm.acsmStateTable fs).nextState i), st.2)

/-- `while (queue_count(queue) > 0)`, with fuel for each dequeued state. -/
def bfsLoop : Nat → AcsmStruct → List Int → Option AcsmStruct
  | _, acsm, [] => some acsm
  | 0, _, _ :: _ => none
  | fuel + 1, acsm, r :: queue =>
      match alphabet.foldlM (visitChild (fuel + 1) r) (acsm, queue) with
      | none => none
      | some (acsm, queue) => bfsLoop fuel acsm queue

/-- `Build_DFA`. -/
def buildDfa (fuel : Nat) (acsm : AcsmStruct) : Option AcsmStruct :=
  let (acsm, queue) := alphabet.foldl queueRootChild (acsm, [])
  bfsLoop fuel acsm queue

/-! ## acsmCompile -/

/-- The sum of the stored lengths of patterns `i, i + 1, ..`, `k` of them. -/
def sumLengths (acsm : AcsmStruct) : Nat → Int → Int
  | 0, _ => 0
  | k + 1, i => (acsm.acsmPatterns i).n + sumLengths acsm k (i + 1)

/-- All states below `acsmMaxStates` lose their transitions and their pattern; the failure states
keep what an earlier compile left. -/
def initStates (acsm : AcsmStruct) : AcsmStruct :=
  { acsm with acsmStateTable := fun k =>
      if 0 ≤ k ∧ k < acsm.acsmMaxStates then
        { acsm.acsmStateTable k with
          nextState := fun _ => acsmFailState, longestPatternIndex := -1 }
      else acsm.acsmStateTable k }

/-- `AddPatternStates` for patterns `i, i + 1, ..`, `k` of them, until one fails. -/
def addAllPatterns : Nat → AcsmStruct → Int → AcsmStruct × Int
  | 0, acsm, _ => (acsm, 0)
  | k + 1, acsm, i =>
      match addPatternStates acsm i with
      | (acsm, ret) => if ret = -1 then (acsm, -1) else addAllPatterns k acsm (i + 1)

/-- The missing transitions of state 0 lead back to state 0. -/
def closeRoot (acsm : AcsmStruct) : AcsmStruct :=
  acsm.setState 0 { acsm.acsmStateTable 0 with
    nextState := fun i =>
      if (acsm.acsmStateTable 0).nextState i = acsmFailState then 0
      else (acsm.acsmStateTable 0).nextState i }

/-- The rest of `acsmCompile`, on initialised rows. -/
def compileStates (fuel : Nat) (acsm : AcsmStruct) : Option (AcsmStruct × Int) :=
  match addAllPatterns acsm.totalPattern.toNat acsm 0 with
  | (acsm, ret) =>
      if ret = -1 then some (acsm, -1)
      else
        match buildDfa fuel (closeRoot acsm) with
        | none => none
        | some acsm => some (acsm, 0)

/-- `acsmCompile`: the handle left behind and the return value; `none` when the fuel is used up. -/
def acsmCompile (fuel : Nat) (acsm : AcsmStruct) : Option (AcsmStruct × Int) :=
  let acsm := { acsm with acsmMaxStates := 1 + sumLengths acsm acsm.totalPattern.toNat 0 }
  if acsm.acsmMaxStates > maxState then some (acsm, -1)
  else compileStates fuel (initStates { acsm with acsmNumStates := 0 })

/-! ## acsmSearch -/

/-- One round of `acsmSearch` over the bytes that `keep` selects: whether a pattern was found. -/
def searchRound (acsm : AcsmStruct) (keep : UInt8 → Bool) : Int → List UInt8 → Bool
  | _, [] => false
  | state, c :: rest =>
      if keep c then
        let state := (acsm.acsmStateTable state).nextState c
        if (acsm.acsmStateTable state).longestPatternIndex ≠ -1 then true
        else searchRound acsm keep state rest
      else searchRound acsm keep state rest

/-- What the queries normalise: the text itself, or its image with the tags masked when `jump_tag`
is set. `tc1` is what the automatic array `Tc_1` holds before it is written. -/
def maskTags (tc1 : Buf) (tx : List UInt8) (n jumpTag : Int) : List UInt8 :=
  if jumpTag ≠ 0 then (replaceCharInAngleBrackets tc1 tx n).toList n.toNat else tx

/-- `acsmSearch(acsm, Tx, n, jump_tag)`. -/
def acsmSearch (acsm : AcsmStruct) (tc1 : Buf) (tx : List UInt8) (n jumpTag : Int) : Int :=
  if n > maxStrBuffer then -1
  else
    let (tc, newN) := stringFilter (maskTags tc1 tx n jumpTag) n 0
    let t := tc.take newN.toNat
    if searchRound acsm (fun _ => true) 0 t then 3
    else if searchRound acsm isAsciiAlpha 0 t then 1
    else if searchRound acsm (fun c => !isAsciiAlpha c) 0 t then 2
    else 0

end Taomee.Dirty
