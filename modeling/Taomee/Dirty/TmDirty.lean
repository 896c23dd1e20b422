import Taomee.Dirty.Replace
import Taomee.Lib.CInt
import Taomee.Lib.CString

/-!
# Two dictionaries (tm_dirty/tm_dirty.c)

The owner keeps two handles and loads a dictionary into the one that is not in use. Another process
that attaches to their memory copies the two headers and shares the tables.
-/

namespace Taomee.Dirty

/-! ## Handles -/

/-- `tm_dirty_handle`, by index. -/
abbrev Handles := Int → AcsmStruct

/-- `tm_dirty_handle[i] = acsm`. -/
def Handles.put (hs : Handles) (i : Int) (acsm : AcsmStruct) : Handles :=
  fun k => if k = i then acsm else hs k

/-- `tm_dirty_handle[0]->flag = tm_dirty_handle[1]->flag = flag`. -/
def Handles.setFlags (hs : Handles) (flag : Int) : Handles :=
  (hs.put 0 { hs 0 with flag := flag }).put 1 { hs 1 with flag := flag }

/-- The handle that queries use. -/
def Handles.active (hs : Handles) : AcsmStruct := hs (hs 0).flag

/-- `flag ^ 1`. -/
def flip (flag : Int) : Int := if flag % 2 = 0 then flag + 1 else flag - 1

/-- The two handles of `tm_dirty_daemon` before the first load. -/
def newHandles : Handles := fun _ => acsmNew

/-! ## tm_dirty_load_new -/

def newline : UInt8 := 0x0A
def hash : UInt8 := 0x23
def space : UInt8 := 0x20
def tab : UInt8 := 0x09

def isBlank (c : UInt8) : Bool := c = space || c = tab

/-- What the loop of `tm_dirty_load_new` does next: it stops, goes on at another place of the file, or
has read a line and goes on behind it. -/
inductive FileStep
  | stop
  | skip (rest : List UInt8)
  | line (dirtyWord rest : List UInt8)

/-- One turn of the loop, on what is left of the file. The character that is read is a signed `char`,
so that byte 255 looks like the end of the file. Going back one byte from the end of the file leads to
its last byte. -/
def fileStep : List UInt8 → FileStep
  | [] => .stop
  | c :: rest =>
      if c = 0xFF then .stop
      else if c = hash then .skip ((rest.dropWhile fun c => c ≠ newline).drop 1)
      else if isBlank c then
        match rest.dropWhile isBlank with
        | [] => .skip [(c :: rest).getLast (List.cons_ne_nil c rest)]
        | c' :: rest' => .skip (c' :: rest')
      else if c = newline then .skip rest
      else
        let text := (c :: rest).takeWhile fun c => c ≠ newline
        let behind := (c :: rest).dropWhile fun c => c ≠ newline
        .line (text ++ behind.take 1) (behind.drop 1)

/-- `dirty_len`: up to a tab, or all but the last byte; `getline` has put a NUL behind the line, and
there may be one in it. -/
def dirtyLen (dirtyWord : List UInt8) : Int :=
  let s := dirtyWord.takeWhile fun c => c ≠ 0
  if tab ∈ s then toI32 (s.takeWhile fun c => c ≠ tab).length else toI32 ((s.length : Int) - 1)

/-- The loop of `tm_dirty_load_new`. -/
def loadLines : Nat → List UInt8 → AcsmStruct → Option AcsmStruct
  | 0, _, _ => none
  | fuel + 1, file, acsm =>
      match fileStep file with
      | .stop => some acsm
      | .skip rest => loadLines fuel rest acsm
      | .line dirtyWord rest =>
          if dirtyLen dirtyWord = 0 then loadLines fuel rest acsm
          else
            let (acsm, ret) := acsmAddPattern acsm dirtyWord (dirtyLen dirtyWord)
            if ret = -1 then some acsm else loadLines fuel rest acsm

/-- `tm_dirty_load_new` on a file with this content, or on one that cannot be opened: the handles left
behind and the return value; `none` when the fuel is used up. -/
def tmDirtyLoadNew (fuel : Nat) (hs : Handles) (file : Option (List UInt8)) : Option (Handles × Int) :=
  let updateFlag := flip (hs 0).flag
  let acsm := { hs updateFlag with acsmMaxStates := 0, acsmNumStates := 0, totalPattern := 0 }
  match file with
  | none => some (hs.put updateFlag acsm, -1)
  | some content =>
      match loadLines fuel content acsm with
      | none => none
      | some acsm =>
          match acsmCompile fuel acsm with
          | none => none
          | some (acsm, ret) =>
              if ret = -1 then some (hs.put updateFlag acsm, -1)
              else some ((hs.put updateFlag acsm).setFlags updateFlag, 0)

/-! ## Attaching -/

/-- The fields of `ACSM_STRUCT` apart from the two tables. -/
structure AcsmHeader where
  acsmMaxStates : Int
  acsmNumStates : Int
  totalPattern : Int
  flag : Int

def AcsmStruct.header (acsm : AcsmStruct) : AcsmHeader where
  acsmMaxStates := acsm.acsmMaxStates
  acsmNumStates := acsm.acsmNumStates
  totalPattern := acsm.totalPattern
  flag := acsm.flag

/-- `tm_dirty_handle_info`: the copies of an attached process, by index. -/
abbrev Attached := Int → AcsmHeader

/-- `attach_to_dirty_shm` on the handles `shm`. -/
def attachToDirtyShm (shm : Handles) : Attached := fun i => (shm i).header

/-- `common_routine` in an attached process: its copies, and `*flag`. -/
def commonRoutine (shm : Handles) (info : Attached) : Attached × Int :=
  let info : Attached :=
    if (info 0).flag ≠ (shm 0).flag then fun i => if i = 0 then (shm 0).header else info i else info
  (info, (info 0).flag)

/-- `tm_dirty_word_count` in an attached process. -/
def tmDirtyWordCount (shm : Handles) (info : Attached) : Attached × Int :=
  let (info, flag) := commonRoutine shm info
  (info, (info flag).totalPattern)

/-- The patterns of a table, as `%s` prints them. -/
def listPatterns (total : Int) (acsmPatterns : Int → AcsmPattern) : List (List UInt8) :=
  (List.range total.toNat).map fun i => (acsmPatterns i).patrn.cstr 256 0

/-- `tm_dirty_list_word` in an attached process: what it lists. The tables are those of `shm`. -/
def tmDirtyListWord (shm : Handles) (info : Attached) : Attached × List (List UInt8) :=
  let (info, flag) := commonRoutine shm info
  (info, listPatterns (info flag).totalPattern (shm flag).acsmPatterns)

end Taomee.Dirty
