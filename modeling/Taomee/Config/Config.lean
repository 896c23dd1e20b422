import Taomee.Lib.CInt
import Taomee.Lib.CString

/-!
# The configuration store and its parser (conf_parser/config.c)

Key and value pairs are kept in 256 lists, picked by a hash of the key. The parser cuts the text into
lines and fields in place, by storing NUL bytes, and hands the store pointers into the text. Lua mode
is off, and `malloc` succeeds.
-/

namespace Taomee.Config

/-! ## The store -/

/-- `CONFIG_VAL_SIZE` -/
def configValSize : Nat := 4096

/-- `struct config_pair`, without its list links. -/
structure ConfigPair where
  val : List UInt8
  key : List UInt8

/-- The globals of config.c: `has_init`, and the lists of `ini_key_head` from the first entry on. -/
structure Store where
  hasInit : Bool
  iniKeyHead : Fin 256 → List ConfigPair

/-- The lists are named by numbers. -/
instance neZero256 : NeZero 256 := ⟨by decide⟩

/-- The loop of `r5hash` (hash_algo.h); `char` is signed. -/
def r5hashLoop (h : Nat) : List UInt8 → Nat
  | [] => h
  | c :: p =>
      r5hashLoop (toU32 (h * 11 + c.toInt8.toInt * 16 + c.toInt8.toInt / 16)) p

/-- `r5hash(p)` -/
def r5hash (p : List UInt8) : Nat := r5hashLoop 0 p

/-- `hash_key(key)` -/
def hashKey (key : List UInt8) : Fin 256 := Fin.ofNat 256 (r5hash key)

/-- `config_key_hash(key)` -/
def configKeyHash (s : Store) (key : List UInt8) : List ConfigPair := s.iniKeyHead (hashKey key)

/-- The list of bucket `hash` becomes `l`. -/
def Store.setBucket (s : Store) (hash : Fin 256) (l : List ConfigPair) : Store :=
  { s with iniKeyHead := fun i => if i = hash then l else s.iniKeyHead i }

/-- The loop of `config_update_value`: the list after the update, if an entry was updated. -/
def updateLoop (key val : List UInt8) : List ConfigPair → Option (List ConfigPair)
  | [] => none
  | mc :: p =>
      if mc.key.length = key.length ∧ mc.key = key ∧
          (mc.val.length ≠ val.length ∨ mc.val ≠ val) then
        some ({ mc with val := val } :: p)
      else (updateLoop key val p).map (mc :: ·)

/-- `config_update_value(key, val)` -/
def configUpdateValue (s : Store) (key val : List UInt8) : Int × Store :=
  if val.length + 1 > configValSize then (-1, s)
  else
    match updateLoop key val (s.iniKeyHead (hashKey key)) with
    | some l => (0, s.setBucket (hashKey key) l)
    | none => (-1, s)

/-- The loop of `config_append_value`: whether the key is there. -/
def conflict (key : List UInt8) : List ConfigPair → Bool
  | [] => false
  | mc :: p => if mc.key.length = key.length ∧ mc.key = key then true else conflict key p

/-- `config_append_value(key, val)` -/
def configAppendValue (s : Store) (key val : List UInt8) : Int × Store :=
  if val.length + 1 > configValSize then (-1, s)
  else if conflict key (s.iniKeyHead (hashKey key)) then (-1, s)
  else (0, s.setBucket (hashKey key) (⟨val, key⟩ :: s.iniKeyHead (hashKey key)))

/-- `config_reset_or_add_value(k, v)` -/
def configResetOrAddValue (s : Store) (k v : List UInt8) : Int × Store :=
  let (ret, s) := configAppendValue s k v
  if ret = -1 then
    let (ret, s) := configUpdateValue s k v
    if ret = -1 then (-1, s) else (0, s)
  else (0, s)

/-- The loop of `config_get_strval`. -/
def getLoop (key : List UInt8) : List ConfigPair → Option (List UInt8)
  | [] => none
  | mc :: p => if key = mc.key then some mc.val else getLoop key p

/-- `config_get_strval(key)` -/
def configGetStrval (s : Store) (key : List UInt8) : Option (List UInt8) :=
  getLoop key (configKeyHash s key)

/-! ## The parser -/

/-- The loop of `str_split`, with `left` fields to find after the next one. It returns where the
fields start, and the buffer with the NULs stored. -/
def strSplitLoop (ifs : UInt8 → Bool) (size : Nat) : Nat → Buf → Nat → List Nat × Buf
  | left, buf, line =>
      let line := buf.scan ifs size line
      if buf line = 0 then ([], buf)
      else
        let field := line
        match left with
        | 0 =>
            -- remove tailing spaces
            let line := buf.scanBack ifs (line + buf.strlen size line - 1)
            ([field], buf.set (line + 1) 0)
        | left + 1 =>
            -- add a tailing NUL
            let line := buf.scan (fun c => c ≠ 0 && !ifs c) size line
            if buf line = 0 then ([field], buf)
            else
              let (fields, buf) := strSplitLoop ifs size left (buf.set line 0) (line + 1)
              (field :: fields, buf)

/-- `str_split(ifs, line, field, n)` in a buffer of `size` bytes. -/
def strSplit (ifs : UInt8 → Bool) (size : Nat) (buf : Buf) (line n : Nat) : List Nat × Buf :=
  strSplitLoop ifs size (n - 1) buf line

/-- The separators: space, tab, CR, LF and `=`. -/
def myifs (c : UInt8) : Bool := c = 0x20 || c = 0x09 || c = 0x0D || c = 0x0A || c = 0x3D

/-- One turn of the loop of `parse_config` on the line at `start`, cut off at its end: the buffer and
the pair that the line assigns. -/
def parseLine (size : Nat) (buf : Buf) (start : Nat) : Buf × Option (List UInt8 × List UInt8) :=
  if buf start ≠ 0x23 then
    match strSplit myifs size buf start 2 with
    | ([key, val], buf) => (buf, some (buf.cstr size key, buf.cstr size val))
    | (_, buf) => (buf, none)
  else (buf, none)

/-- The loop of `parse_config`, for at most `fuel` lines. -/
def parseLoop (size len : Nat) : Nat → Buf → Nat → Store → Int × Store
  | 0, _, _, s => (0, s)
  | fuel + 1, buf, start, s =>
      if len > start then
        let stop := buf.strchr size start 0x0A
        let buf := match stop with
          | some stop => buf.set stop 0
          | none => buf
        let (buf, pair) := parseLine size buf start
        let (ret, s) := match pair with
          | some (k, v) => configResetOrAddValue s k v
          | none => (0, s)
        if ret = -1 then (-1, s)
        else
          match stop with
          | some stop => parseLoop size len fuel buf (stop + 1) s
          | none => (0, s)
      else (0, s)

/-- `parse_config(buffer)` for a buffer of `size` bytes. -/
def parseConfig (size : Nat) (buf : Buf) (s : Store) : Int × Store :=
  parseLoop size (buf.strlen size 0) size buf 0 s

/-- `mmap_config_file`: the text in a buffer one byte longer. `none` stands for a file that cannot
be opened or mapped. -/
def mmapConfigFile : Option (List UInt8) → Option (Nat × Buf)
  | some text => some (text.length + 1, fun i => text[i]?.getD 0)
  | none => none

/-- `config_init(file_name)` -/
def configInit (s : Store) (file : Option (List UInt8)) : Int × Store :=
  let s := if s.hasInit then s else { hasInit := true, iniKeyHead := fun _ => [] }
  match mmapConfigFile file with
  | some (size, buf) => parseConfig size buf s
  | none => (-1, s)

/-- `config_update(file_name)` -/
def configUpdate (s : Store) (file : Option (List UInt8)) : Int × Store := configInit s file

/-! ## Runs -/

/-- Calls that change the store. -/
inductive ConfigOp where
  | init (file : Option (List UInt8))
  | update (file : Option (List UInt8))
  | appendValue (key val : List UInt8)
  | updateValue (key val : List UInt8)

/-- What a call returns and the store it leaves. -/
def ConfigOp.run (s : Store) : ConfigOp → Int × Store
  | .init file => configInit s file
  | .update file => configUpdate s file
  | .appendValue key val => configAppendValue s key val
  | .updateValue key val => configUpdateValue s key val

/-- Stores that a program can have. Before the first `config_init` the list heads are null, so the
other calls come after it. -/
inductive Reachable : Store → Prop
  | init (heads : Fin 256 → List ConfigPair) (file : Option (List UInt8)) :
      Reachable (configInit ⟨false, heads⟩ file).2
  | next {s : Store} (op : ConfigOp) : Reachable s → Reachable (op.run s).2

end Taomee.Config
