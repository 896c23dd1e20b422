import Taomee.Lib.Bytes
import Taomee.Lib.CInt

/-!
# A configuration in a mapping (tm_shm/tm_shm.c)

The mapping is twice as large as the configuration. The first half is in use; a refresh fills the
second half and copies what differs. Offsets count from the start of the mapping. The sizes are of
type `size_t`, the size compared so far is an `int`.
-/

namespace Taomee.Shm

/-- The sizes of a `cfg_info_t`, and its callback: what it makes of the mapping and its return value. -/
structure CfgInfo where
  memSize : Nat
  metaSize : Nat
  callBack : Option (Buf → Buf × Int)

/-- A range of bytes that was read or written. -/
structure Access where
  off : Nat
  len : Nat
  deriving DecidableEq

/-- The mapping, and what was accessed in it. -/
structure Mapping where
  bytes : Buf
  accesses : List Access

/-- `if (memcmp(p_use, p_update, n) != 0) memcpy(p_use, p_update, n)`: all of both ranges is read. -/
def Mapping.refresh (m : Mapping) (pUse pUpdate n : Nat) : Mapping where
  bytes :=
    if m.bytes.slice pUse n ≠ m.bytes.slice pUpdate n then m.bytes.write pUse (m.bytes.slice pUpdate n) else m.bytes
  accesses := ⟨pUse, n⟩ :: ⟨pUpdate, n⟩ :: m.accesses

/-- The loop of `update_cfg_on_mmap`: the mapping, `p_use` and `p_update` behind it. -/
def refreshLoop (c : CfgInfo) : Nat → Mapping → Nat → Nat → Int → Option (Mapping × Nat × Nat)
  | 0, _, _, _, _ => none
  | fuel + 1, m, pUse, pUpdate, cmpSize =>
      if toU64 cmpSize < c.memSize - c.metaSize then
        refreshLoop c fuel (m.refresh pUse pUpdate c.metaSize) (pUse + c.metaSize) (pUpdate + c.metaSize)
          (toI32 (cmpSize + c.metaSize))
      else some (m, pUse, pUpdate)

/-- `update_cfg_on_mmap` on a mapping with these bytes: the mapping and the return value; `none` when the
fuel is used up. -/
def updateCfgOnMmap (fuel : Nat) (c : CfgInfo) (bytes : Buf) : Option (Mapping × Int) :=
  if c.metaSize > c.memSize ∨ c.memSize % c.metaSize ≠ 0 then some ({ bytes := bytes, accesses := [] }, -1)
  else
    match c.callBack with
    | none => some ({ bytes := bytes, accesses := [] }, -1)
    | some callBack =>
        let (bytes, ret) := callBack bytes
        if ret = -1 then some ({ bytes := bytes, accesses := [] }, -1)
        else
          match refreshLoop c fuel { bytes := bytes, accesses := [] } 0 c.memSize 0 with
          | none => none
          | some (m, pUse, pUpdate) => some (m.refresh pUse pUpdate (c.memSize - c.metaSize), 0)

end Taomee.Shm
