import Taomee.Lib.CInt
import Taomee.Lib.Segments
import Taomee.Attr.AttrApi

/-!
# Shared memory of the counters (attr_api/shm.c, attr_api/attr_api.c)

The functions as programs of system calls. A null `init_buf` is `none`, else it comes with its
`init_buf_len` bytes. What is printed is left out.
-/

namespace Taomee.Attr

open ShmCall (getOld getNew stat attach detach copy)

/-! ## shm.c -/

/-- `get_shm_info(key, &exist, &shmid, &size)`: what is stored at `shmid` and `size`, and `none` for
`get_shm_info_nonexist`. -/
def getShmInfo (key : Int) : ShmProg (Option (Nat × Nat)) := do
  match ← getOld key with
  | none => return none
  | some id =>
      match ← stat id with
      | none => return none
      | some segsz => return some (id, segsz)

/-- `memcpy(shm, init_buf, init_size)` when there is an `init_buf`. -/
def copyInitBuf (shm : Nat) (initBuf : List UInt8) (initSize : Nat) : ShmProg Unit :=
  copy shm (initBuf.take initSize)

/-- `create_shm_init(key, size, init_buf, init_buf_len)` -/
def createShmInit (key : Int) (size : Nat) (initBuf : Option (List UInt8)) : ShmProg Int := do
  match ← getNew key size with
  | none => return -1
  | some shmid =>
      match ← attach shmid with
      | none => return -1
      | some shm =>
          match initBuf with
          | none => pure ()
          | some buf => copyInitBuf shm buf (if size < buf.length then size else buf.length)
          let _ ← detach shm
          return 0

/-- `create_shm(key, size)` -/
def createShm (key : Int) (size : Nat) : ShmProg Int := createShmInit key size none

/-- The part of `get_shm` that initialises a segment that exists; its `init_size` is an `int`. -/
def initElderShm (elderShmid size : Nat) (initBuf : Option (List UInt8)) : ShmProg Int := do
  match ← attach elderShmid with
  | none => return -1
  | some shm =>
      match initBuf with
      | some buf => copyInitBuf shm buf (toU64 (toI32 (if size < buf.length then size else buf.length)))
      | none => copy shm (List.replicate size 0)
      let _ ← detach shm
      return 0

/-- `get_shm(key, size, create_nonexist, init_exist, init_buf, init_buf_len)` -/
def getShm (key : Int) (size : Nat) (createNonexist initExist : Bool) (initBuf : Option (List UInt8)) :
    ShmProg Int := do
  if key = 0 then return -1
  else
    match ← getShmInfo key with
    | none => if createNonexist then createShmInit key size initBuf else return -1
    | some (elderShmid, elderSize) =>
        if size ≠ elderSize then return -1
        else if !initExist then return 0
        else initElderShm elderShmid size initBuf

/-- `get_shm_create_noinitexist(key, size, init_buf, init_buf_len)` -/
def getShmCreateNoinitexist (key : Int) (size : Nat) (initBuf : Option (List UInt8)) : ShmProg Int :=
  getShm key size true false initBuf

/-- `struct shm_mgr_t`; a null `shm` is 0. -/
structure ShmMgr where
  key : Int
  shmid : Int
  size : Nat
  shm : Nat

/-- `init_shm_mgr(mgr, key)` -/
def initShmMgr (key : Int) : ShmMgr where
  key := key
  shmid := -1
  size := 0
  shm := 0

/-- `update_shm_attach(shm_mgr)`: the return value and the manager. -/
def updateShmAttach (mgr : ShmMgr) : ShmProg (Int × ShmMgr) := do
  if mgr.key = 0 then return (-1, mgr)
  else
    match ← getShmInfo mgr.key with
    | none => return (-1, mgr)
    | some (shmid, size) =>
        if mgr.shmid = shmid then
          if mgr.size = size then return (0, mgr) else return (-1, mgr)
        else
          match ← attach shmid with
          | none => return (-1, mgr)
          | some shm =>
              let _ ← detach mgr.shm
              return (0, { mgr with shmid := shmid, size := size, shm := shm })

/-! ## attr_api.c -/

/-- `SHM_KEY_ATTR` -/
def shmKeyAttr : Int := 1000000

/-- `MAX_HT_NODES_NUM` -/
def maxHtNodesNum : Nat := 1000000

/-- What `get_attr_shm` leaves in `attr_shm_mgr` and `attr_nodes_hash_table` when it returns 0. -/
structure AttrShm where
  mgr : ShmMgr
  htab : HashTable

/-- `get_attr_shm()`, and `none` for -1. -/
def getAttrShm : ShmProg (Option AttrShm) := do
  let size := calcHashTableSize nodeSize nodesNum
  let mgr := initShmMgr shmKeyAttr
  let _ ← getShmCreateNoinitexist shmKeyAttr size none
  let (ret, mgr) ← updateShmAttach mgr
  if ret = -1 then return none
  else if mgr.shm = 0 then return none
  else
    match hashTableInit size nodeSize nodesNum mods with
    | none => return none
    | some htab => if htab.totalNodeNum > maxHtNodesNum then return none else return some ⟨mgr, htab⟩

/-- What the first calls of `update_attr` and `get_attr` in a process do about `attr_shm`: each calls
`get_attr_shm` as long as it is null. -/
def attachAttrShm : Nat → ShmProg (Option AttrShm)
  | 0 => return none
  | calls + 1 => do
      match ← getAttrShm with
      | some a => return some a
      | none => attachAttrShm calls

end Taomee.Attr
