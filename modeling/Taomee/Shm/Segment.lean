import Taomee.Attr.Shm

/-!
# Shared memory under a key (tm_shm/tm_shm.c)

The functions as programs of system calls, as those of attr_api/shm.c.
-/

namespace Taomee.Shm

open ShmCall (getOld getNew stat attach detach copy)

/-- `struct tm_shm_mgr_t`, with the fields of `struct shm_mgr_t`. -/
abbrev TmShmMgr := Attr.ShmMgr

/-- `do_tm_shm_create_init(key, size, init_buf, init_buf_len)` -/
def doTmShmCreateInit (key : Int) (size : Nat) (initBuf : Option (List UInt8)) : ShmProg Int := do
  match ← getNew key size with
  | none => return -1
  | some shmid =>
      match ← attach shmid with
      | none => return -1
      | some shm =>
          match initBuf with
          | none => pure ()
          | some buf => copy shm (buf.take (if size < buf.length then size else buf.length))
          let _ ← detach shm
          return 0

/-- `tm_shm_create_init(key, size, init_buf, init_buf_len)`; its `init_size` is an `int`. -/
def tmShmCreateInit (key : Int) (size : Nat) (initBuf : Option (List UInt8)) : ShmProg Int := do
  if key = 0 then return -1
  else
    match ← getOld key with
    | none => doTmShmCreateInit key size initBuf
    | some shmid =>
        match ← stat shmid with
        | none => return -1
        | some elderSize =>
            if elderSize = size then
              match ← attach shmid with
              | none => return -1
              | some shm =>
                  match initBuf with
                  | some buf => copy shm (buf.take (toU64 (toI32 (if size < buf.length then size else buf.length))))
                  | none => copy shm (List.replicate size 0)
                  let _ ← detach shm
                  return 0
            else return -1

/-- `tm_shm_create(key, size)` -/
def tmShmCreate (key : Int) (size : Nat) : ShmProg Int := tmShmCreateInit key size none

/-- `tm_shm_create_new_init(key, size, init_buf, init_buf_len)` -/
def tmShmCreateNewInit (key : Int) (size : Nat) (initBuf : Option (List UInt8)) : ShmProg Int := do
  match ← getOld key with
  | some _ => return -1
  | none => doTmShmCreateInit key size initBuf

/-- `tm_shm_create_new(key, size)` -/
def tmShmCreateNew (key : Int) (size : Nat) : ShmProg Int := tmShmCreateNewInit key size none

/-- `tm_shm_update_attach(shm_mgr)`: the return value and the manager. -/
def tmShmUpdateAttach (mgr : TmShmMgr) : ShmProg (Int × TmShmMgr) := do
  if mgr.key = 0 then return (-1, mgr)
  else
    match ← getOld mgr.key with
    | none => return (-1, mgr)
    | some shmid =>
        match ← stat shmid with
        | none => return (-1, mgr)
        | some segsz =>
            if (shmid : Int) = mgr.shmid ∧ mgr.size ≠ segsz then return (-1, mgr)
            else
              match ← attach shmid with
              | none => return (-1, mgr)
              | some shm =>
                  let _ ← detach mgr.shm
                  return (0, { mgr with shmid := shmid, size := segsz, shm := shm })

/-- `tm_shm_test_shm_exist(key)` -/
def tmShmTestShmExist (key : Int) : ShmProg Int := do
  match ← getOld key with
  | none => return 0
  | some shmid =>
      match ← stat shmid with
      | none => return 0
      | some _ => return 1

end Taomee.Shm
