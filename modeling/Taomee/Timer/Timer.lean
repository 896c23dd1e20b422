import Mathlib.Data.Fintype.Defs
import Taomee.Lib.CInt
import Taomee.Lib.DList

/-!
# Second timers (timer.c, timer.h)

Timers are nodes of five lists, by the time that remains. They are named by numbers that are never
used again; a null pointer, the head of a list and the node of a timer are told apart. Seconds are
integers, `int` values are cut to 32 bits. Everything that happens is noted in `log`, for the
statements only: no function reads it.
-/

namespace Taomee.Timer

/-- The lists are named by numbers. -/
instance neZeroFive : NeZero 5 := ⟨by decide⟩

/-- What a `list_head*` in the timer lists points to. -/
inductive Ptr where
  | null
  | head (i : Fin 5)
  | entry (t : Nat)
  deriving DecidableEq, Repr

/-- `timer_struct_t` without its links. The function of a removed timer is `none`. -/
structure TimerStruct where
  expire : Int
  owner : Nat
  data : Nat
  function : Option Nat
  funcIndx : Nat
  deriving DecidableEq, Repr

/-- `timer_add_mode_t`. -/
inductive TimerAddMode where
  | timerAddNewTimer
  | timerReplaceTimer
  deriving DecidableEq, Repr

/-- What happens: a timer is put into `vec[i]` with an expire time at some time, it is removed, a
scan starts and ends, the loop over `vec[0]` comes to a timer, a callback is called and returns. -/
inductive Event where
  | arm (t : Nat) (expire now : Int) (i : Fin 5)
  | remove (t : Nat)
  | scan (now : Int)
  | visit (t : Nat)
  | call (t : Nat) (now ret : Int)
  | scanEnd
  deriving DecidableEq, Repr

/-- The static variables of timer.c, the timers and the lists that their owners keep of them. -/
structure Timers where
  links : Links Ptr
  timers : Nat → Option TimerStruct
  fresh : Nat
  spriteLists : Nat → List Nat
  vecExpire : Fin 5 → Int
  minExpiringTime : Fin 5 → Int
  now : Int
  log : List Event

/-- Why a run stops: a caller uses a timer that is not there, a loop over a list takes something for
a timer that is none, or the turns given are used up. -/
inductive Stop where
  | badTimer
  | notTimer
  | fuel
  deriving DecidableEq, Repr

namespace Timers

/-- One more event. -/
def emit (s : Timers) (e : Event) : Timers := { s with log := s.log ++ [e] }

/-! ## The lists -/

/-- `list_add_tail(&t->entry, &vec[i].head)`. -/
def listAddTail (s : Timers) (t : Nat) (i : Fin 5) : Timers :=
  { s with links := s.links.addTail (.entry t) (.head i) }

/-- `list_del(&t->entry)`. -/
def listDel (s : Timers) (t : Nat) : Timers :=
  { s with links := (s.links.unlink (.entry t)).withLinks (.entry t) .null .null }

/-- `list_del_init(&t->entry)`. -/
def listDelInit (s : Timers) (t : Nat) : Timers :=
  { s with links := (s.links.unlink (.entry t)).withLinks (.entry t) (.entry t) (.entry t) }

def setTimer (s : Timers) (t : Nat) (ts : Option TimerStruct) : Timers :=
  { s with timers := Function.update s.timers t ts }

/-- `setup_timer()`, at a time that `renew_now` finds. -/
def setupTimer (s : Timers) (now : Int) : Timers :=
  { s with
    now := now
    links :=
      { next := fun p => match p with | .head i => .head i | p => s.links.next p
        prev := fun p => match p with | .head i => .head i | p => s.links.prev p }
    vecExpire := fun i => 2 ^ (i.val + 2) }

/-- `set_min_exptm(exptm, idx)`. -/
def setMinExptm (s : Timers) (exptm : Int) (idx : Fin 5) : Timers :=
  if exptm < s.minExpiringTime idx ∨ s.minExpiringTime idx = 0 then
    { s with minExpiringTime := Function.update s.minExpiringTime idx exptm }
  else s

/-- The first list but the last one whose time `diff` does not exceed, or the last one. -/
def vecIdx (s : Timers) (diff : Int) : Fin 5 :=
  (([0, 1, 2, 3] : List (Fin 5)).find? fun i => diff ≤ s.vecExpire i).getD 4

/-- `find_min_idx(diff, max_idx)`. -/
def findMinIdx (s : Timers) (diff : Int) : (maxIdx : Nat) → maxIdx < 5 → Fin 5
  | 0, _ => 0
  | k + 1, h =>
      if s.vecExpire ⟨k, Nat.lt_of_succ_lt h⟩ ≥ diff then s.findMinIdx diff k (Nat.lt_of_succ_lt h)
      else ⟨k + 1, h⟩

/-! ## Adding, changing and removing timers -/

/-- `add_timer(t)` for a timer with the time `expire`; the difference is an `int`. -/
def addTimer (s : Timers) (t : Nat) (expire : Int) : Timers :=
  let i := s.vecIdx (toI32 (expire - s.now))
  ((s.listAddTail t i).setMinExptm expire i).emit (.arm t expire s.now i)

/-- What follows `new_timer:` in `add_event`. -/
def newTimer (s : Timers) (head function owner data : Nat) (expire : Int) : Timers × Nat :=
  let t := s.fresh
  let s := s.setTimer t (some { expire, owner, data, function := some function, funcIndx := 0 })
  let s := { s with
    fresh := t + 1
    spriteLists := Function.update s.spriteLists head (s.spriteLists head ++ [t]) }
  (s.addTimer t expire, t)

/-- `find_event(head, function)`. -/
def findEvent (s : Timers) (head function : Nat) : Option Nat :=
  (s.spriteLists head).find? fun t => (s.timers t).any fun ts => ts.function = some function

/-- `mod_expire_time(t, expiretime)`. -/
def modExpireTime (s : Timers) (t : Nat) (expiretime : Int) : Timers :=
  match s.timers t with
  | none => s
  | some ts =>
      if ts.expire = 0 then s
      else
        let j := s.vecIdx (expiretime - s.now)
        let s := s.setTimer t (some { ts with expire := expiretime })
        let s := (s.listDelInit t).listAddTail t j
        (s.setMinExptm expiretime j).emit (.arm t expiretime s.now j)

/-- `add_event(head, function, owner, data, expire, flag)`. -/
def addEvent (s : Timers) (head function owner data : Nat) (expire : Int) (flag : TimerAddMode) :
    Timers × Nat :=
  match flag with
  | .timerAddNewTimer => s.newTimer head function owner data expire
  | .timerReplaceTimer =>
      match s.findEvent head function with
      | some t => (s.modExpireTime t expire, t)
      | none => s.newTimer head function owner data expire

/-- `do_remove_timer(t, freed)`. -/
def doRemoveTimer (s : Timers) (t : Nat) (freed : Bool) : Timers :=
  let s := { s with spriteLists := fun head => (s.spriteLists head).filter fun t' => t' ≠ t }
  if freed then (s.listDel t).setTimer t none
  else s.setTimer t ((s.timers t).map fun ts => { ts with function := none, funcIndx := 0 })

/-! ## What callers and callbacks do -/

/-- A call of the interface. -/
inductive TimerOp where
  | addEvent (head function owner data : Nat) (expire : Int) (flag : TimerAddMode)
  | modExpireTime (t : Nat) (expiretime : Int)
  | removeTimer (t : Nat)
  deriving DecidableEq, Repr

def runOp (s : Timers) : TimerOp → Except Stop Timers
  | .addEvent head function owner data expire flag =>
      .ok (s.addEvent head function owner data expire flag).1
  | .modExpireTime t expiretime =>
      if (s.timers t).isSome then .ok (s.modExpireTime t expiretime) else .error .badTimer
  | .removeTimer t =>
      if (s.timers t).isSome then .ok ((s.doRemoveTimer t false).emit (.remove t))
      else .error .badTimer

def runOps : Timers → List TimerOp → Except Stop Timers
  | s, [] => .ok s
  | s, op :: ops => s.runOp op >>= fun s => s.runOps ops

/-- How callbacks behave: the calls that the callback of a timer makes and what it returns. -/
abbrev Callback := Timers → Nat → List TimerOp × Int

/-! ## Scanning -/

/-- The body of the loop of `scan_seconds_timer`. -/
def handleTimer (cb : Callback) (s : Timers) (t : Nat) (ts : TimerStruct) : Except Stop Timers :=
  if ts.function = none then .ok (s.doRemoveTimer t true)
  else if ts.expire ≤ s.now then
    let (ops, ret) := cb s t
    (s.emit (.call t s.now ret)).runOps ops >>= fun s =>
      if ret = 0 then .ok (s.doRemoveTimer t true) else .ok s
  else .ok s

/-- `list_for_each_safe(l, p, &vec[0].head)` in `scan_seconds_timer`, at `l` with the successor `p`
saved. -/
def scanLoop (cb : Callback) : Nat → Timers → Ptr → Ptr → Except Stop Timers
  | 0, _, _, _ => .error .fuel
  | fuel + 1, s, l, p =>
      if l = .head 0 then .ok s
      else
        match l with
        | .entry t =>
            match s.timers t with
            | some ts =>
                (s.emit (.visit t)).handleTimer cb t ts >>= fun s =>
                  scanLoop cb fuel s p (s.links.next p)
            | none => .error .notTimer
        | _ => .error .notTimer

/-- The body of the loop of `scan_timer_list`: the state and `min_exptm`. -/
def sortTimer (idx : Fin 5) (s : Timers) (t : Nat) (ts : TimerStruct) (minExptm : Int) :
    Timers × Int :=
  if ts.function = none then (s.doRemoveTimer t true, minExptm)
  else
    let i := s.findMinIdx (ts.expire - s.now) idx.val idx.isLt
    if i ≠ idx then (((s.listDel t).listAddTail t i).setMinExptm ts.expire i, minExptm)
    else if ts.expire < minExptm ∨ minExptm = 0 then (s, ts.expire)
    else (s, minExptm)

/-- `list_for_each_safe(cur, next, &vec[idx].head)` in `scan_timer_list`. -/
def sortLoop (idx : Fin 5) : Nat → Timers → Ptr → Ptr → Int → Except Stop (Timers × Int)
  | 0, _, _, _, _ => .error .fuel
  | fuel + 1, s, cur, next, minExptm =>
      if cur = .head idx then .ok (s, minExptm)
      else
        match cur with
        | .entry t =>
            match s.timers t with
            | some ts =>
                let (s, minExptm) := s.sortTimer idx t ts minExptm
                sortLoop idx fuel s next (s.links.next next) minExptm
            | none => .error .notTimer
        | _ => .error .notTimer

/-- `scan_timer_list(idx)`. -/
def scanTimerList (fuel : Nat) (s : Timers) (idx : Fin 5) : Except Stop Timers :=
  let cur := s.links.next (.head idx)
  sortLoop idx fuel s cur (s.links.next cur) 0 >>= fun (s, minExptm) =>
    .ok { s with minExpiringTime := Function.update s.minExpiringTime idx minExptm }

/-- The loop over the lists behind `vec[0]`. -/
def scanLists (fuel : Nat) : Timers → List (Fin 5) → Except Stop Timers
  | s, [] => .ok s
  | s, i :: is =>
      (if s.minExpiringTime i - s.now < 2 then s.scanTimerList fuel i else .ok s) >>= fun s =>
        scanLists fuel s is

/-- `scan_seconds_timer()`, each loop for at most `fuel` turns. -/
def scanSecondsTimer (fuel : Nat) (cb : Callback) (s : Timers) : Except Stop Timers :=
  let s := s.emit (.scan s.now)
  let l := s.links.next (.head 0)
  scanLoop cb fuel s l (s.links.next l) >>= fun s =>
    scanLists fuel s [1, 2, 3, 4] >>= fun s => .ok (s.emit .scanEnd)

/-! ## Runs -/

/-- What the process does between and at scans. -/
inductive Action where
  | renewNow (now : Int)
  | op (op : TimerOp)
  | scan (fuel : Nat) (cb : Callback)

def runAction (s : Timers) : Action → Except Stop Timers
  | .renewNow now => .ok { s with now := now }
  | .op op => s.runOp op
  | .scan fuel cb => s.scanSecondsTimer fuel cb

def run : Timers → List Action → Except Stop Timers
  | s, [] => .ok s
  | s, a :: as => s.runAction a >>= fun s => s.run as

/-- The static memory before `setup_timer`: no timers, and the cached minima that an earlier use may
have left. -/
def boot (stale : Fin 5 → Int) : Timers where
  links := ⟨fun _ => .null, fun _ => .null⟩
  timers := fun _ => none
  fresh := 0
  spriteLists := fun _ => []
  vecExpire := fun _ => 0
  minExpiringTime := stale
  now := 0
  log := []

end Timers

end Taomee.Timer
