import Taomee.Lib.ListLoop
import Taomee.Lib.Registry
import Taomee.Timer.Timer

/-!
# Timers of both kinds and the table of callbacks (timer.c, timer.h)

A callback may call every function again, scans included, so the scans go turn by turn, with what is
not finished on a stack. A turn and a call are not there where the source would use a timer that was
freed. Timers of each kind are named by numbers that are never used again. What is removed and called
is noted in `marks`, which no function reads.
-/

namespace Taomee.Timer

/-- `max_timer_type`. -/
def maxTimerType : Nat := 10000

/-- A timer of one of the two kinds. -/
inductive TimerId where
  | second (t : Nat)
  | micro (t : Nat)
  deriving DecidableEq, Repr

/-- What a `list_head*` in the list `micro_timer` points to. -/
inductive MicroPtr where
  | null
  | head
  | entry (t : Nat)
  deriving DecidableEq, Repr

/-- `micro_timer_struct_t` without its links. -/
structure MicroTimerStruct where
  tvSec : Int
  tvUsec : Int
  owner : Nat
  data : Nat
  function : Option Nat
  funcIndx : Nat
  deriving DecidableEq, Repr

/-- What is not finished: a loop between two turns, with its node and the next one that it keeps, or
a callback that has not returned, with the next node that its loop keeps. -/
inductive Frame where
  | seconds (l p : Ptr)
  | secondsCall (t : Nat) (p : Ptr)
  | lists (i : Nat)
  | sort (idx : Fin 5) (cur next : Ptr) (minExptm : Int)
  | micro (l p : MicroPtr)
  | microCall (t : Nat) (p : MicroPtr)
  deriving DecidableEq, Repr

/-- The static variables of timer.c, the timers of both kinds, and what is not finished. -/
structure Process where
  seconds : Timers
  nowUsec : Int
  microLinks : Links MicroPtr
  microTimers : Nat → Option MicroTimerStruct
  microFresh : Nat
  tcfs : Nat → Option Nat
  marks : List (Registry.Mark TimerId)
  stack : List Frame

/-- The timer that a node of the lists `vec` belongs to. -/
def Ptr.timer : Ptr → Option Nat
  | .entry t => some t
  | _ => none

/-- The timer that a node of the list `micro_timer` belongs to. -/
def MicroPtr.timer : MicroPtr → Option Nat
  | .entry t => some t
  | _ => none

namespace Process

def mark (s : Process) (m : Registry.Mark TimerId) : Process := { s with marks := s.marks ++ [m] }

/-- `setup_timer()`, with the static variables as they are when the program starts. -/
def setupTimer (stale : Fin 5 → Int) (sec usec : Int) : Process where
  seconds := (Timers.boot stale).setupTimer sec
  nowUsec := usec
  microLinks := ⟨fun p => if p = .head then .head else .null, fun p => if p = .head then .head else .null⟩
  microTimers := fun _ => none
  microFresh := 0
  tcfs := fun _ => none
  marks := []
  stack := []

/-- `renew_now()`. -/
def renewNow (s : Process) (sec usec : Int) : Process :=
  { s with
    seconds := { s.seconds with now := sec }
    nowUsec := usec }

/-! ## The lists -/

/-- `list_for_each` over `vec[i]`. -/
def vecList (i : Fin 5) : ListLoop.Cursor Process Ptr Nat where
  next := fun s p => s.seconds.links.next p
  entryOf := Ptr.timer
  head := .head i

/-- `list_for_each` over `micro_timer`. -/
def microList : ListLoop.Cursor Process MicroPtr Nat where
  next := fun s p => s.microLinks.next p
  entryOf := MicroPtr.timer
  head := .head

/-- Turns enough for a list of second timers. -/
def turns (s : Process) : Nat := s.seconds.fresh + 1

/-- Turns enough for the list of microsecond timers. -/
def microTurns (s : Process) : Nat := s.microFresh + 1

/-! ## Second timers -/

def setTimer (s : Process) (t : Nat) (ts : TimerStruct) : Process :=
  { s with seconds := s.seconds.setTimer t (some ts) }

/-- What follows `new_timer:` in `add_event`. -/
def newTimer (s : Process) (head : Nat) (function : Option Nat) (owner data : Nat) (expire : Int) :
    Process × Nat :=
  let t := s.seconds.fresh
  let b := s.seconds.setTimer t (some { expire, owner, data, function, funcIndx := 0 })
  let b := { b with
    fresh := t + 1
    spriteLists := Function.update b.spriteLists head (b.spriteLists head ++ [t]) }
  ({ s with seconds := b.addTimer t expire }, t)

/-- `find_event(head, function)`. -/
def findEvent (s : Process) (head : Nat) (function : Option Nat) : Option Nat :=
  (s.seconds.spriteLists head).find? fun t => (s.seconds.timers t).any fun ts => ts.function = function

/-- `mod_expire_time(t, expiretime)`. -/
def modExpireTime (s : Process) (t : Nat) (expiretime : Int) : Process :=
  { s with seconds := s.seconds.modExpireTime t expiretime }

/-- `add_event(head, function, owner, data, expire, flag)`. -/
def addEvent (s : Process) (head : Nat) (function : Option Nat) (owner data : Nat) (expire : Int)
    (flag : TimerAddMode) : Process × Nat :=
  match flag with
  | .timerAddNewTimer => s.newTimer head function owner data expire
  | .timerReplaceTimer =>
      match s.findEvent head function with
      | some t => (s.modExpireTime t expire, t)
      | none => s.newTimer head function owner data expire

/-- With a callback it does what it does to second timers alone. -/
theorem addEvent_seconds (s : Process) (head function owner data : Nat) (expire : Int) (flag : TimerAddMode) :
    (s.addEvent head (some function) owner data expire flag).1.seconds =
      (s.seconds.addEvent head function owner data expire flag).1 := by
  cases flag with
  | timerAddNewTimer => rfl
  | timerReplaceTimer =>
      have hfind : s.findEvent head (some function) = s.seconds.findEvent head function := rfl
      unfold addEvent Timers.addEvent
      rw [hfind]
      cases s.seconds.findEvent head function with
      | none => rfl
      | some t => rfl

/-- `timer->func_indx = fidx`. -/
def setFuncIndx (s : Process) (t fidx : Nat) : Process :=
  match s.seconds.timers t with
  | some ts => s.setTimer t { ts with funcIndx := fidx }
  | none => s

/-- `add_event_ex(head, fidx, owner, data, expire, flag)`. -/
def addEventEx (s : Process) (head fidx owner data : Nat) (expire : Int) (flag : TimerAddMode) :
    Process × Option Nat :=
  if s.tcfs fidx = none then (s, none)
  else
    let (s, t) := s.addEvent head (s.tcfs fidx) owner data expire flag
    (s.setFuncIndx t fidx, some t)

/-- `do_remove_timer(t, freed)`. -/
def doRemoveTimer (s : Process) (t : Nat) (freed : Bool) : Process :=
  { s with seconds := s.seconds.doRemoveTimer t freed }.mark (.removed (.second t))

/-- `remove_timers(head)`. -/
def removeTimers (s : Process) (head : Nat) : Process :=
  (s.seconds.spriteLists head).foldl (fun s t => s.doRemoveTimer t false) s

/-! ## Microsecond timers -/

def setMicroTimer (s : Process) (t : Nat) (mt : Option MicroTimerStruct) : Process :=
  { s with microTimers := Function.update s.microTimers t mt }

/-- `add_micro_event(func, tv, owner, data)`. -/
def addMicroEvent (s : Process) (func : Option Nat) (tvSec tvUsec : Int) (owner data : Nat) :
    Process × Nat :=
  let t := s.microFresh
  let s := s.setMicroTimer t (some { tvSec, tvUsec, owner, data, function := func, funcIndx := 0 })
  ({ s with
      microFresh := t + 1
      microLinks := s.microLinks.addTail (.entry t) .head }, t)

/-- `add_micro_event_ex(fidx, tv, owner, data)`. -/
def addMicroEventEx (s : Process) (fidx : Nat) (tvSec tvUsec : Int) (owner data : Nat) : Process × Nat :=
  let (s, t) := s.addMicroEvent (s.tcfs fidx) tvSec tvUsec owner data
  (s.setMicroTimer t ((s.microTimers t).map fun mt => { mt with funcIndx := fidx }), t)

/-- `remove_micro_timer(t, freed)`. -/
def removeMicroTimer (s : Process) (t : Nat) (freed : Bool) : Process :=
  (if freed then
    { s with microLinks := (s.microLinks.unlink (.entry t)).withLinks (.entry t) (.entry t) (.entry t) }.setMicroTimer
      t none
  else
    s.setMicroTimer t ((s.microTimers t).map fun mt => { mt with function := none, funcIndx := 0 })).mark
      (.removed (.micro t))

/-- The body of the loop of `remove_micro_timers`. -/
def removeIfOwned (owner : Nat) (s : Process) (t : Nat) : Option Process :=
  (s.microTimers t).map fun mt => if mt.owner = owner then s.removeMicroTimer t false else s

/-- `remove_micro_timers(owner)`. -/
def removeMicroTimers (s : Process) (owner : Nat) : Option Process :=
  ListLoop.forEachSafe microList (removeIfOwned owner) s.microTurns s

/-! ## The table of callbacks -/

/-- `register_timer_callback(nbr, cb)`: what it returns comes second. -/
def registerTimerCallback (s : Process) (nbr : Int) (cb : Option Nat) : Process × Int :=
  if nbr ≤ 0 ∨ nbr ≥ maxTimerType then (s, -1)
  else if s.tcfs nbr.toNat ≠ none then (s, -1)
  else ({ s with tcfs := Function.update s.tcfs nbr.toNat cb }, 0)

/-- `unregister_timers_callback()`. -/
def unregisterTimersCallback (s : Process) : Process := { s with tcfs := fun _ => none }

/-- `t->function = tcfs[t->func_indx]` for a second timer. -/
def refreshTimer (s : Process) (t : Nat) : Option Process :=
  (s.seconds.timers t).bind fun ts =>
    if ts.funcIndx < maxTimerType then some (s.setTimer t { ts with function := s.tcfs ts.funcIndx })
    else none

/-- `mt->function = tcfs[mt->func_indx]` for a microsecond timer. -/
def refreshMicroTimer (s : Process) (t : Nat) : Option Process :=
  (s.microTimers t).bind fun mt =>
    if mt.funcIndx < maxTimerType then
      some (s.setMicroTimer t (some { mt with function := s.tcfs mt.funcIndx }))
    else none

/-- `refresh_timers_callback()`. -/
def refreshTimersCallback (s : Process) : Option Process :=
  (List.finRange 5).foldlM (fun s i => ListLoop.forEach (vecList i) refreshTimer s.turns s) s >>= fun s =>
    ListLoop.forEach microList refreshMicroTimer s.microTurns s

/-! ## Taking everything down -/

/-- The bodies of the loops of `destroy_timer`. -/
def destroyEntry (s : Process) (t : Nat) : Option Process :=
  (s.seconds.timers t).map fun _ => s.doRemoveTimer t true

def destroyMicroEntry (s : Process) (t : Nat) : Option Process :=
  (s.microTimers t).map fun _ => s.removeMicroTimer t true

/-- `destroy_timer()`. -/
def destroyTimer (s : Process) : Option Process :=
  (List.finRange 5).foldlM (fun s i => ListLoop.forEachSafe (vecList i) destroyEntry s.turns s) s >>= fun s =>
    ListLoop.forEachSafe microList destroyMicroEntry s.microTurns s

/-! ## Scanning -/

def setStack (s : Process) (stack : List Frame) : Process := { s with stack }

/-- `scan_seconds_timer()` starts. -/
def scanSecondsTimer (s : Process) : Process :=
  let l := s.seconds.links.next (.head 0)
  s.setStack (.seconds l (s.seconds.links.next l) :: s.stack)

/-- `scan_microseconds_timer()` starts. -/
def scanMicrosecondsTimer (s : Process) : Process :=
  let l := s.microLinks.next .head
  s.setStack (.micro l (s.microLinks.next l) :: s.stack)

/-- `list_for_each_safe(l, p, &vec[0].head)` goes on at the node that it kept. -/
def secondsNext (s : Process) (p : Ptr) (rest : List Frame) : Process :=
  s.setStack (.seconds p (s.seconds.links.next p) :: rest)

/-- A turn of the loop over `vec[0]` in `scan_seconds_timer`. -/
def secondsTurn (s : Process) (l p : Ptr) (rest : List Frame) : Option Process :=
  if l = .head 0 then some (s.setStack (.lists 1 :: rest))
  else
    l.timer.bind fun t =>
      (s.seconds.timers t).map fun ts =>
        if ts.function = none then (s.doRemoveTimer t true).secondsNext p rest
        else if ts.expire ≤ s.seconds.now then
          (s.mark (.called (.second t))).setStack (.secondsCall t p :: rest)
        else s.secondsNext p rest

/-- A turn of the loop over the lists behind `vec[0]`, which starts `scan_timer_list(i)` where a timer
may have come near. -/
def listsTurn (s : Process) (i : Nat) (rest : List Frame) : Process :=
  if h : i < 5 then
    let idx : Fin 5 := ⟨i, h⟩
    if s.seconds.minExpiringTime idx - s.seconds.now < 2 then
      let cur := s.seconds.links.next (.head idx)
      s.setStack (.sort idx cur (s.seconds.links.next cur) 0 :: .lists (i + 1) :: rest)
    else s.setStack (.lists (i + 1) :: rest)
  else s.setStack rest

/-- A turn of the loop of `scan_timer_list(idx)`, or its end. -/
def sortTurn (s : Process) (idx : Fin 5) (cur next : Ptr) (minExptm : Int) (rest : List Frame) :
    Option Process :=
  if cur = .head idx then
    some ({ s with
      seconds := { s.seconds with
        minExpiringTime := Function.update s.seconds.minExpiringTime idx minExptm } }.setStack rest)
  else
    cur.timer.bind fun t =>
      (s.seconds.timers t).map fun ts =>
        let (b, minExptm) := s.seconds.sortTimer idx t ts minExptm
        let s := if ts.function = none then s.mark (.removed (.second t)) else s
        { s with seconds := b }.setStack (.sort idx next (b.links.next next) minExptm :: rest)

/-- `list_for_each_safe(l, p, &micro_timer)` goes on at the node that it kept. -/
def microNext (s : Process) (p : MicroPtr) (rest : List Frame) : Process :=
  s.setStack (.micro p (s.microLinks.next p) :: rest)

/-- A turn of the loop of `scan_microseconds_timer`. -/
def microTurn (s : Process) (l p : MicroPtr) (rest : List Frame) : Option Process :=
  if l = .head then some (s.setStack rest)
  else
    l.timer.bind fun t =>
      (s.microTimers t).map fun mt =>
        if mt.function = none then (s.removeMicroTimer t true).microNext p rest
        else if s.seconds.now > mt.tvSec ∨ s.seconds.now = mt.tvSec ∧ s.nowUsec > mt.tvUsec then
          (s.mark (.called (.micro t))).setStack (.microCall t p :: rest)
        else s.microNext p rest

/-- The loop on top of the stack makes a turn. -/
def turn (s : Process) : Option Process :=
  match s.stack with
  | .seconds l p :: rest => s.secondsTurn l p rest
  | .lists i :: rest => some (s.listsTurn i rest)
  | .sort idx cur next minExptm :: rest => s.sortTurn idx cur next minExptm rest
  | .micro l p :: rest => s.microTurn l p rest
  | _ => none

/-- The callback on top of the stack returns `v`. -/
def ret (s : Process) (v : Int) : Option Process :=
  match s.stack with
  | .secondsCall t p :: rest =>
      if v = 0 then (s.seconds.timers t).map fun _ => (s.doRemoveTimer t true).secondsNext p rest
      else some (s.secondsNext p rest)
  | .microCall t p :: rest =>
      if v = 0 then (s.microTimers t).map fun _ => (s.removeMicroTimer t true).microNext p rest
      else some (s.microNext p rest)
  | _ => none

/-! ## Runs -/

/-- A call that the program makes, from outside or from a callback. -/
inductive ApiCall where
  | renewNow (sec usec : Int)
  | addEvent (head : Nat) (function : Option Nat) (owner data : Nat) (expire : Int) (flag : TimerAddMode)
  | addEventEx (head : Nat) (fidx : Fin maxTimerType) (owner data : Nat) (expire : Int) (flag : TimerAddMode)
  | modExpireTime (t : Nat) (expiretime : Int)
  | doRemoveTimer (t : Nat) (freed : Bool)
  | removeTimers (head : Nat)
  | addMicroEvent (func : Option Nat) (tvSec tvUsec : Int) (owner data : Nat)
  | addMicroEventEx (fidx : Fin maxTimerType) (tvSec tvUsec : Int) (owner data : Nat)
  | removeMicroTimer (t : Nat) (freed : Bool)
  | removeMicroTimers (owner : Nat)
  | registerTimerCallback (nbr : Int) (cb : Option Nat)
  | unregisterTimersCallback
  | refreshTimersCallback
  | destroyTimer
  | scanSecondsTimer
  | scanMicrosecondsTimer
  deriving DecidableEq, Repr

def call (s : Process) : ApiCall → Option Process
  | .renewNow sec usec => some (s.renewNow sec usec)
  | .addEvent head function owner data expire flag => some (s.addEvent head function owner data expire flag).1
  | .addEventEx head fidx owner data expire flag => some (s.addEventEx head fidx owner data expire flag).1
  | .modExpireTime t expiretime => (s.seconds.timers t).map fun _ => s.modExpireTime t expiretime
  | .doRemoveTimer t freed => (s.seconds.timers t).map fun _ => s.doRemoveTimer t freed
  | .removeTimers head => some (s.removeTimers head)
  | .addMicroEvent func tvSec tvUsec owner data => some (s.addMicroEvent func tvSec tvUsec owner data).1
  | .addMicroEventEx fidx tvSec tvUsec owner data => some (s.addMicroEventEx fidx tvSec tvUsec owner data).1
  | .removeMicroTimer t freed => (s.microTimers t).map fun _ => s.removeMicroTimer t freed
  | .removeMicroTimers owner => s.removeMicroTimers owner
  | .registerTimerCallback nbr cb => some (s.registerTimerCallback nbr cb).1
  | .unregisterTimersCallback => some s.unregisterTimersCallback
  | .refreshTimersCallback => s.refreshTimersCallback
  | .destroyTimer => s.destroyTimer
  | .scanSecondsTimer => some s.scanSecondsTimer
  | .scanMicrosecondsTimer => some s.scanMicrosecondsTimer

/-- The program, and not one of the loops of timer.c, has the control. -/
def outside (s : Process) : Bool :=
  match s.stack with
  | [] | .secondsCall _ _ :: _ | .microCall _ _ :: _ => true
  | _ => false

/-- What happens next. -/
inductive Choice where
  | call (c : ApiCall)
  | ret (v : Int)
  | turn
  deriving DecidableEq, Repr

def step (s : Process) : Choice → Option Process
  | .call c => if s.outside then s.call c else none
  | .ret v => s.ret v
  | .turn => s.turn

def run (s : Process) (choices : List Choice) : Option Process := choices.foldlM step s

end Process

end Taomee.Timer
