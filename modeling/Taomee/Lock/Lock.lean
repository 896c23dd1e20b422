import Taomee.Lib.Semaphore

/-!
# The lock between processes (interprocess/lock.c)

Processes share one semaphore by its key. Every system call is one step, and a process may end at any
step; another one may start under its number. The kernel may let `semop` fail at any time, because of
a signal or for another reason.
-/

namespace Taomee.Lock

/-- How `semop` returns. -/
inductive SemopReturn where
  | zero
  | eintr
  | otherErrno
  deriving DecidableEq, Repr

/-- The loop of `sem_lock` and `sem_unlock` after a `semop`: what the function returns, and `none` for
another turn. -/
def loopTurn : SemopReturn → Option Int
  | .zero => some 0
  | .eintr => none
  | .otherErrno => some (-1)

/-- `op.sem_op` of `sem_lock` and of `sem_unlock`; both set `SEM_UNDO`. -/
def lockOp : Int := -1
def unlockOp : Int := 1

/-- `arg.val` of `sem_init`. -/
def initVal : Int := 1

/-- Where a process is: outside of the functions, between `semget` and `semctl` of `sem_init`, in the
loop of `sem_lock`, behind a `sem_lock` that returned 0, in the loop of `sem_unlock`. -/
inductive Pc where
  | idle
  | inSemInit
  | inSemLock
  | locked
  | inSemUnlock
  deriving DecidableEq, Repr

/-- The semaphore of the key, if there is one, and the processes. -/
structure System where
  sem : Option (Semaphore Nat)
  pc : Nat → Pc

/-- What happens next. -/
inductive Event where
  | semget (p : Nat)
  | semctl (p : Nat)
  | callSemLock (p : Nat)
  | callSemUnlock (p : Nat)
  | semop (p : Nat) (ret : SemopReturn)
  | exit (p : Nat)
  deriving DecidableEq, Repr

/-- The `semctl` of `sem_init`. -/
def Event.isSemctl : Event → Bool
  | .semctl _ => true
  | _ => false

namespace System

def setPc (s : System) (p : Nat) (pc : Pc) : System := { s with pc := Function.update s.pc p pc }

/-- `semget(key, 1, IPC_CREAT | 0664)`: a semaphore that is not there is created. -/
def semget (s : System) : System := { s with sem := some (s.sem.getD .fresh) }

/-- `semctl(ret_semid, 0, SETVAL, arg)`. -/
def semctl (s : System) : System := { s with sem := some (.setval initVal) }

/-- The kernel undoes what the process did. -/
def endOf (s : System) (p : Nat) : System := { s with sem := s.sem.map fun sem => sem.exit p }

/-- A turn of a loop around `semop(semid, &op, 1)`: where the process goes on when the function returns
0 and when it returns -1. -/
def semopTurn (s : System) (p : Nat) (op : Int) (ret : SemopReturn) (done failed : Pc) : Option System :=
  let returned (s : System) : System :=
    match loopTurn ret with
    | none => s
    | some v => s.setPc p (if v = 0 then done else failed)
  match ret with
  | .zero => (s.sem.bind fun sem => sem.semop p op).map fun sem => returned { s with sem := some sem }
  | _ => some (returned s)

/-- One step, if the process is where it can take it. -/
def step (s : System) : Event → Option System
  | .semget p => if s.pc p = .idle then some (s.semget.setPc p .inSemInit) else none
  | .semctl p => if s.pc p = .inSemInit then some (s.semctl.setPc p .idle) else none
  | .callSemLock p => if s.pc p = .idle ∧ s.sem.isSome then some (s.setPc p .inSemLock) else none
  | .callSemUnlock p => if s.pc p = .locked then some (s.setPc p .inSemUnlock) else none
  | .semop p ret =>
      match s.pc p with
      | .inSemLock => s.semopTurn p lockOp ret .locked .idle
      | .inSemUnlock => s.semopTurn p unlockOp ret .idle .locked
      | _ => none
  | .exit p => some ((s.endOf p).setPc p .idle)

def run : System → List Event → Option System
  | s, [] => some s
  | s, e :: es => s.step e >>= fun s => s.run es

/-- No semaphore, and no process has called anything. -/
def boot : System where
  sem := none
  pc := fun _ => .idle

/-- `sem_lock` of the process has returned 0, and no `sem_unlock` since then. -/
def Holds (s : System) (p : Nat) : Prop := s.pc p = .locked ∨ s.pc p = .inSemUnlock

end System

end Taomee.Lock
