import Taomee.Lib.ListLoop
import Taomee.Lib.Rings

/-!
# Intrusive lists (list.h)

The functions and macros of list.h over the link fields of all nodes. A `list_head` that is no head
of a list and in no list may hold anything.
-/

namespace Taomee.Lists

open Taomee (Links ListLoop.Cursor)

variable {P : Type} [DecidableEq P]

/-- `INIT_LIST_HEAD(ptr)`. -/
def initListHead (m : Links P) (ptr : P) : Links P := (m.setNext ptr ptr).setPrev ptr ptr

/-- `__list_add(new_entry, prev, next)`. -/
def listAddBetween (m : Links P) (newEntry prev next : P) : Links P :=
  let m := m.setPrev next newEntry
  let m := m.setNext newEntry next
  let m := m.setPrev newEntry prev
  m.setNext prev newEntry

/-- `list_add(new_entry, head)`. -/
def listAdd (m : Links P) (newEntry head : P) : Links P := listAddBetween m newEntry head (m.next head)

/-- `list_add_tail(new_entry, head)`. -/
def listAddTail (m : Links P) (newEntry head : P) : Links P := listAddBetween m newEntry (m.prev head) head

/-- `__list_del(prev, next)`. -/
def listDelBetween (m : Links P) (prev next : P) : Links P := (m.setPrev next prev).setNext prev next

/-- `list_del(entry)`, with the null pointer it stores. -/
def listDel (null : P) (m : Links P) (entry : P) : Links P :=
  let m := listDelBetween m (m.prev entry) (m.next entry)
  (m.setNext entry null).setPrev entry null

/-- `list_del_init(entry)`. -/
def listDelInit (m : Links P) (entry : P) : Links P :=
  initListHead (listDelBetween m (m.prev entry) (m.next entry)) entry

/-- `list_move(list, head)`. -/
def listMove (m : Links P) (list head : P) : Links P :=
  listAdd (listDelBetween m (m.prev list) (m.next list)) list head

/-- `list_move_tail(list, head)`. -/
def listMoveTail (m : Links P) (list head : P) : Links P :=
  listAddTail (listDelBetween m (m.prev list) (m.next list)) list head

/-- `list_empty(head)`. -/
def listEmpty (m : Links P) (head : P) : Bool := m.next head = head

/-- `__list_splice(list, head)`. -/
def listSpliceBetween (m : Links P) (list head : P) : Links P :=
  let first := m.next list
  let last := m.prev list
  let at' := m.next head
  let m := m.setPrev first head
  let m := m.setNext head first
  let m := m.setNext last at'
  m.setPrev at' last

/-- `list_splice(list, head)`. -/
def listSplice (m : Links P) (list head : P) : Links P :=
  if listEmpty m list then m else listSpliceBetween m list head

/-- `list_splice_init(list, head)`. -/
def listSpliceInit (m : Links P) (list head : P) : Links P :=
  if listEmpty m list then m else initListHead (listSpliceBetween m list head) list

/-! ## Loops -/

/-- A node that is not the head. -/
abbrev Entry (head : P) : Type := { p : P // p ≠ head }

/-- How `list_for_each` and `list_for_each_safe` go through a list while their body changes it. -/
def forward {σ : Type} (links : σ → Links P) (head : P) : ListLoop.Cursor σ P (Entry head) where
  next := fun s p => (links s).next p
  entryOf := fun p => if hp : p ≠ head then some ⟨p, hp⟩ else none
  head := head

/-- How `list_for_each_prev` goes through a list. -/
def backward {σ : Type} (links : σ → Links P) (head : P) : ListLoop.Cursor σ P (Entry head) where
  next := fun s p => (links s).prev p
  entryOf := fun p => if hp : p ≠ head then some ⟨p, hp⟩ else none
  head := head

/-- A loop body that notes the entry. -/
def note {head : P} (seen : List P) (a : Entry head) : Option (List P) := some (seen ++ [a.val])

/-- What `list_for_each(pos, head)` comes to. -/
def listForEach (m : Links P) (head : P) (turns : Nat) : Option (List P) :=
  ListLoop.forEach (forward (fun _ => m) head) note turns []

/-- What `list_for_each_prev(pos, head)` comes to. -/
def listForEachPrev (m : Links P) (head : P) (turns : Nat) : Option (List P) :=
  ListLoop.forEach (backward (fun _ => m) head) note turns []

/-- What a loop body does to the entry it is at. -/
inductive Verdict (P : Type) where
  | keep
  | del
  | delInit
  | move (head : P)
  | moveTail (head : P)
  deriving DecidableEq

/-- The body of a loop that sorts entries out: the links and the entries seen. -/
def sortOut (null : P) (choose : P → Verdict P) {head : P} (s : Links P × List P) (a : Entry head) :
    Option (Links P × List P) :=
  let seen := s.2 ++ [a.val]
  match choose a.val with
  | .keep => some (s.1, seen)
  | .del => some (listDel null s.1 a.val, seen)
  | .delInit => some (listDelInit s.1 a.val, seen)
  | .move g => some (listMove s.1 a.val g, seen)
  | .moveTail g => some (listMoveTail s.1 a.val g, seen)

/-- `list_for_each_safe(pos, n, head)` around such a body. -/
def listForEachSafe (null : P) (choose : P → Verdict P) (m : Links P) (head : P) (turns : Nat) :
    Option (Links P × List P) :=
  ListLoop.forEachSafe (forward Prod.fst head) (sortOut null choose) turns (m, [])

/-! ## Calls -/

/-- A call that changes links. -/
inductive ListOp (P : Type) where
  | initListHead (ptr : P)
  | listAdd (newEntry head : P)
  | listAddTail (newEntry head : P)
  | listDel (entry : P)
  | listDelInit (entry : P)
  | listMove (list head : P)
  | listMoveTail (list head : P)
  | listSplice (list head : P)
  | listSpliceInit (list head : P)
  deriving DecidableEq

def runOp (null : P) (m : Links P) : ListOp P → Links P
  | .initListHead ptr => initListHead m ptr
  | .listAdd newEntry head => listAdd m newEntry head
  | .listAddTail newEntry head => listAddTail m newEntry head
  | .listDel entry => listDel null m entry
  | .listDelInit entry => listDelInit m entry
  | .listMove list head => listMove m list head
  | .listMoveTail list head => listMoveTail m list head
  | .listSplice list head => listSplice m list head
  | .listSpliceInit list head => listSpliceInit m list head

def runOps (null : P) (m : Links P) (ops : List (ListOp P)) : Links P := ops.foldl (runOp null) m

end Taomee.Lists
