import Taomee.Lib.Bytes
import Taomee.Lib.Programs

/-!
# Shared memory segments of System V

A segment is found by its key until it is removed, and lives on under its number as long as a process
is attached. Every call may be refused for reasons that are not modelled; a refused call changes
nothing. Memory is reached through the address at which a process has attached a segment.
-/

namespace Taomee

/-- What is known of a segment. -/
structure Segment where
  key : Int
  size : Nat
  bytes : Buf

/-- The segments by their number, the number of each key, the numbers below `fresh` that were given
out, and for each process what is attached at an address. -/
structure Segments where
  segs : Nat → Option Segment
  ids : Int → Option Nat
  fresh : Nat
  maps : Nat → Nat → Option Nat

/-- The system calls, and copying to attached memory. -/
inductive ShmCall where
  /-- `shmget(key, 0, 0)` -/
  | shmgetOld (key : Int)
  /-- `shmget(key, size, IPC_CREAT | IPC_EXCL | mode)` -/
  | shmgetNew (key : Int) (size : Nat)
  /-- `shmctl(shmid, IPC_STAT, &stat)`, for `stat.shm_segsz` -/
  | shmctlStat (shmid : Nat)
  /-- `shmat(shmid, 0, 0)` -/
  | shmat (shmid : Nat)
  /-- `shmdt(addr)` -/
  | shmdt (addr : Nat)
  /-- `memcpy(dst, src, n)` or `memset(dst, c, n)`, for the bytes that are stored -/
  | store (dst : Nat) (src : List UInt8)

/-- The answers: `none` stands for -1, an address is never null. -/
abbrev ShmAns : ShmCall → Type
  | .shmgetOld _ => Option Nat
  | .shmgetNew _ _ => Option Nat
  | .shmctlStat _ => Option Nat
  | .shmat _ => Option Nat
  | .shmdt _ => Bool
  | .store _ _ => Unit

abbrev ShmProg := Prog ShmCall ShmAns

/-! ## The calls in programs -/

namespace ShmCall

def getOld (key : Int) : ShmProg (Option Nat) := .call (.shmgetOld key) .ret
def getNew (key : Int) (size : Nat) : ShmProg (Option Nat) := .call (.shmgetNew key size) .ret
def stat (shmid : Nat) : ShmProg (Option Nat) := .call (.shmctlStat shmid) .ret
def attach (shmid : Nat) : ShmProg (Option Nat) := .call (.shmat shmid) .ret
def detach (addr : Nat) : ShmProg Bool := .call (.shmdt addr) .ret
def copy (dst : Nat) (src : List UInt8) : ShmProg Unit := .call (.store dst src) .ret

end ShmCall

namespace Segments

/-- `IPC_PRIVATE` -/
def ipcPrivate : Int := 0

def setSeg (k : Segments) (id : Nat) (seg : Segment) : Segments :=
  { k with segs := Function.update k.segs id (some seg) }

/-- A segment filled with zeros. A private one cannot be found by its key. -/
def create (k : Segments) (key : Int) (size : Nat) : Segments where
  segs := Function.update k.segs k.fresh (some ⟨key, size, fun _ => 0⟩)
  ids := if key = ipcPrivate then k.ids else Function.update k.ids key (some k.fresh)
  fresh := k.fresh + 1
  maps := k.maps

def setMap (k : Segments) (p addr : Nat) (id : Option Nat) : Segments :=
  { k with maps := Function.update k.maps p (Function.update (k.maps p) addr id) }

/-- The bytes of the segment at `addr`, if the process `p` has one there. -/
def storeAt (k : Segments) (p addr : Nat) (src : List UInt8) : Segments :=
  match (k.maps p addr).bind fun id => (k.segs id).map fun seg => (id, seg) with
  | none => k
  | some (id, seg) => k.setSeg id { seg with bytes := seg.bytes.store src }

/-- What a call of the process `p` does when it is not refused. -/
inductive Done (p : Nat) (k : Segments) : (c : ShmCall) → ShmAns c → Segments → Prop
  | shmgetOld {key : Int} : key ≠ ipcPrivate → Done p k (.shmgetOld key) (k.ids key) k
  | shmgetNew {key : Int} {size : Nat} : key = ipcPrivate ∨ k.ids key = none →
      Done p k (.shmgetNew key size) (some k.fresh) (k.create key size)
  | shmgetNewExists {key : Int} {size id : Nat} : key ≠ ipcPrivate → k.ids key = some id →
      Done p k (.shmgetNew key size) none k
  | shmctlStat {id : Nat} : Done p k (.shmctlStat id) ((k.segs id).map Segment.size) k
  | shmat {id addr : Nat} : (k.segs id).isSome → addr ≠ 0 → k.maps p addr = none →
      Done p k (.shmat id) (some addr) (k.setMap p addr (some id))
  | shmatGone {id : Nat} : k.segs id = none → Done p k (.shmat id) none k
  | shmdt {addr : Nat} : Done p k (.shmdt addr) (k.maps p addr).isSome (k.setMap p addr none)
  | store {addr : Nat} {src : List UInt8} : Done p k (.store addr src) () (k.storeAt p addr src)

/-- The answers to calls that the system refuses. -/
inductive Refused : (c : ShmCall) → ShmAns c → Prop
  | shmgetOld {key : Int} : Refused (.shmgetOld key) none
  | shmgetNew {key : Int} {size : Nat} : Refused (.shmgetNew key size) none
  | shmctlStat {id : Nat} : Refused (.shmctlStat id) none
  | shmat {id : Nat} : Refused (.shmat id) none

/-- What a call of the process `p` may do, where the system refuses calls or not. -/
def Exec (refuses : Prop) (p : Nat) (k : Segments) (c : ShmCall) (r : ShmAns c) (k' : Segments) : Prop :=
  Done p k c r k' ∨ refuses ∧ Refused c r ∧ k' = k

/-- A segment is removed: its key is free, its memory stays until nobody is attached. -/
inductive Removed : Segments → Segments → Prop
  | key {k : Segments} {key : Int} : Removed k { k with ids := Function.update k.ids key none }
  | gone {k : Segments} {id : Nat} : (∀ key, k.ids key ≠ some id) → (∀ p addr, k.maps p addr ≠ some id) →
      Removed k { k with segs := Function.update k.segs id none }

/-! ## Segments stay in order -/

/-- The numbers of keys and of attached memory are numbers of segments, and numbers are not used twice. -/
structure Wf (k : Segments) : Prop where
  ids : ∀ key id, k.ids key = some id → ∃ seg, k.segs id = some seg ∧ seg.key = key
  segs : ∀ id seg, k.segs id = some seg → id < k.fresh
  maps : ∀ p addr id, k.maps p addr = some id → k.segs id ≠ none
  null : ∀ p, k.maps p 0 = none

variable {k : Segments} {key : Int} {p addr : Nat} {id : Option Nat}

theorem Wf.segs_fresh (h : k.Wf) : k.segs k.fresh = none := by
  cases hs : k.segs k.fresh with
  | none => rfl
  | some seg => exact absurd (h.segs _ seg hs) (Nat.lt_irrefl _)

theorem create_segs (k : Segments) (key : Int) (size i : Nat) : (k.create key size).segs i =
    if i = k.fresh then some ⟨key, size, fun _ => 0⟩ else k.segs i := by
  simp [create, Function.update_apply]

theorem create_ids (hkey : key ≠ ipcPrivate) (k : Segments) (size : Nat) (key' : Int) :
    (k.create key size).ids key' = if key' = key then some k.fresh else k.ids key' := by
  simp [create, hkey, Function.update_apply]

theorem setMap_maps (k : Segments) (p addr : Nat) (id : Option Nat) (q a : Nat) :
    (k.setMap p addr id).maps q a = if q = p ∧ a = addr then id else k.maps q a := by
  by_cases hq : q = p
  · subst hq
    simp [setMap, Function.update_apply]
  · simp [setMap, hq]

theorem Wf.create (h : k.Wf) (hkey : key ≠ ipcPrivate) {size : Nat} : (k.create key size).Wf where
  ids := by
    intro key' i hi
    rw [create_ids hkey] at hi
    rw [create_segs]
    by_cases hk : key' = key
    · rw [if_pos hk] at hi
      obtain rfl := Option.some.inj hi
      exact ⟨_, if_pos rfl, hk.symm⟩
    · rw [if_neg hk] at hi
      obtain ⟨seg, hseg, hsk⟩ := h.ids key' i hi
      have hne : i ≠ k.fresh := Nat.ne_of_lt (h.segs i seg hseg)
      exact ⟨seg, by rw [if_neg hne]; exact hseg, hsk⟩
  segs := by
    intro i seg hi
    rw [create_segs] at hi
    by_cases hf : i = k.fresh
    · rw [hf]
      exact Nat.lt_succ_self _
    · rw [if_neg hf] at hi
      exact Nat.lt_succ_of_lt (h.segs i seg hi)
  maps := by
    intro q a i hm
    rw [create_segs]
    by_cases hf : i = k.fresh
    · rw [if_pos hf]
      simp
    · rw [if_neg hf]
      exact h.maps q a i hm
  null := h.null

theorem Wf.setMap (h : k.Wf) (hid : ∀ i, id = some i → k.segs i ≠ none) (hnull : id ≠ none → addr ≠ 0) :
    (k.setMap p addr id).Wf where
  ids := h.ids
  segs := h.segs
  maps := by
    intro q a i hm
    rw [setMap_maps] at hm
    by_cases hqa : q = p ∧ a = addr
    · rw [if_pos hqa] at hm
      exact hid i hm
    · rw [if_neg hqa] at hm
      exact h.maps q a i hm
  null := by
    intro q
    rw [setMap_maps]
    by_cases hqa : q = p ∧ 0 = addr
    · rw [if_pos hqa]
      by_contra hne
      exact hnull hne hqa.2.symm
    · rw [if_neg hqa]
      exact h.null q

theorem setSeg_segs (k : Segments) (id : Nat) (seg : Segment) (i : Nat) :
    (k.setSeg id seg).segs i = if i = id then some seg else k.segs i := by
  simp [setSeg, Function.update_apply]

theorem Wf.setSeg_bytes {id : Nat} {seg : Segment} (h : k.Wf) (bytes : Buf) (hseg : k.segs id = some seg) :
    (k.setSeg id { seg with bytes := bytes }).Wf where
  ids := by
    intro key' i hi
    obtain ⟨seg', hseg', hkey⟩ := h.ids key' i hi
    rw [setSeg_segs]
    split_ifs with hid
    · subst hid
      obtain rfl := Option.some.inj (hseg.symm.trans hseg')
      exact ⟨_, rfl, hkey⟩
    · exact ⟨seg', hseg', hkey⟩
  segs := by
    intro i seg' hi
    rw [setSeg_segs] at hi
    split_ifs at hi with hid
    · rw [hid]
      exact h.segs id seg hseg
    · exact h.segs i seg' hi
  maps := by
    intro q a i hm
    rw [setSeg_segs]
    split_ifs
    · simp
    · exact h.maps q a i hm
  null := h.null

theorem Wf.removeKey (h : k.Wf) (key : Int) : { k with ids := Function.update k.ids key none }.Wf where
  ids := by
    intro key' i hi
    change Function.update k.ids key none key' = some i at hi
    by_cases hk : key' = key
    · rw [hk, Function.update_self] at hi
      cases hi
    · rw [Function.update_of_ne hk] at hi
      exact h.ids key' i hi
  segs := h.segs
  maps := h.maps
  null := h.null

theorem Wf.removeSeg {id : Nat} (h : k.Wf) (hids : ∀ key, k.ids key ≠ some id)
    (hmaps : ∀ p addr, k.maps p addr ≠ some id) : { k with segs := Function.update k.segs id none }.Wf where
  ids := by
    intro key' i hi
    have hne : i ≠ id := by
      rintro rfl
      exact hids key' hi
    obtain ⟨seg, hseg, hkey⟩ := h.ids key' i hi
    exact ⟨seg, (Function.update_of_ne hne _ _).trans hseg, hkey⟩
  segs := by
    intro i seg hi
    change Function.update k.segs id none i = some seg at hi
    by_cases hid : i = id
    · rw [hid, Function.update_self] at hi
      cases hi
    · rw [Function.update_of_ne hid] at hi
      exact h.segs i seg hi
  maps := by
    intro q a i hm hn
    have hne : i ≠ id := by
      rintro rfl
      exact hmaps q a hm
    exact h.maps q a i hm ((Function.update_of_ne hne _ _).symm.trans hn)
  null := h.null

/-! ### Runs from a fresh system -/

/-- The system before any segment is created. -/
def fresh₀ : Segments where
  segs := fun _ => none
  ids := fun _ => none
  fresh := 0
  maps := fun _ _ => none

theorem wf_fresh₀ : fresh₀.Wf := ⟨nofun, nofun, nofun, fun _ => rfl⟩

end Segments

/-- A run goes on with a call that is not refused. -/
theorem Prog.Steps.done {refuses : Prop} {env : Segments → Segments → Prop} {α : Type}
    {x : (Nat → ShmProg α) × Segments} {progs : Nat → ShmProg α} {k k' : Segments}
    (h : Prog.Steps (Segments.Exec refuses) env x (progs, k)) (p : Nat) {c : ShmCall} {next : ShmAns c → ShmProg α}
    {r : ShmAns c} (hp : progs p = .call c next) (hc : Segments.Done p k c r k') :
    Prog.Steps (Segments.Exec refuses) env x (Function.update progs p (next r), k') :=
  h.tail (.call p hp (.inl hc))

end Taomee
