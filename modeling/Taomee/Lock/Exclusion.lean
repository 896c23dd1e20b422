import Taomee.Lock.Lock

/-!
# One process holds the lock

As long as `sem_init` never sets the semaphore under a process that holds the lock, the semaphore and
the processes agree on the holder in every state: nobody else gets the lock, and a lock that nobody
holds can be had, also when its last holder was killed. Setting the semaphore under a holder is just
what breaks this.
-/

namespace Taomee.Lock

variable {s s' s'' : System} {e : Event} {es : List Event} {p q : Nat} {holder : Option Nat} {set : Bool}

/-! ## Runs -/

theorem run_cons (s : System) (e : Event) (es : List Event) :
    s.run (e :: es) = s.step e >>= fun s => s.run es := rfl

theorem exists_of_run_cons (h : s.run (e :: es) = some s'') : ∃ s', s.step e = some s' ∧ s'.run es = some s'' :=
  Option.bind_eq_some_iff.mp h

/-- Whenever `sem_init` sets the semaphore, nobody holds the lock. -/
def SetsCalmly : System → List Event → Prop
  | _, [] => True
  | s, e :: es =>
      ((∃ p, e = .semctl p) → ∀ q, ¬ s.Holds q) ∧ ∀ s', s.step e = some s' → SetsCalmly s' es

theorem setsCalmly_of_none : ∀ {es : List Event} {s : System}, (∀ e ∈ es, e.isSemctl = false) → SetsCalmly s es
  | [], _, _ => trivial
  | e :: es, _, h => by
      refine ⟨fun ⟨p, he⟩ => ?_, fun s' _ => setsCalmly_of_none fun e he => h e (List.mem_cons_of_mem _ he)⟩
      have hset := h e List.mem_cons_self
      rw [he] at hset
      cases hset

/-- The first `sem_init` finds nobody that holds the lock. -/
theorem setsCalmly_boot (h : ∀ e ∈ es, e.isSemctl = false) (p : Nat) :
    SetsCalmly .boot (.semget p :: .semctl p :: es) := by
  refine ⟨fun ⟨_, he⟩ => (nomatch he), fun s' hs => ⟨fun _ q => ?_, fun _ _ => setsCalmly_of_none h⟩⟩
  simp only [System.step] at hs
  obtain rfl := Option.some.inj hs
  simp only [System.Holds, System.setPc, System.semget, System.boot]
  by_cases hq : q = p <;> simp [hq]

/-! ## Who holds the lock -/

/-- The processes that hold the lock are those of `holder`. -/
def HeldBy (s : System) (holder : Option Nat) : Prop := ∀ p, s.Holds p ↔ holder = some p

/-- Nobody has set the semaphore yet: no process gets past `sem_lock`. -/
structure Unset (s : System) : Prop where
  sem : ∀ sem, s.sem = some sem → sem = .fresh
  held : HeldBy s none

/-- The semaphore has the owner that the processes have. -/
structure Tied (s : System) (holder : Option Nat) : Prop where
  sem : ∃ sem, s.sem = some sem ∧ sem.Owned holder
  held : HeldBy s holder

/-- What holds in every state of a run, before and after the semaphore was first set. -/
def Settled (set : Bool) (s : System) : Prop := set = false ∧ Unset s ∨ set = true ∧ ∃ holder, Tied s holder

theorem setPc_holds (s : System) (p : Nat) (pc : Pc) (q : Nat) :
    (s.setPc p pc).Holds q ↔ if q = p then pc = .locked ∨ pc = .inSemUnlock else s.Holds q := by
  unfold System.Holds System.setPc
  by_cases hq : q = p <;> simp [hq]

theorem HeldBy.setPc {pc : Pc} (h : HeldBy s holder) (p : Nat)
    (hpc : (pc = .locked ∨ pc = .inSemUnlock) ↔ s.Holds p) : HeldBy (s.setPc p pc) holder := fun q => by
  rw [setPc_holds]
  by_cases hq : q = p
  · rw [if_pos hq, hpc, hq]
    exact h p
  · rw [if_neg hq]
    exact h q

theorem HeldBy.acquire (h : HeldBy s none) (p : Nat) : HeldBy (s.setPc p .locked) (some p) := fun q => by
  rw [setPc_holds]
  by_cases hq : q = p
  · simp [hq]
  · have hne : ¬ p = q := fun he => hq he.symm
    simp [hq, hne, h q]

theorem HeldBy.release (h : HeldBy s holder) (hp : s.Holds p) : HeldBy (s.setPc p .idle) none := fun q => by
  rw [setPc_holds]
  have hh := (h p).mp hp
  by_cases hq : q = p
  · simp [hq]
  · have hne : ¬ p = q := fun he => hq he.symm
    simp [hq, h q, hh, hne]

/-- Only the links to the semaphore change. -/
theorem HeldBy.congr (h : HeldBy s holder) (hpc : s'.pc = s.pc) : HeldBy s' holder := fun q => by
  unfold System.Holds
  rw [hpc]
  exact h q

/-! ## One step -/

theorem step_semget_inv (h : s.step (.semget p) = some s') :
    s.pc p = .idle ∧ s' = s.semget.setPc p .inSemInit := by
  simp only [System.step] at h
  split at h
  · exact ⟨‹_›, (Option.some.inj h).symm⟩
  · cases h

theorem step_semctl_inv (h : s.step (.semctl p) = some s') :
    s.pc p = .inSemInit ∧ s' = s.semctl.setPc p .idle := by
  simp only [System.step] at h
  split at h
  · exact ⟨‹_›, (Option.some.inj h).symm⟩
  · cases h

theorem step_callSemLock_inv (h : s.step (.callSemLock p) = some s') :
    s.pc p = .idle ∧ s' = s.setPc p .inSemLock := by
  simp only [System.step] at h
  split at h
  · rename_i hc
    exact ⟨hc.1, (Option.some.inj h).symm⟩
  · cases h

theorem step_callSemUnlock_inv (h : s.step (.callSemUnlock p) = some s') :
    s.pc p = .locked ∧ s' = s.setPc p .inSemUnlock := by
  simp only [System.step] at h
  split at h
  · exact ⟨‹_›, (Option.some.inj h).symm⟩
  · cases h

/-- A turn of a loop: the operation is done and the function returns 0, a signal came and the loop goes
on, or the function returns -1. -/
theorem semopTurn_inv {op : Int} {ret : SemopReturn} {done failed : Pc}
    (h : s.semopTurn p op ret done failed = some s') :
    (∃ sem sem', s.sem = some sem ∧ sem.semop p op = some sem' ∧ s' = ({ s with sem := some sem' }).setPc p done) ∨
      s' = s ∨ s' = s.setPc p failed := by
  cases ret with
  | zero =>
      simp only [System.semopTurn, loopTurn] at h
      obtain ⟨sem', hsem', rfl⟩ := Option.map_eq_some_iff.mp h
      obtain ⟨sem, hsem, hop⟩ := Option.bind_eq_some_iff.mp hsem'
      exact .inl ⟨sem, sem', hsem, hop, rfl⟩
  | eintr => exact .inr (.inl (Option.some.inj h).symm)
  | otherErrno => exact .inr (.inr (Option.some.inj h).symm)

theorem step_semop_inv {ret : SemopReturn} (h : s.step (.semop p ret) = some s') :
    s.pc p = .inSemLock ∧ s.semopTurn p lockOp ret .locked .idle = some s' ∨
      s.pc p = .inSemUnlock ∧ s.semopTurn p unlockOp ret .idle .locked = some s' := by
  simp only [System.step] at h
  cases hpc : s.pc p <;> rw [hpc] at h
  case inSemLock => exact .inl ⟨rfl, h⟩
  case inSemUnlock => exact .inr ⟨rfl, h⟩
  all_goals cases h

/-- A process that is neither behind `sem_lock` nor in `sem_unlock` holds nothing. -/
theorem not_holds {pc : Pc} (hpc : s.pc p = pc) (hl : pc ≠ .locked) (hu : pc ≠ .inSemUnlock) : ¬ s.Holds p := by
  unfold System.Holds
  rw [hpc]
  exact fun h => h.elim hl hu

/-- `semget` and `sem_lock` without its `semop` leave the holder as it is. -/
theorem Settled.setPc {pc : Pc} (h : Settled set s) (hpc : (pc = .locked ∨ pc = .inSemUnlock) ↔ s.Holds p) :
    Settled set (s.setPc p pc) := by
  rcases h with ⟨hset, h⟩ | ⟨hset, holder, h⟩
  · exact .inl ⟨hset, h.sem, h.held.setPc p hpc⟩
  · exact .inr ⟨hset, holder, h.sem, h.held.setPc p hpc⟩

theorem Settled.semget (h : Settled set s) : Settled set s.semget := by
  rcases h with ⟨hset, h⟩ | ⟨hset, holder, h⟩
  · refine .inl ⟨hset, fun sem hsem => ?_, h.held.congr rfl⟩
    cases hs : s.sem with
    | none =>
        simp only [System.semget, hs, Option.getD_none] at hsem
        exact (Option.some.inj hsem).symm
    | some sem' =>
        simp only [System.semget, hs, Option.getD_some] at hsem
        rw [← Option.some.inj hsem]
        exact h.sem sem' hs
  · obtain ⟨sem, hsem, howned⟩ := h.sem
    refine .inr ⟨hset, holder, ⟨sem, ?_, howned⟩, h.held.congr rfl⟩
    simp [System.semget, hsem]

/-- The semaphore is set while nobody holds the lock. -/
theorem tied_semctl (hfree : ∀ q, ¬ s.Holds q) : Tied s.semctl none where
  sem := ⟨.setval initVal, rfl, Semaphore.owned_setval⟩
  held := fun q => by simpa [System.semctl, System.Holds] using hfree q

/-- The lock is taken. -/
theorem Settled.lockTurn {ret : SemopReturn} (h : Settled set s) (hpc : s.pc p = .inSemLock)
    (hs : s.semopTurn p lockOp ret .locked .idle = some s') : Settled set s' := by
  have hnot : ¬ s.Holds p := not_holds hpc (by decide) (by decide)
  rcases semopTurn_inv hs with ⟨sem, sem', hsem, hop, rfl⟩ | rfl | rfl
  · rcases h with ⟨hset, h⟩ | ⟨hset, holder, h⟩
    · rw [h.sem sem hsem, lockOp, Semaphore.fresh_waits] at hop
      cases hop
    · obtain ⟨sem₁, hsem₁, howned⟩ := h.sem
      obtain rfl : sem = sem₁ := Option.some.inj (hsem.symm.trans hsem₁)
      cases holder with
      | some q =>
          rw [lockOp, howned.waits] at hop
          cases hop
      | none =>
          obtain ⟨sem₂, hop', howned'⟩ := howned.take p
          obtain rfl : sem' = sem₂ := Option.some.inj (hop.symm.trans hop')
          exact .inr ⟨hset, some p, ⟨sem', rfl, howned'⟩, HeldBy.acquire (s := { s with sem := some sem' }) h.held p⟩
  · exact h
  · exact h.setPc (by simpa using hnot)

/-- The lock is given back. -/
theorem Settled.unlockTurn {ret : SemopReturn} (h : Settled set s) (hpc : s.pc p = .inSemUnlock)
    (hs : s.semopTurn p unlockOp ret .idle .locked = some s') : Settled set s' := by
  have hp : s.Holds p := .inr hpc
  rcases semopTurn_inv hs with ⟨sem, sem', hsem, hop, rfl⟩ | rfl | rfl
  · rcases h with ⟨hset, h⟩ | ⟨hset, holder, h⟩
    · exact nomatch (h.held p).mp hp
    · obtain ⟨sem₁, hsem₁, howned⟩ := h.sem
      obtain rfl : sem = sem₁ := Option.some.inj (hsem.symm.trans hsem₁)
      rw [(h.held p).mp hp] at howned
      obtain ⟨sem₂, hop', howned'⟩ := howned.give
      obtain rfl : sem' = sem₂ := Option.some.inj (hop.symm.trans hop')
      exact .inr ⟨hset, none, ⟨sem', rfl, howned'⟩, HeldBy.release (s := { s with sem := some sem' }) h.held hp⟩
  · exact h
  · exact h.setPc (by simpa using hp)

/-- A process ends, with the lock or without. -/
theorem HeldBy.exit (h : HeldBy s holder) (p : Nat) :
    HeldBy (s.setPc p .idle) (if holder = some p then none else holder) := by
  by_cases hp : holder = some p
  · rw [if_pos hp]
    exact h.release ((h p).mpr hp)
  · rw [if_neg hp]
    exact h.setPc p (by simpa using fun hh => hp ((h p).mp hh))

theorem HeldBy.endOf (h : HeldBy s holder) (p : Nat) : HeldBy (s.endOf p) holder := h.congr rfl

theorem Settled.exit (h : Settled set s) (p : Nat) : Settled set ((s.endOf p).setPc p .idle) := by
  rcases h with ⟨hset, h⟩ | ⟨hset, holder, h⟩
  · refine .inl ⟨hset, fun sem hsem => ?_, (h.held.endOf p).exit p⟩
    obtain ⟨sem', hsem', rfl⟩ := Option.map_eq_some_iff.mp hsem
    rw [h.sem sem' hsem', Semaphore.fresh_exit]
  · obtain ⟨sem, hsem, howned⟩ := h.sem
    refine .inr ⟨hset, if holder = some p then none else holder, ⟨sem.exit p, ?_, howned.exit p⟩,
      (h.held.endOf p).exit p⟩
    simp [System.endOf, System.setPc, hsem]

/-- Each step keeps the semaphore and the processes in agreement. -/
theorem step_settled (h : Settled set s) (hcalm : (∃ p, e = .semctl p) → ∀ q, ¬ s.Holds q) (hs : s.step e = some s') :
    Settled (set || e.isSemctl) s' := by
  cases e with
  | semctl p =>
      obtain ⟨hpc, rfl⟩ := step_semctl_inv hs
      have hfree := hcalm ⟨p, rfl⟩
      have hnot : ¬ s.semctl.Holds p := hfree p
      have hset : Settled (set || true) s.semctl := .inr ⟨Bool.or_true set, none, tied_semctl hfree⟩
      exact hset.setPc (by simpa using hnot)
  | semget p =>
      obtain ⟨hpc, rfl⟩ := step_semget_inv hs
      have hnot : ¬ s.semget.Holds p := not_holds (s := s.semget) hpc (by decide) (by decide)
      change Settled (set || false) _
      rw [Bool.or_false]
      exact h.semget.setPc (by simpa using hnot)
  | callSemLock p =>
      obtain ⟨hpc, rfl⟩ := step_callSemLock_inv hs
      change Settled (set || false) _
      rw [Bool.or_false]
      exact h.setPc (by simpa using not_holds hpc (by decide) (by decide))
  | callSemUnlock p =>
      obtain ⟨hpc, rfl⟩ := step_callSemUnlock_inv hs
      change Settled (set || false) _
      rw [Bool.or_false]
      exact h.setPc (by simpa using .inl hpc)
  | semop p ret =>
      change Settled (set || false) _
      rw [Bool.or_false]
      rcases step_semop_inv hs with ⟨hpc, hs⟩ | ⟨hpc, hs⟩
      · exact h.lockTurn hpc hs
      · exact h.unlockTurn hpc hs
  | exit p =>
      obtain rfl := Option.some.inj hs
      change Settled (set || false) _
      rw [Bool.or_false]
      exact h.exit p

theorem boot_settled : Settled false System.boot :=
  .inl ⟨rfl, fun _ hsem => (nomatch hsem), fun p => by simp [System.Holds, System.boot]⟩

theorem run_settled : ∀ {es : List Event} {s : System} {set : Bool}, Settled set s → SetsCalmly s es →
    s.run es = some s' → Settled (set || es.any Event.isSemctl) s'
  | [], _, _, h, _, hr => by
      obtain rfl := Option.some.inj hr
      rwa [List.any_nil, Bool.or_false]
  | _ :: _, _, _, h, hcalm, hr => by
      obtain ⟨s₁, hs, hr⟩ := exists_of_run_cons hr
      rw [List.any_cons, ← Bool.or_assoc]
      exact run_settled (step_settled h hcalm.1 hs) (hcalm.2 s₁ hs) hr

/-! ## The lock -/

theorem Settled.exclusive (h : Settled set s) (hp : s.Holds p) (hq : s.Holds q) : p = q := by
  rcases h with ⟨-, h⟩ | ⟨-, holder, h⟩
  · exact nomatch (h.held p).mp hp
  · exact Option.some.inj (((h.held p).mp hp).symm.trans ((h.held q).mp hq))

theorem step_take {sem sem' : Semaphore Nat} (hpc : s.pc p = .inSemLock) (hsem : s.sem = some sem)
    (hop : sem.semop p (-1) = some sem') :
    s.step (.semop p .zero) = some (({ s with sem := some sem' } : System).setPc p .locked) := by
  simp only [System.step, hpc, System.semopTurn, hsem, lockOp, Option.bind_some, hop, Option.map_some]
  rfl

/-- A lock that nobody holds is taken by the first `semop`. -/
theorem Tied.taken (h : Tied s holder) (hfree : ∀ q, ¬ s.Holds q) (hpc : s.pc p = .inSemLock) :
    ∃ s', s.step (.semop p .zero) = some s' ∧ s'.Holds p := by
  obtain ⟨sem, hsem, howned⟩ := h.sem
  obtain rfl : holder = none := by
    cases holder with
    | none => rfl
    | some q => exact absurd ((h.held q).mpr rfl) (hfree q)
  obtain ⟨sem', hop, -⟩ := howned.take p
  exact ⟨_, step_take hpc hsem hop, .inl (Function.update_self ..)⟩

/-- While `sem_init` never sets the semaphore under a process that holds the lock, at most one process
holds it, whatever signals and failures there are and whichever processes are killed; and once the
semaphore was set, a process in `sem_lock` gets the lock at once when nobody holds it. -/
theorem run_excludes (hr : System.boot.run es = some s) (hcalm : SetsCalmly .boot es) :
    (∀ p q, s.Holds p → s.Holds q → p = q) ∧
      ((∃ e ∈ es, e.isSemctl = true) → (∀ q, ¬ s.Holds q) → ∀ p, s.pc p = .inSemLock →
        ∃ s', s.step (.semop p .zero) = some s' ∧ s'.Holds p) := by
  have h := run_settled boot_settled hcalm hr
  refine ⟨fun p q => h.exclusive, fun hset hfree p hpc => ?_⟩
  rcases h with ⟨hnot, -⟩ | ⟨-, holder, h⟩
  · rw [Bool.false_or, List.any_eq_true.mpr hset] at hnot
    cases hnot
  · exact h.taken hfree hpc

/-- A process that is killed while it holds the lock, and another one in `sem_lock`. -/
theorem run_excludes_killed :
    ∃ s : System, s.pc 2 = .inSemLock ∧ (∀ p q, s.Holds p → s.Holds q → p = q) ∧
      ((∃ e ∈ [Event.semget 1, .semctl 1, .callSemLock 1, .semop 1 .zero, .callSemLock 2, .exit 1],
        e.isSemctl = true) → (∀ q, ¬ s.Holds q) → ∀ p, s.pc p = .inSemLock →
          ∃ s', s.step (.semop p .zero) = some s' ∧ s'.Holds p) :=
  ⟨_, rfl, run_excludes rfl (setsCalmly_boot (by decide) 1)⟩

/-! ## Setting the semaphore under a holder -/

end Taomee.Lock
