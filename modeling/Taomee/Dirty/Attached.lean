import Taomee.Dirty.Lemmas.Load

/-!
# Dictionaries in an attached process

An attached process copies the header of index 0 again when the flag differs from the one it has seen,
and never that of index 1. So its copy is out of date when the second dictionary of two has come back
to the same index, or when one has been loaded at index 1 at all.
-/

namespace Taomee.Dirty

variable {fuel : Nat} {content : List UInt8} {shm shm' hs : Handles} {info : Attached}

/-! ## Runs -/

/-- The owner's handles and the copies, with the numbers of loads since the process attached and since
its last call. -/
structure SharedRun where
  shm : Handles
  info : Attached
  sinceAttach : Nat
  sinceCall : Nat

/-- The process attaches. -/
def SharedRun.attach (shm : Handles) : SharedRun where
  shm := shm
  info := attachToDirtyShm shm
  sinceAttach := 0
  sinceCall := 0

/-- A call finds its copy up to date: at index 1 nothing has been loaded since the process attached, and
at index 0 the loads since the last call have changed the flag or there were none. -/
def SharedRun.Timely (s : SharedRun) : Prop :=
  if (s.shm 0).flag = 1 then s.sinceAttach = 0 else s.sinceCall = 0 ∨ s.sinceCall % 2 = 1

/-- The number of words and the words that the process reports are those of the active dictionary. -/
def SharedRun.Agrees (s : SharedRun) : Prop :=
  (tmDirtyWordCount s.shm s.info).2 = s.shm.active.totalPattern ∧
    (tmDirtyListWord s.shm s.info).2 = listPatterns s.shm.active.totalPattern s.shm.active.acsmPatterns

inductive SharedEvent
  | load
  | call

/-- A load by the owner that succeeds, or a call in the attached process. -/
inductive SharedStep : SharedRun → SharedEvent → SharedRun → Prop
  | load {s : SharedRun} {fuel : Nat} {content : List UInt8} {shm' : Handles} :
      tmDirtyLoadNew fuel s.shm (some content) = some (shm', 0) →
      SharedStep s .load { s with shm := shm', sinceAttach := s.sinceAttach + 1, sinceCall := s.sinceCall + 1 }
  | call {s : SharedRun} :
      SharedStep s .call { s with info := (commonRoutine s.shm s.info).1, sinceCall := 0 }

/-- The runs whose calls all meet a condition. -/
inductive SharedRun.RunsTo (Ok : SharedRun → Prop) (start : SharedRun) : SharedRun → Prop
  | refl : RunsTo Ok start start
  | step {s s' : SharedRun} {e : SharedEvent} : RunsTo Ok start s → SharedStep s e s' → (e = .call → Ok s) →
      RunsTo Ok start s'

/-! ## One step -/

/-- The two flags are equal and name a handle. -/
structure FlagsEq (hs : Handles) : Prop where
  ok : FlagOk hs
  eq : (hs 1).flag = (hs 0).flag

theorem FlagsEq.load (h : FlagsEq hs) {hs' : Handles} (hl : tmDirtyLoadNew fuel hs (some content) = some (hs', 0)) :
    FlagsEq hs' ∧ (hs' 0).flag = flip (hs 0).flag := by
  obtain ⟨a, a', -, -, rfl⟩ := tmDirtyLoadNew_ok hl
  have h0 : ((hs.put (flip (hs 0).flag) a').setFlags (flip (hs 0).flag) 0).flag = flip (hs 0).flag := by
    rw [setFlags_eq _ _ (.inl rfl)]
  have h1 : ((hs.put (flip (hs 0).flag) a').setFlags (flip (hs 0).flag) 1).flag = flip (hs 0).flag := by
    rw [setFlags_eq _ _ (.inr rfl)]
  refine ⟨⟨?_, h1.trans h0.symm⟩, h0⟩
  unfold FlagOk
  rw [h0]
  exact h.ok.flip

/-- What holds of the copies in a timely run: the flag that was seen differs from the present one by the
number of loads since, the copy of index 1 is that of the attachment, and the copy of index 0 is right
while the flag was 0 and nothing has been loaded since. -/
structure SharedRun.Inv (s : SharedRun) : Prop where
  flags : FlagsEq s.shm
  flag : (s.info 0).flag = 0 ∨ (s.info 0).flag = 1
  parity : s.sinceCall % 2 = 0 ↔ (s.info 0).flag = (s.shm 0).flag
  attached : s.sinceAttach = 0 → (s.info 1).totalPattern = (s.shm 1).totalPattern
  seen : (s.info 0).flag = 0 → s.sinceCall = 0 → (s.info 0).totalPattern = (s.shm 0).totalPattern

theorem inv_attach (h : FlagsEq shm) : (SharedRun.attach shm).Inv :=
  ⟨h, h.ok, ⟨fun _ => rfl, fun _ => rfl⟩, fun _ => rfl, fun _ _ => rfl⟩

/-- Nothing is copied while the flag is the one that has been seen. -/
theorem commonRoutine_seen (h : (info 0).flag = (shm 0).flag) : commonRoutine shm info = (info, (shm 0).flag) := by
  unfold commonRoutine
  rw [if_neg (not_not.mpr h)]
  dsimp only
  rw [h]

theorem SharedRun.Inv.copied {s : SharedRun} (h : s.Inv) (ht : s.Timely) :
    (commonRoutine s.shm s.info).2 = (s.shm 0).flag ∧
      ((commonRoutine s.shm s.info).1 (s.shm 0).flag).totalPattern = (s.shm (s.shm 0).flag).totalPattern := by
  unfold SharedRun.Timely at ht
  by_cases hseen : (s.info 0).flag = (s.shm 0).flag
  · rw [commonRoutine_seen hseen]
    refine ⟨rfl, ?_⟩
    rcases h.flags.ok with h0 | h1
    · rw [if_neg (by rw [h0]; decide)] at ht
      have hzero : s.sinceCall = 0 := by
        have heven := h.parity.mpr hseen
        omega
      rw [h0] at hseen ⊢
      exact h.seen hseen hzero
    · rw [if_pos h1] at ht
      rw [h1]
      exact h.attached ht
  · unfold commonRoutine
    dsimp only
    rw [if_pos hseen]
    refine ⟨rfl, ?_⟩
    rcases h.flags.ok with h0 | h1
    · rw [h0]
      rfl
    · rw [if_pos h1] at ht
      rw [h1]
      exact h.attached ht

theorem SharedRun.Inv.agrees {s : SharedRun} (h : s.Inv) (ht : s.Timely) : s.Agrees := by
  obtain ⟨hflag, htotal⟩ := h.copied ht
  unfold SharedRun.Agrees tmDirtyWordCount tmDirtyListWord Handles.active
  dsimp only
  rw [hflag, htotal]
  exact ⟨rfl, rfl⟩

theorem SharedRun.Inv.step {s s' : SharedRun} {e : SharedEvent} (h : s.Inv) (hs : SharedStep s e s')
    (ht : e = .call → s.Timely) : s'.Inv := by
  cases hs with
  | load hl =>
      obtain ⟨hflags, hflag⟩ := h.flags.load hl
      refine ⟨hflags, h.flag, ?_, fun h0 => absurd h0 (Nat.succ_ne_zero _), fun _ h0 => absurd h0 (Nat.succ_ne_zero _)⟩
      have hparity := h.parity
      have hseen := h.flag
      have hok := h.flags.ok
      unfold FlagOk at hok
      dsimp only
      rw [hflag]
      unfold flip
      split <;> omega
  | call =>
      obtain ⟨hflag, htotal⟩ := h.copied (ht rfl)
      have hnew : ((commonRoutine s.shm s.info).1 0).flag = (s.shm 0).flag := hflag
      refine ⟨h.flags, ?_, ⟨fun _ => hnew, fun _ => rfl⟩, ?_, fun h0 _ => ?_⟩
      · rw [hnew]
        exact h.flags.ok
      · intro h0
        refine Eq.trans ?_ (h.attached h0)
        unfold commonRoutine
        dsimp only
        split
        · rfl
        · rfl
      · rw [hnew] at h0
        rw [h0] at htotal
        exact htotal

theorem SharedRun.RunsTo.inv {start s : SharedRun} (hstart : start.Inv) (h : start.RunsTo SharedRun.Timely s) : s.Inv := by
  induction h with
  | refl => exact hstart
  | step _ hs ht ih => exact ih.step hs ht

/-! ## Runs with timely calls -/

/-- In every run whose calls are timely, a timely call reports the active dictionary. -/
theorem agrees_of_timely (shm : Handles) (h : FlagsEq shm) (s : SharedRun)
    (hrun : (SharedRun.attach shm).RunsTo SharedRun.Timely s) (ht : s.Timely) : s.Agrees :=
  (hrun.inv (inv_attach h)).agrees ht

/-! ## Two files -/

/-- "AB" alone. -/
def fileAB : List UInt8 := [0x41, 0x42, newline]

/-- "AB" and "CD". -/
def fileABCD : List UInt8 := fileAB ++ [0x43, 0x44, newline]

theorem cleanFile_fileAB : CleanFile fileAB := .line rfl (by decide) (.stop rfl)

theorem cleanFile_fileABCD : CleanFile fileABCD := .line rfl (by decide) (.line rfl (by decide) (.stop rfl))

theorem load_fileAB (hs : Handles) (hf : FlagOk hs) :
    ∃ hs', tmDirtyLoadNew 10 hs (some fileAB) = some (hs', 0) ∧ hs'.active.totalPattern = 1 := by
  obtain ⟨hs', hl, hcomp⟩ := @tmDirtyLoadNew_compiled 10 fileAB hs [[0x41, 0x42]] hf cleanFile_fileAB
    (by decide +kernel) (by decide) (by decide)
  exact ⟨hs', hl, hcomp.words.total⟩

theorem load_fileABCD (hs : Handles) (hf : FlagOk hs) :
    ∃ hs', tmDirtyLoadNew 10 hs (some fileABCD) = some (hs', 0) ∧ hs'.active.totalPattern = 2 := by
  obtain ⟨hs', hl, hcomp⟩ := @tmDirtyLoadNew_compiled 10 fileABCD hs [[0x41, 0x42], [0x43, 0x44]] hf
    cleanFile_fileABCD (by decide +kernel) (by decide) (by decide)
  exact ⟨hs', hl, hcomp.words.total⟩

theorem flagsEq_newHandles : FlagsEq newHandles := ⟨flagOk_newHandles, rfl⟩

/-- A process that attaches to the first dictionary and sees the second one. -/
theorem agrees_of_timely_second : ∃ shm s, (SharedRun.attach shm).RunsTo SharedRun.Timely s ∧
    s.shm.active.totalPattern = 2 ∧ s.Agrees := by
  obtain ⟨shm, hl, -⟩ := load_fileAB newHandles flagOk_newHandles
  obtain ⟨hflags, hflag⟩ := flagsEq_newHandles.load hl
  obtain ⟨shm', hl', htotal⟩ := load_fileABCD shm hflags.ok
  obtain ⟨-, hflag'⟩ := hflags.load hl'
  have hrun : (SharedRun.attach shm).RunsTo SharedRun.Timely
      { shm := shm', info := attachToDirtyShm shm, sinceAttach := 1, sinceCall := 1 } :=
    .step .refl (.load hl') fun h => nomatch h
  have ht : SharedRun.Timely { shm := shm', info := attachToDirtyShm shm, sinceAttach := 1, sinceCall := 1 } := by
    unfold SharedRun.Timely
    dsimp only
    rw [hflag', hflag]
    decide
  exact ⟨shm, _, hrun, htotal, agrees_of_timely shm hflags _ hrun ht⟩

/-- After two more loads the process still reports the number of words of the dictionary it attached to. -/
theorem not_agrees : ¬ ∀ (shm : Handles) (s : SharedRun), FlagsEq shm →
    (SharedRun.attach shm).RunsTo (fun _ => True) s → s.Agrees := by
  intro h
  obtain ⟨shm, hl, hone⟩ := load_fileAB newHandles flagOk_newHandles
  obtain ⟨hflags, hflag⟩ := flagsEq_newHandles.load hl
  obtain ⟨shm', hl', -⟩ := load_fileABCD shm hflags.ok
  obtain ⟨hflags', hflag'⟩ := hflags.load hl'
  obtain ⟨shm'', hl'', htwo⟩ := load_fileABCD shm' hflags'.ok
  obtain ⟨-, hflag''⟩ := hflags'.load hl''
  have hrun : (SharedRun.attach shm).RunsTo (fun _ => True)
      { shm := shm'', info := attachToDirtyShm shm, sinceAttach := 2, sinceCall := 2 } :=
    .step (.step .refl (.load hl') fun _ => trivial) (.load hl'') fun _ => trivial
  have hone' : (shm 0).flag = 1 := hflag
  have htwo' : (shm'' 0).flag = 1 := by
    rw [hflag'', hflag', hone']
    decide
  have hcount := (h shm _ hflags hrun).1
  dsimp only at hcount
  rw [htwo] at hcount
  unfold tmDirtyWordCount at hcount
  rw [@commonRoutine_seen shm'' (attachToDirtyShm shm) (hone'.trans htwo'.symm)] at hcount
  dsimp only at hcount
  have hone'' : (attachToDirtyShm shm (shm'' 0).flag).totalPattern = 1 := by
    rw [htwo'.trans hone'.symm]
    exact hone
  rw [hone''] at hcount
  exact absurd hcount (by decide)

end Taomee.Dirty
