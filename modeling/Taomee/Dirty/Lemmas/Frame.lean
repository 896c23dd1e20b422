import Taomee.Dirty.Lemmas.Compile
import Taomee.Dirty.TmDirty

/-!
# What a load leaves alone

Building the automaton writes the state table and nothing else, whatever the handle holds; and no load
touches the flag of the handle that it fills.
-/

namespace Taomee.Dirty

variable {fuel : Nat} {a a' : AcsmStruct}

theorem addNewStates_frame (rest : List UInt8) : ∀ {a : AcsmStruct} {s : Int}, Frame a (addNewStates a s rest).1 := by
  induction rest with
  | nil => exact fun {a s} => Frame.refl a
  | cons c rest ih =>
      intro a s
      unfold addNewStates
      dsimp only
      split
      · exact ⟨rfl, rfl, rfl, rfl⟩
      · have hstep : Frame a (({ a with acsmNumStates := a.acsmNumStates + 1 } : AcsmStruct).setNext s c
            (a.acsmNumStates + 1)) := ⟨rfl, rfl, rfl, rfl⟩
        exact hstep.trans ih

theorem addPatternStates_frame (a : AcsmStruct) (i : Int) : Frame a (addPatternStates a i).1 := by
  unfold addPatternStates
  rcases matchExisting a 0 (a.acsmPatterns i).word with ⟨s, rest⟩
  dsimp only
  have h : Frame a (addNewStates a s rest).1 := addNewStates_frame rest
  generalize addNewStates a s rest = added at h ⊢
  obtain ⟨b, s'⟩ := added
  cases s' with
  | none => exact h
  | some s' => exact h.trans (addMatchListEntry_frame b s' i)

theorem addAllPatterns_frame (k : Nat) : ∀ {a : AcsmStruct} {i : Int}, Frame a (addAllPatterns k a i).1 := by
  induction k with
  | zero => exact fun {a i} => Frame.refl a
  | succ k ih =>
      intro a i
      unfold addAllPatterns
      have h := addPatternStates_frame a i
      generalize addPatternStates a i = added at h ⊢
      obtain ⟨b, ret⟩ := added
      dsimp only
      split
      · exact h
      · exact h.trans ih

theorem visitChild_frame {r : Int} {st st' : AcsmStruct × List Int} {x : UInt8} (h : visitChild fuel r st x = some st') :
    Frame st.1 st'.1 := by
  unfold visitChild at h
  dsimp only at h
  split at h
  · cases hf : failLoop st.1 x fuel (st.1.acsmStateTable r).failState with
    | none =>
        rw [hf] at h
        cases h
    | some next =>
        rw [hf] at h
        rw [← Option.some.inj h]
        dsimp only
        split
        · exact (st.1.setFail_frame _ _).trans (addMatchListEntry_frame _ _ _)
        · exact st.1.setFail_frame _ _
  · rw [← Option.some.inj h]
    exact st.1.setNext_frame _ _ _

theorem foldlM_frame {r : Int} (l : List UInt8) : ∀ {st st' : AcsmStruct × List Int},
    l.foldlM (visitChild fuel r) st = some st' → Frame st.1 st'.1 := by
  induction l with
  | nil =>
      intro st st' h
      obtain rfl := Option.some.inj h
      exact Frame.refl _
  | cons x l ih =>
      intro st st' h
      rw [List.foldlM_cons] at h
      cases hv : visitChild fuel r st x with
      | none =>
          rw [hv] at h
          cases h
      | some st₁ =>
          rw [hv] at h
          exact (visitChild_frame hv).trans (ih h)

theorem bfsLoop_frame : ∀ {fuel : Nat} {a : AcsmStruct} {queue : List Int}, bfsLoop fuel a queue = some a' → Frame a a' := by
  intro fuel
  induction fuel with
  | zero =>
      intro a queue h
      cases queue with
      | nil =>
          obtain rfl := Option.some.inj h
          exact Frame.refl _
      | cons r queue => cases h
  | succ fuel ih =>
      intro a queue h
      cases queue with
      | nil =>
          obtain rfl := Option.some.inj h
          exact Frame.refl _
      | cons r queue =>
          unfold bfsLoop at h
          cases hf : alphabet.foldlM (visitChild (fuel + 1) r) (a, queue) with
          | none =>
              rw [hf] at h
              cases h
          | some st =>
              rw [hf] at h
              exact (foldlM_frame alphabet hf).trans (ih h)

theorem queueRootChildren_frame (l : List UInt8) : ∀ {st : AcsmStruct × List Int}, Frame st.1 (l.foldl queueRootChild st).1 := by
  induction l with
  | nil => exact fun {st} => Frame.refl _
  | cons x l ih =>
      intro st
      rw [List.foldl_cons]
      refine Frame.trans ?_ ih
      unfold queueRootChild
      dsimp only
      split
      · exact st.1.setFail_frame _ _
      · exact Frame.refl _

theorem buildDfa_frame (h : buildDfa fuel a = some a') : Frame a a' := by
  unfold buildDfa at h
  have hq := @queueRootChildren_frame alphabet (a, [])
  generalize alphabet.foldl queueRootChild (a, []) = st at h hq
  exact hq.trans (bfsLoop_frame h)

theorem acsmCompile_keeps {ret : Int} (h : acsmCompile fuel a = some (a', ret)) :
    (ret = 0 ∨ ret = -1) ∧ a'.totalPattern = a.totalPattern ∧ a'.flag = a.flag := by
  unfold acsmCompile compileStates at h
  dsimp only at h
  split at h
  · obtain ⟨rfl, rfl⟩ := Prod.mk.inj (Option.some.inj h)
    exact ⟨.inr rfl, rfl, rfl⟩
  · generalize hi : initStates _ = ai at h
    have hinit : ai.totalPattern = a.totalPattern ∧ ai.flag = a.flag := by
      rw [← hi]
      exact ⟨rfl, rfl⟩
    have hadd : Frame ai (addAllPatterns ai.totalPattern.toNat ai 0).1 := addAllPatterns_frame _
    generalize addAllPatterns ai.totalPattern.toNat ai 0 = added at h hadd
    obtain ⟨b, r⟩ := added
    dsimp only at h hadd
    split at h
    · obtain ⟨rfl, rfl⟩ := Prod.mk.inj (Option.some.inj h)
      exact ⟨.inr rfl, hadd.total.trans hinit.1, hadd.flag.trans hinit.2⟩
    · cases hb : buildDfa fuel (closeRoot b) with
      | none =>
          rw [hb] at h
          cases h
      | some d =>
          rw [hb] at h
          obtain ⟨rfl, rfl⟩ := Prod.mk.inj (Option.some.inj h)
          have hbuild := buildDfa_frame hb
          exact ⟨.inl rfl, hbuild.total.trans (hadd.total.trans hinit.1), hbuild.flag.trans (hadd.flag.trans hinit.2)⟩

/-! ## Adding patterns -/

theorem memsetPatrn_flag (a : AcsmStruct) (i off : Int) : (memsetPatrn a i off).flag = a.flag := by
  unfold memsetPatrn
  dsimp only
  split
  · rfl
  · rfl

theorem acsmAddPattern_flag (a : AcsmStruct) (pat : List UInt8) (n : Int) : (acsmAddPattern a pat n).1.flag = a.flag := by
  unfold acsmAddPattern
  split
  · rfl
  · dsimp only
    generalize stringFilter pat _ 0 = filtered
    obtain ⟨d, newN⟩ := filtered
    dsimp only
    split
    · rfl
    · exact memsetPatrn_flag _ _ _

theorem loadLines_flag : ∀ {fuel : Nat} {file : List UInt8} {a : AcsmStruct}, loadLines fuel file a = some a' →
    a'.flag = a.flag := by
  intro fuel
  induction fuel with
  | zero =>
      intro file a h
      cases h
  | succ fuel ih =>
      intro file a h
      unfold loadLines at h
      cases hstep : fileStep file with
      | stop =>
          rw [hstep] at h
          rw [← Option.some.inj h]
      | skip rest =>
          rw [hstep] at h
          exact ih h
      | line dirtyWord rest =>
          rw [hstep] at h
          dsimp only at h
          split at h
          · exact ih h
          · split at h
            · rw [← Option.some.inj h]
              exact acsmAddPattern_flag _ _ _
            · exact (ih h).trans (acsmAddPattern_flag _ _ _)

end Taomee.Dirty
