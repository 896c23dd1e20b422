import Taomee.Dirty.TmDirty
import Taomee.Dirty.Search

/-!
# What a load leaves

The patterns that a file puts into a handle without patterns depend on the file alone, and so does
whether the compile succeeds. The fuel only decides whether there is a result.
-/

namespace Taomee.Dirty

open Taomee.Words

variable {fuel fuel' : Nat} {file content dirtyWord rest : List UInt8} {a a' : AcsmStruct} {hs hs' : Handles}
  {W W' : List (List UInt8)}

/-! ## Fuel -/

theorem failLoop_mono {c : UInt8} {s : Int} : ∀ {fuel fuel' : Nat} {fs : Int}, failLoop a c fuel fs = some s →
    fuel ≤ fuel' → failLoop a c fuel' fs = some s := by
  intro fuel
  induction fuel with
  | zero =>
      intro fuel' fs h
      cases h
  | succ fuel ih =>
      intro fuel' fs h hle
      obtain ⟨fuel'', rfl⟩ := Nat.exists_eq_succ_of_ne_zero (Nat.ne_zero_of_lt hle)
      unfold failLoop at h ⊢
      dsimp only at h ⊢
      split at h
      · rename_i hfail
        rw [if_pos hfail]
        exact ih h (Nat.le_of_succ_le_succ hle)
      · rename_i hnext
        rw [if_neg hnext]
        exact h

theorem visitChild_mono {r : Int} {st st' : AcsmStruct × List Int} {c : UInt8} (h : visitChild fuel r st c = some st')
    (hle : fuel ≤ fuel') : visitChild fuel' r st c = some st' := by
  unfold visitChild at h ⊢
  dsimp only at h ⊢
  split at h
  · rename_i hs
    rw [if_pos hs]
    cases hf : failLoop st.1 c fuel (st.1.acsmStateTable r).failState with
    | none =>
        rw [hf] at h
        cases h
    | some next =>
        rw [hf] at h
        rw [failLoop_mono hf hle]
        exact h
  · rename_i hs
    rw [if_neg hs]
    exact h

theorem foldlM_mono {r : Int} (l : List UInt8) : ∀ {st st' : AcsmStruct × List Int},
    l.foldlM (visitChild fuel r) st = some st' → fuel ≤ fuel' → l.foldlM (visitChild fuel' r) st = some st' := by
  induction l with
  | nil => exact fun h _ => h
  | cons c l ih =>
      intro st st' h hle
      rw [List.foldlM_cons] at h ⊢
      cases hv : visitChild fuel r st c with
      | none =>
          rw [hv] at h
          cases h
      | some st₁ =>
          rw [hv] at h
          rw [visitChild_mono hv hle]
          exact ih h hle

theorem bfsLoop_mono : ∀ {fuel fuel' : Nat} {a : AcsmStruct} {queue : List Int}, bfsLoop fuel a queue = some a' →
    fuel ≤ fuel' → bfsLoop fuel' a queue = some a' := by
  intro fuel
  induction fuel with
  | zero =>
      intro fuel' a queue h _
      cases queue with
      | nil =>
          unfold bfsLoop at h ⊢
          exact h
      | cons r queue => cases h
  | succ fuel ih =>
      intro fuel' a queue h hle
      obtain ⟨fuel'', rfl⟩ := Nat.exists_eq_succ_of_ne_zero (Nat.ne_zero_of_lt hle)
      cases queue with
      | nil =>
          unfold bfsLoop at h ⊢
          exact h
      | cons r queue =>
          unfold bfsLoop at h ⊢
          cases hf : alphabet.foldlM (visitChild (fuel + 1) r) (a, queue) with
          | none =>
              rw [hf] at h
              cases h
          | some st =>
              rw [hf] at h
              rw [foldlM_mono alphabet hf hle]
              exact ih h (Nat.le_of_succ_le_succ hle)

theorem buildDfa_mono {a : AcsmStruct} (h : buildDfa fuel a = some a') (hle : fuel ≤ fuel') :
    buildDfa fuel' a = some a' := by
  unfold buildDfa at h ⊢
  generalize alphabet.foldl queueRootChild (a, []) = st at h ⊢
  exact bfsLoop_mono h hle

theorem compileStates_mono {a : AcsmStruct} {r : AcsmStruct × Int} (h : compileStates fuel a = some r)
    (hle : fuel ≤ fuel') : compileStates fuel' a = some r := by
  unfold compileStates at h ⊢
  generalize addAllPatterns a.totalPattern.toNat a 0 = added at h ⊢
  obtain ⟨b, ret⟩ := added
  dsimp only at h ⊢
  split at h
  · rename_i hret
    rw [if_pos hret]
    exact h
  · rename_i hret
    rw [if_neg hret]
    cases hb : buildDfa fuel (closeRoot b) with
    | none =>
        rw [hb] at h
        cases h
    | some c =>
        rw [hb] at h
        rw [buildDfa_mono hb hle]
        exact h

/-- More fuel does not change the result of a compile. -/
theorem acsmCompile_mono {r : AcsmStruct × Int} (h : acsmCompile fuel a = some r) (hle : fuel ≤ fuel') :
    acsmCompile fuel' a = some r := by
  unfold acsmCompile at h ⊢
  dsimp only at h ⊢
  split at h
  · rename_i hmax
    rw [if_pos hmax]
    exact h
  · rename_i hmax
    rw [if_neg hmax]
    exact compileStates_mono h hle

/-! ## The words of a file -/

/-- The loop of `tm_dirty_load_new` on a list of stored words in place of a handle. -/
def fileWords : Nat → List UInt8 → List (List UInt8) → Option (List (List UInt8))
  | 0, _, _ => none
  | fuel + 1, file, W =>
      match fileStep file with
      | .stop => some W
      | .skip rest => fileWords fuel rest W
      | .line dirtyWord rest =>
          if dirtyLen dirtyWord = 0 then fileWords fuel rest W
          else if W.length ≥ 81920 then some W
          else fileWords fuel rest (W ++ [storedWord (dirtyWord.take (dirtyLen dirtyWord).toNat)].filter fun w => w ≠ [])

/-- The line is read as a word of the dictionary. -/
inductive ReadLine : List UInt8 → List UInt8 → Prop
  | here {file dirtyWord rest : List UInt8} : fileStep file = .line dirtyWord rest → ReadLine file dirtyWord
  | skip {file dirtyWord rest : List UInt8} : fileStep file = .skip rest → ReadLine rest dirtyWord →
      ReadLine file dirtyWord
  | next {file line dirtyWord rest : List UInt8} : fileStep file = .line line rest → ReadLine rest dirtyWord →
      ReadLine file dirtyWord

/-- No line has a negative length: none begins with a NUL, and none is too long for an `int`. -/
def CleanFile (file : List UInt8) : Prop := ∀ dirtyWord, ReadLine file dirtyWord → 0 ≤ dirtyLen dirtyWord

theorem CleanFile.stop (hstep : fileStep file = .stop) : CleanFile file := by
  intro w hw
  cases hw with
  | here h =>
      rw [hstep] at h
      cases h
  | skip h _ =>
      rw [hstep] at h
      cases h
  | next h _ =>
      rw [hstep] at h
      cases h

theorem CleanFile.line (hstep : fileStep file = .line dirtyWord rest) (h0 : 0 ≤ dirtyLen dirtyWord)
    (hrest : CleanFile rest) : CleanFile file := by
  intro w hw
  cases hw with
  | here h =>
      rw [hstep] at h
      cases h
      exact h0
  | skip h _ =>
      rw [hstep] at h
      cases h
  | next h hw =>
      rw [hstep] at h
      cases h
      exact hrest w hw

theorem toI32_natCast_le {n : Nat} (h : 0 ≤ toI32 n) : toI32 n ≤ n := by
  unfold toI32 at h ⊢
  rw [Int.bmod_def] at h ⊢
  split at h <;> split <;> omega

theorem dirtyLen_le (h : 0 ≤ dirtyLen dirtyWord) : dirtyLen dirtyWord ≤ dirtyWord.length := by
  unfold dirtyLen at h ⊢
  dsimp only at h ⊢
  have hs : (dirtyWord.takeWhile fun c => decide (c ≠ 0)).length ≤ dirtyWord.length :=
    (List.takeWhile_prefix _).length_le
  generalize dirtyWord.takeWhile (fun c => decide (c ≠ 0)) = s at h hs ⊢
  split at h
  · rename_i htab
    have hle : (s.takeWhile fun c => decide (c ≠ tab)).length ≤ s.length := (List.takeWhile_prefix _).length_le
    rw [if_pos htab]
    have := toI32_natCast_le h
    omega
  · rename_i htab
    rw [if_neg htab]
    cases s with
    | nil => exact absurd h (by decide)
    | cons c s =>
        have hcast : (((c :: s).length : Nat) : Int) - 1 = ((s.length : Nat) : Int) := by
          rw [List.length_cons]
          omega
        rw [hcast] at h ⊢
        have := toI32_natCast_le h
        rw [List.length_cons] at hs
        omega

theorem length_append_filter_le (W : List (List UInt8)) (w : List UInt8) :
    (W ++ [w].filter fun w => w ≠ []).length ≤ W.length + 1 := by
  have := List.length_filter_le (fun w : List UInt8 => decide (w ≠ [])) [w]
  rw [List.length_append]
  simp only [List.length_singleton] at this
  omega

/-- The loop on a handle does to its patterns what the loop on words does. -/
theorem loadLines_words (fuel : Nat) : ∀ {file : List UInt8} {a : AcsmStruct} {W : List (List UInt8)},
    HasWords a W → W.length ≤ 81920 → CleanFile file →
    (fileWords fuel file W = none ∧ loadLines fuel file a = none) ∨
      ∃ W' a', fileWords fuel file W = some W' ∧ loadLines fuel file a = some a' ∧ HasWords a' W' ∧ a'.flag = a.flag := by
  induction fuel with
  | zero => exact fun _ _ _ => .inl ⟨rfl, rfl⟩
  | succ fuel ih =>
      intro file a W hW hlen hclean
      unfold fileWords loadLines
      cases hstep : fileStep file with
      | stop => exact .inr ⟨W, a, rfl, rfl, hW, rfl⟩
      | skip rest => exact ih hW hlen fun w hw => hclean w (.skip hstep hw)
      | line dirtyWord rest =>
          have hrest : CleanFile rest := fun w hw => hclean w (.next hstep hw)
          have h0 := hclean dirtyWord (.here hstep)
          dsimp only
          by_cases hzero : dirtyLen dirtyWord = 0
          · rw [if_pos hzero, if_pos hzero]
            exact ih hW hlen hrest
          rw [if_neg hzero, if_neg hzero]
          by_cases hfull : W.length ≥ 81920
          · have hadd : acsmAddPattern a dirtyWord (dirtyLen dirtyWord) = (a, -1) := by
              unfold acsmAddPattern
              exact if_pos (by rw [hW.total]; unfold maxPatterns; omega)
            rw [if_pos hfull, hadd]
            exact .inr ⟨W, a, rfl, rfl, hW, rfl⟩
          · obtain ⟨hret, hflag, hwords⟩ := acsmAddPattern_spec hW (Nat.lt_of_not_le hfull) dirtyWord h0 (dirtyLen_le h0)
            have hlen' := length_append_filter_le W (storedWord (dirtyWord.take (dirtyLen dirtyWord).toNat))
            rw [if_neg hfull, if_neg (by rw [hret]; decide)]
            rcases ih hwords (by omega) hrest with hnone | ⟨W', a', h1, h2, h3, h4⟩
            · exact .inl hnone
            · exact .inr ⟨W', a', h1, h2, h3, h4.trans hflag⟩

/-! ## tm_dirty_load_new -/

/-- A successful load has compiled a handle, put it at the other index and switched to it. -/
theorem tmDirtyLoadNew_ok (h : tmDirtyLoadNew fuel hs (some content) = some (hs', 0)) :
    ∃ a a', loadLines fuel content
        { hs (flip (hs 0).flag) with acsmMaxStates := 0, acsmNumStates := 0, totalPattern := 0 } = some a ∧
      (∃ ret, acsmCompile fuel a = some (a', ret) ∧ ret ≠ -1) ∧
      hs' = (hs.put (flip (hs 0).flag) a').setFlags (flip (hs 0).flag) := by
  unfold tmDirtyLoadNew at h
  dsimp only at h
  cases hl : loadLines fuel content
      { hs (flip (hs 0).flag) with acsmMaxStates := 0, acsmNumStates := 0, totalPattern := 0 } with
  | none =>
      rw [hl] at h
      cases h
  | some a =>
      rw [hl] at h
      dsimp only at h
      cases hc : acsmCompile fuel a with
      | none =>
          rw [hc] at h
          cases h
      | some r =>
          obtain ⟨a', ret⟩ := r
          rw [hc] at h
          dsimp only at h
          split at h
          · exact absurd (Prod.mk.inj (Option.some.inj h)).2 (by decide)
          · rename_i hret
            exact ⟨a, a', rfl, ⟨ret, hc, hret⟩, (Prod.mk.inj (Option.some.inj h)).1.symm⟩

/-- The flags name a handle. -/
def FlagOk (hs : Handles) : Prop := (hs 0).flag = 0 ∨ (hs 0).flag = 1

theorem flip_ne (flag : Int) : flip flag ≠ flag := by
  unfold flip
  split <;> omega

theorem FlagOk.flip (h : FlagOk hs) : flip (hs 0).flag = 0 ∨ flip (hs 0).flag = 1 := by
  unfold Dirty.flip
  rcases h with h | h
  · rw [h]
    exact .inr rfl
  · rw [h]
    exact .inl rfl

@[simp] theorem put_self (hs : Handles) (i : Int) (a : AcsmStruct) : hs.put i a i = a := if_pos rfl

theorem put_ne (hs : Handles) {i k : Int} (a : AcsmStruct) (h : k ≠ i) : hs.put i a k = hs k := if_neg h

/-- Setting the flags changes the flags of the two handles and nothing else. -/
theorem setFlags_eq (hs : Handles) (flag : Int) {i : Int} (hi : i = 0 ∨ i = 1) :
    hs.setFlags flag i = { hs i with flag := flag } := by
  unfold Handles.setFlags
  rcases hi with rfl | rfl
  · rw [put_ne _ _ (by decide), put_self]
  · rw [put_self]

theorem setFlags_active (hs : Handles) {flag : Int} (hf : flag = 0 ∨ flag = 1) :
    (hs.setFlags flag).active = { hs flag with flag := flag } := by
  unfold Handles.active
  rw [setFlags_eq hs flag (.inl rfl)]
  exact setFlags_eq hs flag hf

theorem Compiled.setFlag {W : List (List UInt8)} (h : Compiled W a) (flag : Int) :
    Compiled W { a with flag := flag } :=
  ⟨⟨h.words.total, h.words.word, h.words.nonempty⟩, h.longest⟩

/-- The handle that a load starts with has no patterns. -/
theorem hasWords_cleared (a : AcsmStruct) :
    HasWords { a with acsmMaxStates := 0, acsmNumStates := 0, totalPattern := 0 } [] := hasWords_nil rfl

/-- What a compile of stored words does is decided by their size. -/
theorem acsmCompile_cases (hW : HasWords a W) {r : AcsmStruct × Int} (h : acsmCompile fuel a = some r) :
    (r.2 = -1 ∧ r.1.flag = a.flag) ∨
      (r.2 = 0 ∧ 1 + (W.flatten.length : Int) ≤ maxState ∧ Compiled W r.1) := by
  by_cases hsize : 1 + (W.flatten.length : Int) ≤ maxState
  · obtain ⟨a0, str, a', hc, hb, h0, -⟩ := acsmCompile_spec hW hsize (Nat.le_max_right fuel _)
    have hsame := (acsmCompile_mono h (Nat.le_max_left fuel W.flatten.length)).symm.trans hc
    rw [Option.some.inj hsame]
    exact .inr ⟨rfl, hsize, hb.compiled h0⟩
  · have hsum : sumLengths a a.totalPattern.toNat 0 = W.flatten.length := by
      rw [hW.total]
      simpa using sumLengths_spec W (P := []) hW
    unfold acsmCompile at h
    dsimp only at h
    rw [if_pos (by rw [hsum]; omega)] at h
    rw [← Option.some.inj h]
    exact .inl ⟨rfl, rfl⟩

/-- A handle put at the index that is not in use, with the flag that was there. -/
theorem put_inactive (hflag : a.flag = (hs (flip (hs 0).flag)).flag) :
    ((hs.put (flip (hs 0).flag) a) 0).flag = (hs 0).flag ∧ (hs.put (flip (hs 0).flag) a).active = hs.active := by
  have h0 : ((hs.put (flip (hs 0).flag) a) 0).flag = (hs 0).flag := by
    by_cases hu : (0 : Int) = flip (hs 0).flag
    · rw [← hu] at hflag ⊢
      rw [put_self]
      exact hflag
    · rw [put_ne _ _ hu]
  refine ⟨h0, ?_⟩
  unfold Handles.active
  rw [h0]
  exact put_ne _ _ (flip_ne _).symm

/-- What a load has done: it has failed and left the active handle, or it has put the words of the file
into the other one and switched to it. -/
inductive LoadResult (fuel : Nat) (hs hs' : Handles) : Option (List UInt8) → Int → Prop
  | failed {file : Option (List UInt8)} : (hs' 0).flag = (hs 0).flag → hs'.active = hs.active →
      LoadResult fuel hs hs' file (-1)
  | loaded {content : List UInt8} {W : List (List UInt8)} : (hs' 0).flag = flip (hs 0).flag →
      fileWords fuel content [] = some W → 1 + (W.flatten.length : Int) ≤ maxState → Compiled W hs'.active →
      LoadResult fuel hs hs' (some content) 0

theorem tmDirtyLoadNew_result {file : Option (List UInt8)} {ret : Int} (hf : FlagOk hs)
    (hclean : ∀ content, file = some content → CleanFile content)
    (h : tmDirtyLoadNew fuel hs file = some (hs', ret)) : LoadResult fuel hs hs' file ret := by
  unfold tmDirtyLoadNew at h
  dsimp only at h
  cases file with
  | none =>
      obtain ⟨rfl, rfl⟩ := Prod.mk.inj (Option.some.inj h)
      obtain ⟨h0, hactive⟩ := @put_inactive
        { hs (flip (hs 0).flag) with acsmMaxStates := 0, acsmNumStates := 0, totalPattern := 0 } hs rfl
      exact .failed h0 hactive
  | some content =>
      rcases loadLines_words fuel (hasWords_cleared (hs (flip (hs 0).flag))) (Nat.zero_le _) (hclean content rfl) with
        ⟨-, hnone⟩ | ⟨W, a, hwords, hload, hW, hflag⟩
      · dsimp only at h
        rw [hnone] at h
        cases h
      dsimp only at h
      rw [hload] at h
      dsimp only at h
      cases hc : acsmCompile fuel a with
      | none =>
          rw [hc] at h
          cases h
      | some r =>
          obtain ⟨a', ret'⟩ := r
          rw [hc] at h
          dsimp only at h
          rcases acsmCompile_cases hW hc with ⟨hret, hflag'⟩ | ⟨hret, hsize, hcomp⟩
          · rw [if_pos hret] at h
            obtain ⟨rfl, rfl⟩ := Prod.mk.inj (Option.some.inj h)
            obtain ⟨h0, hactive⟩ := @put_inactive a' hs (hflag'.trans hflag)
            exact .failed h0 hactive
          · rw [if_neg (by rw [show ret' = 0 from hret]; decide)] at h
            obtain ⟨rfl, rfl⟩ := Prod.mk.inj (Option.some.inj h)
            refine .loaded ?_ hwords hsize ?_
            · rw [setFlags_eq _ _ (.inl rfl)]
            · rw [setFlags_active _ hf.flip, put_self]
              exact hcomp.setFlag _

/-- A clean file whose words fit is loaded, whatever the handles hold. -/
theorem tmDirtyLoadNew_of_words (hs : Handles) (hclean : CleanFile content) (hwords : fileWords fuel content [] = some W)
    (hsize : 1 + (W.flatten.length : Int) ≤ maxState) (hfuel : W.flatten.length ≤ fuel) :
    ∃ hs', tmDirtyLoadNew fuel hs (some content) = some (hs', 0) := by
  rcases loadLines_words fuel (hasWords_cleared (hs (flip (hs 0).flag))) (Nat.zero_le _) hclean with
    ⟨hnone, -⟩ | ⟨W', a, hwords', hload, hW, -⟩
  · rw [hwords] at hnone
    cases hnone
  obtain rfl := Option.some.inj (hwords.symm.trans hwords')
  obtain ⟨a0, str, a', hc, -⟩ := acsmCompile_spec hW hsize hfuel
  unfold tmDirtyLoadNew
  dsimp only
  rw [hload]
  dsimp only
  rw [hc]
  dsimp only
  exact ⟨_, if_neg (by decide)⟩

theorem tmDirtyLoadNew_compiled (hf : FlagOk hs) (hclean : CleanFile content)
    (hwords : fileWords fuel content [] = some W) (hsize : 1 + (W.flatten.length : Int) ≤ maxState)
    (hfuel : W.flatten.length ≤ fuel) :
    ∃ hs', tmDirtyLoadNew fuel hs (some content) = some (hs', 0) ∧ Compiled W hs'.active := by
  obtain ⟨hs', hl⟩ := tmDirtyLoadNew_of_words hs hclean hwords hsize hfuel
  have hresult := tmDirtyLoadNew_result hf
    (fun c hc => by rw [← Option.some.inj hc]; exact hclean) hl
  cases hresult with
  | loaded _ hwords' _ hcomp =>
      obtain rfl := Option.some.inj (hwords.symm.trans hwords')
      exact ⟨hs', hl, hcomp⟩

theorem flagOk_newHandles : FlagOk newHandles := .inl rfl

end Taomee.Dirty
