import Taomee.Dirty.Lemmas.Packets

/-!
# What a cycle does

The ends of `tm_dirty_load_from_server` and of `tm_dirty_daemon`, each with what it has done to the
global variables and the files.
-/

namespace Taomee.Dirty

variable {md5 : List UInt8 → List UInt8} {fuel : Nat} {c : Cycle} {g g' : Globals} {outcome : Outcome}
  {content servrMd5Dgst : List UInt8} {env : DaemonEnv} {serverAddr : Option (List UInt8)}

/-- The local file and the new one after `remove` and `rename`. -/
def renamed (c : Cycle) (localFile : Option (List UInt8)) (content : List UInt8) :
    Option (List UInt8) × Option (List UInt8) :=
  if c.renameOk then (some content, none) else if c.removeOk then (none, some content) else (localFile, some content)

/-- The ends of `install`. -/
inductive InstallResult (fuel : Nat) (c : Cycle) (g : Globals) (content servrMd5Dgst : List UInt8) (dgst : List UInt8) :
    Globals → Outcome → Prop
  | unread : c.canReadNew = false → InstallResult fuel c g content servrMd5Dgst dgst { g with newFile := some content } .failed
  | mismatch : c.canReadNew = true → dgst ≠ servrMd5Dgst →
      InstallResult fuel c g content servrMd5Dgst dgst { g with newFile := some content, localMd5Dgst := dgst } .failed
  | load {hs : Handles} {ret : Int} : c.canReadNew = true → dgst = servrMd5Dgst →
      tmDirtyLoadNew fuel g.handles (if c.canLoad then (renamed c g.localFile content).1 else none) = some (hs, ret) →
      InstallResult fuel c g content servrMd5Dgst dgst
        { g with handles := hs, localMd5Dgst := dgst, localFile := (renamed c g.localFile content).1
                 newFile := (renamed c g.localFile content).2 }
        (if ret = -1 then .failed else .loaded)

theorem install_result (h : install md5 fuel c g content servrMd5Dgst = some (g', outcome)) :
    InstallResult fuel c g content servrMd5Dgst (md5 content) g' outcome := by
  unfold install generateMd5 at h
  dsimp only at h
  by_cases hread : c.canReadNew = true
  · rw [if_pos hread] at h
    dsimp only [Option.map_some] at h
    by_cases hne : md5 content ≠ servrMd5Dgst
    · rw [if_pos hne] at h
      obtain ⟨rfl, rfl⟩ := Prod.mk.inj (Option.some.inj h)
      exact .mismatch hread hne
    · rw [if_neg hne] at h
      have heq : md5 content = servrMd5Dgst := Decidable.not_not.1 hne
      have hfiles : (if c.renameOk then
            { g with newFile := none, localMd5Dgst := md5 content, localFile := some content }
          else if c.removeOk then
            { g with newFile := some content, localMd5Dgst := md5 content, localFile := none }
          else { g with newFile := some content, localMd5Dgst := md5 content } : Globals) =
          { g with localMd5Dgst := md5 content, localFile := (renamed c g.localFile content).1
                   newFile := (renamed c g.localFile content).2 } := by
        unfold renamed
        split
        · rfl
        · split
          · rfl
          · rfl
      rw [hfiles] at h
      dsimp only at h
      cases hl : tmDirtyLoadNew fuel g.handles (if c.canLoad then (renamed c g.localFile content).1 else none) with
      | none =>
          rw [hl] at h
          cases h
      | some r =>
          obtain ⟨hs, ret⟩ := r
          rw [hl] at h
          dsimp only at h
          have hload := @InstallResult.load fuel c g content servrMd5Dgst (md5 content) hs ret hread heq hl
          by_cases hret : ret = -1
          · rw [if_pos hret] at h hload
            obtain ⟨rfl, rfl⟩ := Prod.mk.inj (Option.some.inj h)
            exact hload
          · rw [if_neg hret] at h hload
            obtain ⟨rfl, rfl⟩ := Prod.mk.inj (Option.some.inj h)
            exact hload
  · rw [if_neg hread] at h
    obtain ⟨rfl, rfl⟩ := Prod.mk.inj (Option.some.inj h)
    exact .unread (eq_false_of_ne_true hread)

/-- The ends of `tm_dirty_load_from_server`. -/
inductive CycleResult (md5 : List UInt8 → List UInt8) (fuel : Nat) (c : Cycle) (g : Globals) : Globals → Outcome → Prop
  | unchecked : CycleResult md5 fuel c g g .failed
  | failed {g₁ : Globals} (flag : Nat) (newFile : Option (List UInt8)) : checkLocal md5 c g = some g₁ →
      CycleResult md5 fuel c g ({ g₁ with availableServerFlag := flag }.leave newFile) .failed
  | upToDate {g₁ : Globals} {digest : List UInt8} (flag : Nat) : checkLocal md5 c g = some g₁ →
      exchange fuel c g₁.localMd5Dgst = some (.upToDate digest) →
      CycleResult md5 fuel c g { g₁ with availableServerFlag := flag } (.upToDate digest)
  | nothingNew {g₁ : Globals} (flag : Nat) (newFile : Option (List UInt8)) : c.mkdirOk = true →
      checkLocal md5 c g = some g₁ → chooseServer c g₁ = some flag →
      exchange fuel c g₁.localMd5Dgst = some (.nothingNew newFile) →
      CycleResult md5 fuel c g ({ g₁ with availableServerFlag := flag }.leave newFile) .nothingNew
  | complete {g₁ g' : Globals} {outcome : Outcome} {content servrMd5Dgst : List UInt8} (flag : Nat) :
      checkLocal md5 c g = some g₁ →
      exchange fuel c g₁.localMd5Dgst = some (.complete content servrMd5Dgst) →
      InstallResult fuel c { g₁ with availableServerFlag := flag } content servrMd5Dgst (md5 content) g' outcome →
      CycleResult md5 fuel c g g' outcome

theorem tmDirtyLoadFromServer_result (h : tmDirtyLoadFromServer md5 fuel c g = some (g', outcome)) :
    CycleResult md5 fuel c g g' outcome := by
  unfold tmDirtyLoadFromServer at h
  by_cases hdir : c.mkdirOk = false
  · rw [if_pos hdir] at h
    obtain ⟨rfl, rfl⟩ := Prod.mk.inj (Option.some.inj h)
    exact .unchecked
  rw [if_neg hdir] at h
  cases hcheck : checkLocal md5 c g with
  | none =>
      rw [hcheck] at h
      obtain ⟨rfl, rfl⟩ := Prod.mk.inj (Option.some.inj h)
      exact .unchecked
  | some g₁ =>
      rw [hcheck] at h
      dsimp only at h
      cases hserver : chooseServer c g₁ with
      | none =>
          rw [hserver] at h
          obtain ⟨rfl, rfl⟩ := Prod.mk.inj (Option.some.inj h)
          exact .failed g₁.availableServerFlag none hcheck
      | some flag =>
          rw [hserver] at h
          dsimp only at h
          cases hx : exchange fuel c g₁.localMd5Dgst with
          | none =>
              rw [hx] at h
              cases h
          | some reply =>
              rw [hx] at h
              cases reply with
              | failed newFile =>
                  obtain ⟨rfl, rfl⟩ := Prod.mk.inj (Option.some.inj h)
                  exact .failed flag newFile hcheck
              | upToDate digest =>
                  obtain ⟨rfl, rfl⟩ := Prod.mk.inj (Option.some.inj h)
                  exact .upToDate flag hcheck hx
              | nothingNew newFile =>
                  obtain ⟨rfl, rfl⟩ := Prod.mk.inj (Option.some.inj h)
                  exact .nothingNew flag newFile (eq_true_of_ne_false hdir) hcheck hserver hx
              | complete content servrMd5Dgst => exact .complete flag hcheck hx (install_result h)

/-- How a call of `tm_dirty_daemon` that returns 0 has found its dictionary. -/
inductive DaemonResult (md5 : List UInt8 → List UInt8) (fuel : Nat) (env : DaemonEnv)
    (serverAddr : Option (List UInt8)) (g : Globals) : Globals → Prop
  | fromServer {servers : List Server} {g₁ : Globals} {outcome : Outcome} :
      serversOf env.isLegalIp serverAddr = some servers → env.mmapOk = true →
      tmDirtyLoadFromServer md5 fuel env.cycle { g with servers := servers, handles := newHandles } = some (g₁, outcome) →
      outcome = .nothingNew ∨ outcome = .loaded → env.threadOk = true →
      DaemonResult md5 fuel env serverAddr g { g₁ with daemonCalled := true }
  | fromFile {servers : List Server} {g₁ : Globals} {outcome : Outcome} {hs : Handles} {ret : Int} :
      serversOf env.isLegalIp serverAddr = some servers → env.mmapOk = true →
      tmDirtyLoadFromServer md5 fuel env.cycle { g with servers := servers, handles := newHandles } = some (g₁, outcome) →
      outcome ≠ .nothingNew → outcome ≠ .loaded → g₁.localMd5Exist = true →
      tmDirtyLoadNew fuel g₁.handles (if env.canLoad then g₁.localFile else none) = some (hs, ret) → ret ≠ -1 →
      DaemonResult md5 fuel env serverAddr g { g₁ with handles := hs, daemonCalled := true }

theorem Outcome.ret_eq_neg_one_iff : outcome.ret = -1 ↔ outcome ≠ .nothingNew ∧ outcome ≠ .loaded := by
  cases outcome <;> simp [Outcome.ret]

theorem tmDirtyDaemon_result {path : Option (List UInt8)} (hfirst : g.daemonCalled = false)
    (h : tmDirtyDaemon md5 fuel env path serverAddr g = some (g', 0)) :
    DaemonResult md5 fuel env serverAddr (g.setPath path) g' := by
  unfold tmDirtyDaemon at h
  rw [if_neg (by rw [hfirst]; decide)] at h
  generalize g.setPath path = g at h
  dsimp only at h
  cases hservers : serversOf env.isLegalIp serverAddr with
  | none =>
      rw [hservers] at h
      exact absurd (Prod.mk.inj (Option.some.inj h)).2 (by decide)
  | some servers =>
      rw [hservers] at h
      dsimp only at h
      by_cases hmmap : env.mmapOk = false
      · rw [if_pos hmmap] at h
        exact absurd (Prod.mk.inj (Option.some.inj h)).2 (by decide)
      rw [if_neg hmmap] at h
      have hthread : ∀ g₁ : Globals,
          some (({ g₁ with daemonCalled := true } : Globals), if env.threadOk then (0 : Int) else -1) = some (g', 0) →
          g' = { g₁ with daemonCalled := true } ∧ env.threadOk = true := by
        intro g₁ h
        obtain ⟨hg, hret⟩ := Prod.mk.inj (Option.some.inj h)
        cases hok : env.threadOk with
        | true => exact ⟨hg.symm, rfl⟩
        | false =>
            rw [hok] at hret
            exact absurd hret (by decide)
      cases hcycle : tmDirtyLoadFromServer md5 fuel env.cycle { g with servers := servers, handles := newHandles } with
      | none =>
          rw [hcycle] at h
          cases h
      | some r =>
          obtain ⟨g₁, outcome⟩ := r
          rw [hcycle] at h
          dsimp only at h
          have hok := eq_true_of_ne_false hmmap
          by_cases hret : outcome.ret = -1
          · rw [if_pos hret] at h
            obtain ⟨hnew, hloaded⟩ := Outcome.ret_eq_neg_one_iff.mp hret
            by_cases hexist : g₁.localMd5Exist = true
            · rw [if_pos hexist] at h
              cases hl : tmDirtyLoadNew fuel g₁.handles (if env.canLoad then g₁.localFile else none) with
              | none =>
                  rw [hl] at h
                  cases h
              | some r =>
                  obtain ⟨hs, ret⟩ := r
                  rw [hl] at h
                  dsimp only at h
                  by_cases hfail : ret = -1
                  · rw [if_pos hfail] at h
                    exact absurd (Prod.mk.inj (Option.some.inj h)).2 (by decide)
                  · rw [if_neg hfail] at h
                    obtain ⟨rfl, -⟩ := hthread { g₁ with handles := hs } h
                    exact @DaemonResult.fromFile md5 fuel env serverAddr g servers g₁ outcome hs ret hservers hok hcycle hnew hloaded
                      hexist hl hfail
            · rw [if_neg hexist] at h
              exact absurd (Prod.mk.inj (Option.some.inj h)).2 (by decide)
          · rw [if_neg hret] at h
            obtain ⟨rfl, ht⟩ := hthread g₁ h
            have hor : outcome = .nothingNew ∨ outcome = .loaded := by
              by_contra hno
              exact hret (Outcome.ret_eq_neg_one_iff.mpr (not_or.mp hno))
            exact .fromServer hservers hok hcycle hor ht

end Taomee.Dirty
