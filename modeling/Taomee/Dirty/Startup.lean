import Taomee.Dirty.Lemmas.Cycle
import Taomee.Dirty.Lemmas.Load
import Taomee.Dirty.Lemmas.Frame

/-!
# The first load

`tm_dirty_daemon` takes the return value 0 of the first cycle for a loaded dictionary. The cycle also
returns 0 when the server announces an empty file, and then the two handles are still the zero-filled
ones.
-/

namespace Taomee.Dirty

variable {fuel : Nat} {hs hs' : Handles} {g g' : Globals}

/-! ## Loaded -/

/-- The handles are what a call of `tm_dirty_load_new` that returned 0 has left, and the active one is what
`acsmCompile` has made, with the new flag. -/
def Loaded (hs : Handles) : Prop :=
  (∃ fuel hs₀ content, tmDirtyLoadNew fuel hs₀ (some content) = some (hs, 0)) ∧
    ∃ fuel a a', acsmCompile fuel a = some (a', 0) ∧ hs.active = { a' with flag := (hs 0).flag }

/-- Whatever the file holds, a load that fails leaves the active handle, and one that succeeds switches to
what it has compiled. -/
theorem tmDirtyLoadNew_switch {file : Option (List UInt8)} {ret : Int} (hf : FlagOk hs)
    (h : tmDirtyLoadNew fuel hs file = some (hs', ret)) :
    (ret = -1 ∧ (hs' 0).flag = (hs 0).flag ∧ hs'.active = hs.active) ∨
      (ret = 0 ∧ (hs' 0).flag = flip (hs 0).flag ∧ (∃ content, file = some content) ∧ Loaded hs') := by
  cases file with
  | none =>
      obtain ⟨rfl, rfl⟩ := Prod.mk.inj (Option.some.inj h)
      obtain ⟨h0, hactive⟩ := @put_inactive
        { hs (flip (hs 0).flag) with acsmMaxStates := 0, acsmNumStates := 0, totalPattern := 0 } hs rfl
      exact .inl ⟨rfl, h0, hactive⟩
  | some content =>
      have hload := h
      unfold tmDirtyLoadNew at h
      dsimp only at h
      cases hl : loadLines fuel content
          { hs (flip (hs 0).flag) with acsmMaxStates := 0, acsmNumStates := 0, totalPattern := 0 } with
      | none =>
          rw [hl] at h
          cases h
      | some a =>
          rw [hl] at h
          dsimp only at h
          cases hc : acsmCompile fuel a with
          | none =>
              rw [hc] at h
              cases h
          | some r =>
              obtain ⟨a', ret'⟩ := r
              rw [hc] at h
              dsimp only at h
              obtain ⟨hret, -, hflag⟩ := acsmCompile_keeps hc
              by_cases hfail : ret' = -1
              · rw [if_pos hfail] at h
                obtain ⟨rfl, rfl⟩ := Prod.mk.inj (Option.some.inj h)
                have hkept := loadLines_flag hl
                dsimp only at hkept
                obtain ⟨h0, hactive⟩ := @put_inactive a' hs (hflag.trans hkept)
                exact .inl ⟨rfl, h0, hactive⟩
              · rw [if_neg hfail] at h
                obtain ⟨rfl, rfl⟩ := Prod.mk.inj (Option.some.inj h)
                obtain rfl := hret.resolve_right hfail
                have h0 : ((hs.put (flip (hs 0).flag) a').setFlags (flip (hs 0).flag) 0).flag = flip (hs 0).flag := by
                  rw [setFlags_eq _ _ (.inl rfl)]
                refine .inr ⟨rfl, h0, ⟨content, rfl⟩, ⟨fuel, hs, content, hload⟩, fuel, a, a', hc, ?_⟩
                rw [setFlags_active _ hf.flip, put_self, h0]

theorem FlagOk.load {file : Option (List UInt8)} {ret : Int} (hf : FlagOk hs)
    (h : tmDirtyLoadNew fuel hs file = some (hs', ret)) : FlagOk hs' := by
  unfold FlagOk
  rcases tmDirtyLoadNew_switch hf h with ⟨-, h0, -⟩ | ⟨-, h0, -⟩
  · rw [h0]
    exact hf
  · rw [h0]
    exact hf.flip

theorem tmDirtyLoadNew_loaded {file : Option (List UInt8)} {ret : Int} (hf : FlagOk hs)
    (h : tmDirtyLoadNew fuel hs file = some (hs', ret)) (hret : ret ≠ -1) : Loaded hs' := by
  rcases tmDirtyLoadNew_switch hf h with ⟨hfail, -⟩ | ⟨-, -, -, hloaded⟩
  · exact absurd hfail hret
  · exact hloaded

/-- Two zero-filled handles are not loaded: in a compiled one the root state of an empty dictionary has no
pattern. -/
theorem not_loaded_newHandles : ¬ Loaded newHandles := by
  rintro ⟨-, fuel, a, a', hc, hactive⟩
  have htotal : a.totalPattern = 0 := by
    have := congrArg AcsmStruct.totalPattern hactive
    rw [← (acsmCompile_keeps hc).2.1]
    exact this.symm
  rcases acsmCompile_cases (hasWords_nil htotal) hc with ⟨hret, -⟩ | ⟨-, -, hcomp⟩
  · exact absurd (show (0 : Int) = -1 from hret) (by decide)
  · have hroot : a'.longest 0 = 0 := congrArg (fun b : AcsmStruct => b.longest 0) hactive.symm
    rcases hcomp.longest [] with ⟨hl, -⟩ | ⟨j, w, -, hw, -⟩
    · rw [show stateAfter a' [] = 0 from rfl, hroot] at hl
      exact absurd hl (by decide)
    · exact absurd hw (by simp)

/-! ## The return value 0 -/

/-- The first cycle asks a server for its file, the server announces an empty one, and the thread can be
started. -/
def NothingAtFirst (md5 : List UInt8 → List UInt8) (env : DaemonEnv) (serverAddr : Option (List UInt8)) (g : Globals) :
    Prop :=
  ∃ servers g₁ flag r, serversOf env.isLegalIp serverAddr = some servers ∧ env.mmapOk = true ∧
    env.cycle.mkdirOk = true ∧
    checkLocal md5 env.cycle { g with servers := servers, handles := newHandles } = some g₁ ∧
    chooseServer env.cycle g₁ = some flag ∧ asksForFile env.cycle g₁.localMd5Dgst = some r ∧
    AnnouncesNothing env.cycle.canCreate r ∧ env.threadOk = true

theorem checkLocal_handles {md5 : List UInt8 → List UInt8} {c : Cycle} (h : checkLocal md5 c g = some g') :
    g'.handles = g.handles := by
  unfold checkLocal at h
  split at h
  · rw [← Option.some.inj h]
  · split at h
    · rw [← Option.some.inj h]
    · split at h
      · rw [← Option.some.inj h]
      · cases h

theorem InstallResult.flagOk {c : Cycle} {content servrMd5Dgst dgst : List UInt8} {outcome : Outcome}
    (h : InstallResult fuel c g content servrMd5Dgst dgst g' outcome) (hf : FlagOk g.handles) : FlagOk g'.handles := by
  cases h with
  | unread => exact hf
  | mismatch => exact hf
  | load _ _ hl => exact hf.load hl

theorem InstallResult.loaded {c : Cycle} {content servrMd5Dgst dgst : List UInt8} {outcome : Outcome}
    (h : InstallResult fuel c g content servrMd5Dgst dgst g' outcome) (hf : FlagOk g.handles)
    (hout : outcome = .loaded) : Loaded g'.handles := by
  cases h with
  | unread => cases hout
  | mismatch => cases hout
  | @load hs ret _ _ hl =>
      refine tmDirtyLoadNew_loaded hf hl fun hret => ?_
      rw [if_pos hret] at hout
      cases hout

theorem InstallResult.ne_nothingNew {c : Cycle} {content servrMd5Dgst dgst : List UInt8} {outcome : Outcome}
    (h : InstallResult fuel c g content servrMd5Dgst dgst g' outcome) : outcome ≠ .nothingNew := by
  cases h with
  | unread => exact fun h => nomatch h
  | mismatch => exact fun h => nomatch h
  | load =>
      split
      · exact fun h => nomatch h
      · exact fun h => nomatch h

/-- A cycle keeps the flags; with the return value 0 it has loaded a file or has been told of an empty
one. -/
theorem CycleResult.flagOk {md5 : List UInt8 → List UInt8} {c : Cycle} {outcome : Outcome}
    (h : CycleResult md5 fuel c g g' outcome) (hf : FlagOk g.handles) : FlagOk g'.handles := by
  cases h with
  | unchecked => exact hf
  | failed flag _ hcheck => exact (checkLocal_handles hcheck).symm ▸ hf
  | upToDate flag hcheck => exact (checkLocal_handles hcheck).symm ▸ hf
  | nothingNew flag _ _ hcheck => exact (checkLocal_handles hcheck).symm ▸ hf
  | complete flag hcheck _ hi => exact hi.flagOk ((checkLocal_handles hcheck).symm ▸ hf)

theorem CycleResult.loaded {md5 : List UInt8 → List UInt8} {c : Cycle} {outcome : Outcome}
    (h : CycleResult md5 fuel c g g' outcome) (hf : FlagOk g.handles) (hout : outcome = .loaded) :
    Loaded g'.handles := by
  cases h with
  | unchecked => cases hout
  | failed => cases hout
  | upToDate => cases hout
  | nothingNew => cases hout
  | complete flag hcheck _ hi => exact hi.loaded ((checkLocal_handles hcheck).symm ▸ hf) hout

theorem CycleResult.announced {md5 : List UInt8 → List UInt8} {c : Cycle} {outcome : Outcome}
    (h : CycleResult md5 fuel c g g' outcome) (hout : outcome = .nothingNew) :
    ∃ g₁ flag r, c.mkdirOk = true ∧ checkLocal md5 c g = some g₁ ∧ chooseServer c g₁ = some flag ∧
      asksForFile c g₁.localMd5Dgst = some r ∧ AnnouncesNothing c.canCreate r := by
  cases h with
  | unchecked => cases hout
  | failed => cases hout
  | upToDate => cases hout
  | @nothingNew g₁ flag newFile hdir hcheck hserver hx =>
      rcases exchange_cases fuel c g₁.localMd5Dgst with ⟨-, hx' | hx'⟩ | ⟨r, hr, hx'⟩
      · rw [hx] at hx'
        cases hx'
      · rw [hx] at hx'
        cases hx'
      · rw [hx] at hx'
        exact ⟨g₁, flag, r, hdir, hcheck, hserver, hr, recvFile_nothingNew hx'.symm⟩
  | complete _ _ _ hi => exact absurd hout hi.ne_nothingNew

/-- All ways to a return value of 0 but one lead through a load. -/
theorem DaemonResult.loaded {md5 : List UInt8 → List UInt8} {env : DaemonEnv} {serverAddr : Option (List UInt8)}
    (h : DaemonResult md5 fuel env serverAddr g g') (hnot : ¬ NothingAtFirst md5 env serverAddr g) :
    Loaded g'.handles := by
  cases h with
  | @fromServer servers g₁ outcome hservers hmmap hcycle hor hthread =>
      have hresult := tmDirtyLoadFromServer_result hcycle
      rcases hor with hout | hout
      · obtain ⟨g₂, flag, r, hdir, hcheck, hserver, hr, hempty⟩ := hresult.announced hout
        exact absurd ⟨servers, g₂, flag, r, hservers, hmmap, hdir, hcheck, hserver, hr, hempty, hthread⟩ hnot
      · exact hresult.loaded flagOk_newHandles hout
  | fromFile _ _ hcycle _ _ _ hl hret =>
      exact tmDirtyLoadNew_loaded ((tmDirtyLoadFromServer_result hcycle).flagOk flagOk_newHandles) hl hret

/-- With an empty file at first, the daemon returns 0 with the handles that it has started with. -/
theorem NothingAtFirst.newHandles {md5 : List UInt8 → List UInt8} {env : DaemonEnv} {path serverAddr : Option (List UInt8)}
    (h : NothingAtFirst md5 env serverAddr (g.setPath path)) (hfirst : g.daemonCalled = false) :
    ∃ fuel g', tmDirtyDaemon md5 fuel env path serverAddr g = some (g', 0) ∧ g'.handles = Dirty.newHandles := by
  obtain ⟨servers, g₁, flag, r, hservers, hmmap, hdir, hcheck, hserver, hr, hempty, hthread⟩ := h
  obtain ⟨fuel, newFile, hrecv⟩ := hempty.recvFile
  have hx : exchange fuel env.cycle g₁.localMd5Dgst = some (.nothingNew newFile) := by
    rcases exchange_cases fuel env.cycle g₁.localMd5Dgst with ⟨hnone, -⟩ | ⟨r', hr', hx⟩
    · rw [hr] at hnone
      cases hnone
    · obtain rfl := Option.some.inj (hr.symm.trans hr')
      exact hx.trans hrecv
  have hcycle : tmDirtyLoadFromServer md5 fuel env.cycle
      { g.setPath path with servers := servers, handles := Dirty.newHandles } =
      some ({ g₁ with availableServerFlag := flag }.leave newFile, .nothingNew) := by
    unfold tmDirtyLoadFromServer
    rw [if_neg (by rw [hdir]; decide), hcheck]
    dsimp only
    rw [hserver]
    dsimp only
    rw [hx]
  refine ⟨fuel, { { g₁ with availableServerFlag := flag }.leave newFile with daemonCalled := true }, ?_,
    checkLocal_handles hcheck⟩
  unfold tmDirtyDaemon
  dsimp only
  rw [if_neg (by rw [hfirst]; decide), hservers]
  dsimp only
  rw [if_neg (by rw [hmmap]; decide), hcycle]
  dsimp only
  rw [if_neg (by decide), hthread, if_pos rfl]

/-- When the first call returns 0 a dictionary has been loaded, unless the server announced an empty file. -/
theorem tmDirtyDaemon_loaded_iff (md5 : List UInt8 → List UInt8) (env : DaemonEnv)
    (localDirtyFilePath serverAddr : Option (List UInt8)) (files : List UInt8 → Option (List UInt8)) :
    (∀ fuel g, tmDirtyDaemon md5 fuel env localDirtyFilePath serverAddr (initGlobals files) = some (g, 0) →
        Loaded g.handles) ↔
      ¬ NothingAtFirst md5 env serverAddr ((initGlobals files).setPath localDirtyFilePath) := by
  constructor
  · intro h hnothing
    obtain ⟨fuel, g, hret, hnew⟩ := hnothing.newHandles rfl
    have hloaded := h fuel g hret
    rw [hnew] at hloaded
    exact not_loaded_newHandles hloaded
  · intro hnot fuel g hret
    exact (tmDirtyDaemon_result rfl hret).loaded hnot

/-! ## An empty file -/

/-- A server that announces the digest 01..01 and then, asked for the file, an empty one. -/
def emptyFileNet : List Net :=
  ([34, 0, 0, 0, 0, 0, 0, 0, 0xE9, 0xFD, 0, 0, 0, 0, 0, 0, 0, 0] ++ List.replicate 16 1 ++
    [78, 0, 0, 0, 0, 0, 0, 0, 0xEA, 0xFD, 0, 0, 0, 0, 0, 0, 0, 0] ++ List.replicate 60 0 : List UInt8).map Net.byte

/-- A cycle in which the server sends these bytes and everything else succeeds. -/
def cycleOf (net : List Net) : Cycle where
  mkdirOk := true
  accessDenied := false
  canReadLocal := true
  connects := fun _ => true
  buf := fun _ => 0
  sendMd5Ok := true
  sendFileOk := true
  net := net
  canCreate := true
  canReadNew := true
  removeOk := true
  renameOk := true
  canLoad := true

def daemonEnvOf (cycle : Cycle) : DaemonEnv where
  isLegalIp := fun _ => true
  mmapOk := true
  cycle := cycle
  canLoad := true
  threadOk := true

/-- "a". -/
def localPathSample : Option (List UInt8) := some [0x61]

/-- "1:1". -/
def serverAddrSample : Option (List UInt8) := some [0x31, colon, 0x31]

/-- Without a local file, and with a server that announces an empty one, the daemon returns 0 and nothing
has been loaded. -/
theorem not_tmDirtyDaemon_loaded : ¬ ∀ (md5 : List UInt8 → List UInt8) (env : DaemonEnv)
    (localDirtyFilePath serverAddr : Option (List UInt8)) (files : List UInt8 → Option (List UInt8)) (fuel : Nat)
    (g : Globals), tmDirtyDaemon md5 fuel env localDirtyFilePath serverAddr (initGlobals files) = some (g, 0) →
    Loaded g.handles := by
  intro h
  have hx : exchange 1 (cycleOf emptyFileNet) (List.replicate 16 0) = some (.nothingNew none) := by decide +kernel
  have hnothing : NothingAtFirst id (daemonEnvOf (cycleOf emptyFileNet)) serverAddrSample
      ((initGlobals fun _ => none).setPath localPathSample) := by
    rcases exchange_cases 1 (cycleOf emptyFileNet) (List.replicate 16 0) with ⟨-, hx' | hx'⟩ | ⟨r, hr, hx'⟩
    · rw [hx] at hx'
      cases hx'
    · rw [hx] at hx'
      cases hx'
    · rw [hx] at hx'
      exact ⟨[{ ip := [0x31], port := 1 }], _, 0, r, rfl, rfl, rfl, rfl, rfl, hr, recvFile_nothingNew hx'.symm, rfl⟩
  obtain ⟨fuel, g, hret, hnew⟩ := hnothing.newHandles rfl
  have hloaded := h id _ localPathSample serverAddrSample (fun _ => none) fuel g hret
  rw [hnew] at hloaded
  exact not_loaded_newHandles hloaded

end Taomee.Dirty
