import Taomee.Dirty.Attached
import Taomee.Dirty.Lemmas.InStep

/-!
# Up to date

A cycle that finds the local digest announced by the server stops without a look at the dictionary in
memory. That is right as long as the digest is the one of the file that the dictionary was compiled from.
A cycle that fails after it has overwritten the digest does not restore it.
-/

namespace Taomee.Dirty

section

variable (md5 : List UInt8 → List UInt8)

/-- A call with another path finds the digest of the file there, if one has been computed and there is a file. -/
def PathKeeps (localDirtyFilePath : Option (List UInt8)) (g : Globals) : Prop :=
  ∀ path, localDirtyFilePath = some path → path ≠ g.localDirtyFilePath → g.localMd5Exist = true →
    ∀ content, (g.setPath localDirtyFilePath).localFile = some content → md5 content = g.localMd5Dgst

/-- The digest stays that of the local file when the path is set, and the first cycle keeps what it fetches. -/
def FirstKeeps (fuel : Nat) (env : DaemonEnv) (localDirtyFilePath serverAddr : Option (List UInt8)) (g : Globals) : Prop :=
  PathKeeps md5 localDirtyFilePath g ∧ ∀ servers, serversOf env.isLegalIp serverAddr = some servers →
    KeepsStep md5 (fun _ => True) fuel env.cycle
      { g.setPath localDirtyFilePath with servers := servers, handles := newHandles }

/-- A later cycle keeps what it fetches, and can load it. -/
def LaterKeeps (fuel : Nat) (c : Cycle) (g : Globals) : Prop :=
  KeepsStep md5 (fun content => c.canLoad = true ∧ ∃ hs, tmDirtyLoadNew fuel g.handles (some content) = some (hs, 0)) fuel c g

/-- The states after any calls of `tm_dirty_daemon` that satisfy `Ok`. -/
inductive Calls (Ok : Nat → DaemonEnv → Option (List UInt8) → Option (List UInt8) → Globals → Prop) : Globals → Prop
  | init (files : List UInt8 → Option (List UInt8)) : Calls Ok (initGlobals files)
  | call {g g' : Globals} {fuel : Nat} {env : DaemonEnv} {localDirtyFilePath serverAddr : Option (List UInt8)} {ret : Int} :
      Calls Ok g → Ok fuel env localDirtyFilePath serverAddr g →
      tmDirtyDaemon md5 fuel env localDirtyFilePath serverAddr g = some (g', ret) → Calls Ok g'

/-- The states after any cycles that satisfy `Ok`, from the state `start`. -/
inductive Cycles (Ok : Nat → Cycle → Globals → Prop) (start : Globals) : Globals → Prop
  | refl : Cycles Ok start start
  | cycle {g g' : Globals} {fuel : Nat} {c : Cycle} {outcome : Outcome} : Cycles Ok start g → Ok fuel c g →
      tmDirtyLoadFromServer md5 fuel c g = some (g', outcome) → Cycles Ok start g'

end

variable {md5 : List UInt8 → List UInt8} {fuel : Nat} {c : Cycle} {g g₁ g' : Globals} {outcome : Outcome}
  {env : DaemonEnv} {localDirtyFilePath serverAddr : Option (List UInt8)} {ret : Int} {content servrMd5Dgst : List UInt8}

/-! ## Later cycles -/

theorem InStep.fileInStep (h : InStep md5 g) : FileInStep md5 g := by
  obtain ⟨content', hfile', hmd5⟩ := h.file
  intro _ content hfile
  rw [Option.some.inj (hfile.symm.trans hfile')]
  exact hmd5

theorem InStep.check (h : InStep md5 g) (hcheck : checkLocal md5 c g = some g₁) :
    InStep md5 g₁ ∧ g₁.localMd5Dgst = g.localMd5Dgst := by
  obtain ⟨-, hlocal, hfile⟩ := h.fileInStep.check hcheck
  obtain ⟨content, hcontent, hmd5⟩ := h.file
  have hfile₁ := hlocal.trans hcontent
  have hdgst : g₁.localMd5Dgst = g.localMd5Dgst := (hfile content hfile₁).symm.trans hmd5
  have hhandles := checkLocal_handles hcheck
  refine ⟨⟨?_, ⟨content, hfile₁, hmd5.trans hdgst.symm⟩, ?_⟩, hdgst⟩
  · rw [hhandles]
    exact h.flag
  · rw [hhandles, hdgst]
    exact h.active

theorem InStep.install (h : InStep md5 g)
    (hkept : c.canReadNew = true → Kept md5
      (fun content => c.canLoad = true ∧ ∃ hs, tmDirtyLoadNew fuel g.handles (some content) = some (hs, 0))
      c g.localMd5Dgst content servrMd5Dgst)
    (hinstall : InstallResult fuel c g content servrMd5Dgst (md5 content) g' outcome) : InStep md5 g' := by
  have hflag := hinstall.flagOk h.flag
  cases hinstall with
  | unread => exact ⟨hflag, h.file, h.active⟩
  | mismatch hread hne =>
      rcases hkept hread with ⟨heq, -⟩ | ⟨heq, -⟩
      · exact absurd heq hne
      · obtain ⟨content₂, hfile, hmd5⟩ := h.file
        obtain ⟨content₁, hfrom, hmd5'⟩ := h.active
        exact ⟨hflag, ⟨content₂, hfile, hmd5.trans heq.symm⟩, content₁, hfrom, hmd5'.trans heq.symm⟩
  | @load hs ret hread hdgst hload =>
      obtain rfl := hdgst
      have hk := hkept hread
      rcases hk with ⟨-, hrename, hcan, hs₁, hload₁⟩ | ⟨heq, hplace⟩
      · -- the announced file is put in place and loaded
        have hnew : (renamed c g.localFile content).1 = some content := by
          unfold renamed
          rw [if_pos hrename]
        rw [if_pos hcan, hnew, hload₁] at hload
        obtain ⟨rfl, rfl⟩ := Prod.mk.inj (Option.some.inj hload)
        exact ⟨hflag, ⟨content, hnew, rfl⟩, content, ⟨fuel, g.handles, hs₁, h.flag, hload₁, rfl⟩, rfl⟩
      · -- its digest is the one of before
        obtain ⟨content₂, hfile, hmd5⟩ := h.file
        obtain ⟨content₃, hnew, hmd5₃⟩ : ∃ content₃, (renamed c g.localFile content).1 = some content₃ ∧
            md5 content₃ = md5 content := by
          have hk : Kept md5 (fun _ => True) c g.localMd5Dgst content (md5 content) := .inr ⟨heq, hplace⟩
          rcases hk.localFile with
            ⟨-, hnew⟩ | ⟨-, hold, -⟩
          · exact ⟨content, hnew, rfl⟩
          · exact ⟨content₂, hold.trans hfile, hmd5.trans heq.symm⟩
        refine ⟨hflag, ⟨content₃, hnew, hmd5₃⟩, ?_⟩
        by_cases hret : ret = -1
        · obtain ⟨content₁, hfrom, hmd5₁⟩ := h.active
          rcases tmDirtyLoadNew_switch h.flag hload with ⟨-, -, hactive⟩ | ⟨hzero, -⟩
          · exact ⟨content₁, hfrom.of_active hactive, hmd5₁.trans heq.symm⟩
          · rw [hret] at hzero
            exact absurd hzero (by decide)
        · obtain ⟨content₄, hfile₄, hfrom⟩ := CompiledFrom.of_load h.flag hload hret
          by_cases hcan : c.canLoad = true
          · rw [if_pos hcan, hnew] at hfile₄
            obtain rfl := Option.some.inj hfile₄
            exact ⟨_, hfrom, hmd5₃⟩
          · rw [if_neg hcan] at hfile₄
            cases hfile₄

theorem InStep.cycle (h : InStep md5 g) (hok : LaterKeeps md5 fuel c g)
    (hcycle : tmDirtyLoadFromServer md5 fuel c g = some (g', outcome)) : InStep md5 g' := by
  cases tmDirtyLoadFromServer_result hcycle with
  | unchecked => exact h
  | failed flag _ hcheck =>
      have h₁ := (h.check hcheck).1
      exact ⟨h₁.flag, h₁.file, h₁.active⟩
  | upToDate flag hcheck =>
      have h₁ := (h.check hcheck).1
      exact ⟨h₁.flag, h₁.file, h₁.active⟩
  | nothingNew flag _ _ hcheck =>
      have h₁ := (h.check hcheck).1
      exact ⟨h₁.flag, h₁.file, h₁.active⟩
  | @complete g₁ _ _ content servrMd5Dgst flag hcheck hx hinstall =>
      have h₁ := (h.check hcheck).1
      rcases reaches_exchange hcheck hcycle with ⟨hdir, hserver⟩ | ⟨-, rfl | rfl⟩
      · have hkept := hok.kept hcheck hx hdir hserver
        rw [← checkLocal_handles hcheck] at hkept
        exact InStep.install (g := { g₁ with availableServerFlag := flag }) ⟨h₁.flag, h₁.file, h₁.active⟩ hkept hinstall
      · exact h
      · exact h₁

/-! ## tm_dirty_daemon -/

/-- The path in use finds its own file. -/
theorem setPath_localFile (g : Globals) : (g.setPath (some g.localDirtyFilePath)).localFile = g.localFile := by
  have hname : g.localDirtyFilePath ≠ newFileName g.localDirtyFilePath := fun heq => by
    have := congrArg List.length heq
    unfold newFileName at this
    rw [List.length_append] at this
    simp at this
  change Function.update (Function.update g.files _ g.localFile) _ g.newFile g.localDirtyFilePath = _
  rw [Function.update_of_ne hname, Function.update_self]

theorem FileInStep.setPath (h : FileInStep md5 g) (hok : PathKeeps md5 localDirtyFilePath g) :
    FileInStep md5 (g.setPath localDirtyFilePath) := by
  cases localDirtyFilePath with
  | none => exact h
  | some path =>
      by_cases hsame : path = g.localDirtyFilePath
      · subst hsame
        intro hexist content hfile
        rw [setPath_localFile] at hfile
        exact h hexist content hfile
      · exact hok path rfl hsame

/-- A call that does not start the updates keeps the digest in step with the file. -/
theorem FileInStep.call (h : FileInStep md5 g) (hok : FirstKeeps md5 fuel env localDirtyFilePath serverAddr g)
    (hcall : tmDirtyDaemon md5 fuel env localDirtyFilePath serverAddr g = some (g', ret))
    (hfirst : g'.daemonCalled = false) : FileInStep md5 g' := by
  have hset := h.setPath hok.1
  have hkeeps := hok.2
  unfold tmDirtyDaemon at hcall
  split at hcall
  · cases hcall
    exact h
  generalize g.setPath localDirtyFilePath = g at hset hkeeps hcall
  dsimp only at hcall
  split at hcall
  · cases hcall
    exact hset
  · rename_i servers hservers
    split at hcall
    · cases hcall
      exact hset
    split at hcall
    · cases hcall
    · rename_i g₁ outcome hcycle
      have h₁ : FileInStep md5 g₁ :=
        FileInStep.cycle (g := { g with servers := servers, handles := newHandles }) hset (hkeeps servers hservers) hcycle
      split at hcall
      · split at hcall
        · split at hcall
          · cases hcall
          · split at hcall
            · cases hcall
              exact h₁
            · cases hcall
              cases hfirst
        · cases hcall
          exact h₁
      · cases hcall
        cases hfirst

theorem Calls.fileInStep (h : Calls md5 (FirstKeeps md5) g) (hfirst : g.daemonCalled = false) : FileInStep md5 g := by
  induction h with
  | init => exact fun hexist => nomatch hexist
  | @call g g' fuel env localDirtyFilePath serverAddr ret _ hok hcall ih =>
      by_cases hbefore : g.daemonCalled = true
      · unfold tmDirtyDaemon at hcall
        rw [if_pos hbefore] at hcall
        cases hcall
        exact ih hfirst
      · exact (ih (eq_false_of_ne_true hbefore)).call hok hcall hfirst

/-- After the call that loads the first dictionary everything is in step. -/
theorem DaemonResult.inStep (h : DaemonResult md5 fuel env serverAddr g g') (hfile : FileInStep md5 g)
    (hok : ∀ servers, serversOf env.isLegalIp serverAddr = some servers →
      KeepsStep md5 (fun _ => True) fuel env.cycle { g with servers := servers, handles := newHandles })
    (hloaded : Loaded g'.handles) : InStep md5 g' := by
  cases h with
  | @fromServer servers g₁ outcome hservers _ hcycle hor _ =>
      rcases hor with rfl | rfl
      · -- nothing has been loaded
        have hhandles : g₁.handles = newHandles := by
          have hresult := tmDirtyLoadFromServer_result hcycle
          generalize hout : Outcome.nothingNew = outcome at hresult
          cases hresult with
          | unchecked => rfl
          | failed _ _ hcheck => exact checkLocal_handles hcheck
          | upToDate _ hcheck => exact checkLocal_handles hcheck
          | nothingNew _ _ _ hcheck => exact checkLocal_handles hcheck
          | complete _ _ _ hinstall => exact absurd hout.symm hinstall.ne_nothingNew
        exact absurd (hhandles ▸ hloaded) not_loaded_newHandles
      · have h₁ := InStep.of_loaded (g := { g with servers := servers, handles := newHandles }) hfile flagOk_newHandles
          (hok servers hservers) hcycle
        exact ⟨h₁.flag, h₁.file, h₁.active⟩
  | @fromFile servers g₁ outcome hs ret hservers _ hcycle _ _ hexist hload hret =>
      have hflag := (tmDirtyLoadFromServer_result hcycle).flagOk flagOk_newHandles
      have h₁ : FileInStep md5 g₁ :=
        FileInStep.cycle (g := { g with servers := servers, handles := newHandles }) hfile (hok servers hservers) hcycle
      obtain ⟨content, hcontent, hfrom⟩ := CompiledFrom.of_load hflag hload hret
      by_cases hcan : env.canLoad = true
      · rw [if_pos hcan] at hcontent
        have hmd5 := h₁ hexist content hcontent
        exact ⟨hflag.load hload, ⟨_, hcontent, hmd5⟩, _, hfrom, hmd5⟩
      · rw [if_neg hcan] at hcontent
        cases hcontent

/-! ## Runs -/

theorem Cycles.inStep {start : Globals} (h : Cycles md5 (LaterKeeps md5) start g) (hstart : InStep md5 start) : InStep md5 g := by
  induction h with
  | refl => exact hstart
  | cycle _ hok hcycle ih => exact ih.cycle hok hcycle

theorem recvFile_ne_upToDate {canCreate : Bool} {digest : List UInt8} {fuel : Nat} : ∀ {r : RecvFile},
    recvFile canCreate fuel r ≠ some (.upToDate digest) := by
  induction fuel with
  | zero =>
      intro r h
      cases h
  | succ fuel ih =>
      intro r h
      rcases recvFile_succ canCreate fuel r with ⟨-, hr⟩ | ⟨p, -, hr⟩
      · rw [h] at hr
        cases hr
      · generalize recvFile canCreate (fuel + 1) r = reply at h hr
        cases hr with
        | nothingNew => cases h
        | refused => cases h
        | last => cases h
        | next => exact ih h

theorem exchange_upToDate {localMd5Dgst digest : List UInt8}
    (h : exchange fuel c localMd5Dgst = some (.upToDate digest)) : digest = localMd5Dgst := by
  rcases exchange_cases fuel c localMd5Dgst with ⟨-, hx | hx⟩ | ⟨r, -, hx⟩
  · rw [h] at hx
    cases hx
  · rw [h] at hx
    cases hx
    rfl
  · exact absurd (hx.symm.trans h) recvFile_ne_upToDate

/-- A later cycle that stops as up to date leaves a dictionary compiled from a file with the announced digest. -/
theorem InStep.upToDate {digest : List UInt8} (h : InStep md5 g)
    (hcycle : tmDirtyLoadFromServer md5 fuel c g = some (g', .upToDate digest)) :
    ∃ content, CompiledFrom g'.handles content ∧ md5 content = digest := by
  have hresult := tmDirtyLoadFromServer_result hcycle
  generalize hout : Outcome.upToDate digest = outcome at hresult
  cases hresult with
  | unchecked => cases hout
  | failed => cases hout
  | @upToDate g₁ digest' flag hcheck hx =>
      obtain rfl := Outcome.upToDate.inj hout
      obtain rfl := exchange_upToDate hx
      obtain ⟨content, hfrom, hmd5⟩ := (h.check hcheck).1.active
      exact ⟨content, hfrom, hmd5⟩
  | nothingNew => cases hout
  | complete _ _ _ hinstall =>
      subst hout
      generalize hout : Outcome.upToDate digest = outcome at hinstall
      cases hinstall with
      | unread => cases hout
      | mismatch => cases hout
      | load =>
          split at hout
          · cases hout
          · cases hout

/-- In every run that keeps what it fetches: after the call that has loaded a dictionary and any later cycles, a
cycle that stops as up to date leaves an active dictionary compiled from a file with the announced digest. -/
theorem upToDate_of_kept (md5 : List UInt8 → List UInt8) (fuel₀ fuel : Nat) (env : DaemonEnv)
    (localDirtyFilePath serverAddr : Option (List UInt8)) (c : Cycle) (g₀ g₁ g g' : Globals) (digest : List UInt8)
    (hcalls : Calls md5 (FirstKeeps md5) g₀) (hfirst : g₀.daemonCalled = false)
    (hok : FirstKeeps md5 fuel₀ env localDirtyFilePath serverAddr g₀)
    (hcall : tmDirtyDaemon md5 fuel₀ env localDirtyFilePath serverAddr g₀ = some (g₁, 0)) (hloaded : Loaded g₁.handles)
    (hcycles : Cycles md5 (LaterKeeps md5) g₁ g)
    (hcycle : tmDirtyLoadFromServer md5 fuel c g = some (g', .upToDate digest)) :
    ∃ content, CompiledFrom g'.handles content ∧ md5 content = digest := by
  have hfile := (hcalls.fileInStep hfirst).setPath hok.1
  have hstart := (tmDirtyDaemon_result hfirst hcall).inStep hfile hok.2 hloaded
  exact (hcycles.inStep hstart).upToDate hcycle

/-! ## A file that is not the announced one -/

/-- "AB" and 13 empty lines. -/
def file16 : List UInt8 := fileAB ++ List.replicate 13 newline

/-- A comment of 16 bytes. -/
def comment16 : List UInt8 := List.replicate 16 hash

/-- The answer of a server that announces `digest`. -/
def md5Reply (digest : List UInt8) : List Net :=
  ([34, 0, 0, 0, 0, 0, 0, 0, 0xE9, 0xFD, 0, 0, 0, 0, 0, 0, 0, 0] ++ digest).map Net.byte

/-- A file of 16 bytes in one packet. -/
def filePacket16 (digest content : List UInt8) : List Net :=
  ([94, 0, 0, 0, 0, 0, 0, 0, 0xEA, 0xFD, 0, 0, 0, 0, 0, 0, 0, 0] ++ digest ++ [16, 0, 0, 0, 1, 0, 0, 0] ++
    List.replicate 32 0 ++ [16, 0, 0, 0] ++ content).map Net.byte

/-- No server answers. -/
def offline : Cycle := { cycleOf [] with connects := fun _ => false }

theorem CleanFile.skip {file rest : List UInt8} (hstep : fileStep file = .skip rest) (hrest : CleanFile rest) : CleanFile file := by
  intro w hw
  cases hw with
  | here h =>
      rw [hstep] at h
      cases h
  | skip h hw =>
      rw [hstep] at h
      cases h
      exact hrest w hw
  | next h _ =>
      rw [hstep] at h
      cases h

theorem cleanFile_newlines (k : Nat) : CleanFile (List.replicate k newline) := by
  induction k with
  | zero => exact .stop rfl
  | succ k ih => exact .skip rfl ih

theorem load_file16 : ∃ hs, tmDirtyLoadNew 20 newHandles (some file16) = some (hs, 0) ∧ hs.active.totalPattern = 1 := by
  obtain ⟨hs, hl, hcomp⟩ := @tmDirtyLoadNew_compiled 20 file16 newHandles [[0x41, 0x42]] flagOk_newHandles
    (.line rfl (by decide) (cleanFile_newlines 13)) (by decide +kernel) (by decide) (by decide)
  exact ⟨hs, hl, hcomp.words.total⟩

/-- The file under the path in use. -/
def files16 : List UInt8 → Option (List UInt8) := fun path => if path = [0x61] then some file16 else none

/-- The global variables after a first cycle without an answer. -/
def afterOffline : Globals :=
  { (initGlobals files16).setPath localPathSample with
    servers := [{ ip := [0x31], port := 1 }], localMd5Dgst := file16, localMd5Exist := true }

theorem cycle_offline : tmDirtyLoadFromServer id 20 offline
    { (initGlobals files16).setPath localPathSample with servers := [{ ip := [0x31], port := 1 }], handles := newHandles } =
      some (afterOffline, .failed) := rfl

theorem tmDirtyDaemon_fromFile {servers : List Server} {hs : Handles} (hfirst : g.daemonCalled = false)
    (hservers : serversOf env.isLegalIp serverAddr = some servers) (hmmap : env.mmapOk = true)
    (hcycle : tmDirtyLoadFromServer md5 fuel env.cycle
      { g.setPath localDirtyFilePath with servers := servers, handles := newHandles } = some (g₁, .failed))
    (hexist : g₁.localMd5Exist = true) (hload : tmDirtyLoadNew fuel g₁.handles g₁.localFile = some (hs, 0))
    (hcan : env.canLoad = true) (hthread : env.threadOk = true) :
    tmDirtyDaemon md5 fuel env localDirtyFilePath serverAddr g = some ({ g₁ with handles := hs, daemonCalled := true }, 0) := by
  unfold tmDirtyDaemon
  dsimp only
  rw [if_neg (by rw [hfirst]; decide), hservers]
  dsimp only
  rw [if_neg (by rw [hmmap]; decide), hcycle]
  dsimp only
  rw [if_pos (show Outcome.ret .failed = -1 from rfl), if_pos hexist, if_pos hcan, hload]
  dsimp only
  rw [if_neg (by decide), if_pos hthread]

theorem daemon_offline : ∃ hs, hs.active.totalPattern = 1 ∧ Loaded hs ∧
    tmDirtyDaemon id 20 (daemonEnvOf offline) localPathSample serverAddrSample (initGlobals files16) =
      some ({ afterOffline with handles := hs, daemonCalled := true }, 0) := by
  obtain ⟨hs, hl, htotal⟩ := load_file16
  exact ⟨hs, htotal, tmDirtyLoadNew_loaded flagOk_newHandles hl (by decide),
    tmDirtyDaemon_fromFile rfl rfl rfl cycle_offline rfl hl rfl rfl⟩

theorem checkLocal_exist {localContent : List UInt8} (hexist : g.localMd5Exist = true)
    (hfile : g.localFile = some localContent) : checkLocal md5 c g = some g := by
  unfold checkLocal
  rw [if_neg (fun h => Option.some_ne_none _ (hfile.symm.trans h.2)), if_pos hexist]

theorem cycle_upToDate {net : List Net} {localContent dgst digest : List UInt8} (hexist : g.localMd5Exist = true)
    (hfile : g.localFile = some localContent) (hserver : chooseServer (cycleOf net) g = some g.availableServerFlag)
    (hdgst : g.localMd5Dgst = dgst) (hx : exchange fuel (cycleOf net) dgst = some (.upToDate digest)) :
    tmDirtyLoadFromServer md5 fuel (cycleOf net) g = some (g, .upToDate digest) := by
  subst hdgst
  unfold tmDirtyLoadFromServer
  rw [if_neg (show ¬ (cycleOf net).mkdirOk = false from fun h => nomatch h), checkLocal_exist hexist hfile]
  dsimp only
  rw [hserver]
  simp only [hx]

theorem cycle_mismatch {net : List Net} {localContent dgst : List UInt8} (hexist : g.localMd5Exist = true)
    (hfile : g.localFile = some localContent) (hserver : chooseServer (cycleOf net) g = some g.availableServerFlag)
    (hdgst : g.localMd5Dgst = dgst) (hx : exchange fuel (cycleOf net) dgst = some (.complete content servrMd5Dgst))
    (hne : md5 content ≠ servrMd5Dgst) :
    tmDirtyLoadFromServer md5 fuel (cycleOf net) g =
      some ({ g with newFile := some content, localMd5Dgst := md5 content }, .failed) := by
  subst hdgst
  unfold tmDirtyLoadFromServer
  rw [if_neg (show ¬ (cycleOf net).mkdirOk = false from fun h => nomatch h), checkLocal_exist hexist hfile]
  dsimp only
  rw [hserver]
  simp only [hx]
  unfold install generateMd5
  exact if_pos hne

theorem firstKeeps_offline (fuel : Nat) (hexist : g.localMd5Exist = false) :
    FirstKeeps md5 fuel (daemonEnvOf offline) localDirtyFilePath serverAddr g := by
  refine ⟨fun _ _ _ h => absurd (hexist.symm.trans h) Bool.false_ne_true, ?_⟩
  rintro servers - dgst content servrMd5Dgst ⟨-, -, g₁, -, -, hserver, -⟩
  refine absurd (List.find?_eq_none.mpr fun flag _ => ?_) hserver
  cases g₁.servers[flag]? with
  | none => exact Bool.false_ne_true
  | some server => exact Bool.false_ne_true

/-- A server announces the digest of the local file. -/
theorem upToDate_of_kept_file16 : ∃ g₁ g', tmDirtyDaemon id 20 (daemonEnvOf offline) localPathSample serverAddrSample
      (initGlobals files16) = some (g₁, 0) ∧ Loaded g₁.handles ∧
    tmDirtyLoadFromServer id 1 (cycleOf (md5Reply file16)) g₁ = some (g', .upToDate file16) ∧
    ∃ content, CompiledFrom g'.handles content ∧ id content = file16 := by
  obtain ⟨hs, -, hloaded, hcall⟩ := daemon_offline
  have hx : exchange 1 (cycleOf (md5Reply file16)) file16 = some (.upToDate file16) := by decide +kernel
  have hcycle : tmDirtyLoadFromServer id 1 (cycleOf (md5Reply file16))
      { afterOffline with handles := hs, daemonCalled := true } =
      some ({ afterOffline with handles := hs, daemonCalled := true }, .upToDate file16) :=
    cycle_upToDate rfl rfl rfl rfl hx
  exact ⟨_, _, hcall, hloaded, hcycle, upToDate_of_kept id 20 1 (daemonEnvOf offline) localPathSample
    serverAddrSample (cycleOf (md5Reply file16)) _ _ _ _ _ (.init files16) rfl (firstKeeps_offline 20 rfl) hcall hloaded
    .refl hcycle⟩

theorem not_compiledFrom_comment16 (htotal : hs.active.totalPattern = 1) : ¬ CompiledFrom hs comment16 := by
  rintro ⟨fuel, hs₀, hs₁, hf, hload, hactive⟩
  have hclean : CleanFile comment16 := .skip rfl (.stop rfl)
  have hresult := tmDirtyLoadNew_result hf (fun c hc => by rw [← Option.some.inj hc]; exact hclean) hload
  cases hresult with
  | @loaded _ W _ hwords _ hcomp =>
      have hnil : W = [] := by
        cases fuel with
        | zero => cases hwords
        | succ fuel =>
            cases fuel with
            | zero => cases hwords
            | succ fuel => exact (Option.some.inj hwords).symm
      have := hcomp.words.total
      rw [← hactive, htotal, hnil] at this
      exact absurd this (by decide)

/-- A cycle that stops as up to date does not always leave a dictionary compiled from a file with the announced
digest: the file that is fetched in the first cycle is not the announced one, but the digest of the file that it
is instead stays the local one, and the second cycle finds it announced. -/
theorem not_upToDate : ¬ ∀ (md5 : List UInt8 → List UInt8), Function.Injective md5 →
    ∀ (fuel₀ fuel : Nat) (env : DaemonEnv) (localDirtyFilePath serverAddr : Option (List UInt8)) (c : Cycle)
      (g₀ g₁ g g' : Globals) (digest : List UInt8), Calls md5 (fun _ _ _ _ _ => True) g₀ → g₀.daemonCalled = false →
    tmDirtyDaemon md5 fuel₀ env localDirtyFilePath serverAddr g₀ = some (g₁, 0) → Loaded g₁.handles →
    Cycles md5 (fun _ _ _ => True) g₁ g → tmDirtyLoadFromServer md5 fuel c g = some (g', .upToDate digest) →
    ∃ content, CompiledFrom g'.handles content ∧ md5 content = digest := by
  intro h
  obtain ⟨hs, htotal, hloaded, hcall⟩ := daemon_offline
  have hmismatch : tmDirtyLoadFromServer id 1
      (cycleOf (md5Reply (List.replicate 16 1) ++ filePacket16 (List.replicate 16 1) comment16))
      { afterOffline with handles := hs, daemonCalled := true } =
      some ({ afterOffline with handles := hs, daemonCalled := true, newFile := some comment16
                                localMd5Dgst := comment16 }, .failed) := by
    have hx : exchange 1 (cycleOf (md5Reply (List.replicate 16 1) ++ filePacket16 (List.replicate 16 1) comment16))
        file16 = some (.complete comment16 (List.replicate 16 1)) := by decide +kernel
    exact cycle_mismatch rfl rfl rfl rfl hx (by decide)
  have hcycle : tmDirtyLoadFromServer id 1 (cycleOf (md5Reply comment16))
      { afterOffline with handles := hs, daemonCalled := true, newFile := some comment16, localMd5Dgst := comment16 } =
      some ({ afterOffline with handles := hs, daemonCalled := true, newFile := some comment16
                                localMd5Dgst := comment16 }, .upToDate comment16) := by
    have hx : exchange 1 (cycleOf (md5Reply comment16)) comment16 = some (.upToDate comment16) := by decide +kernel
    exact cycle_upToDate rfl rfl rfl rfl hx
  obtain ⟨content, hfrom, heq⟩ := h id Function.injective_id 20 1 (daemonEnvOf offline) localPathSample serverAddrSample
    (cycleOf (md5Reply comment16)) _ _ _ _ comment16 (.init files16) rfl hcall hloaded
    (.cycle .refl trivial hmismatch) hcycle
  obtain rfl : content = comment16 := heq
  exact not_compiledFrom_comment16 htotal hfrom

end Taomee.Dirty
