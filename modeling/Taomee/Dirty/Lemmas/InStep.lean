import Taomee.Dirty.Startup

/-!
# Digest, file and dictionary in step

The digest in memory, the local file and the active dictionary are changed at different places of a cycle.
They stay in step when a cycle that has fetched a whole file either puts it in place and loads it, or has
fetched a file with the digest that was there before.
-/

namespace Taomee.Dirty

/-- The active handle is the one that a load of this file has left. -/
def CompiledFrom (hs : Handles) (content : List UInt8) : Prop :=
  ∃ fuel hs₀ hs₁, FlagOk hs₀ ∧ tmDirtyLoadNew fuel hs₀ (some content) = some (hs₁, 0) ∧ hs.active = hs₁.active

section

variable (md5 : List UInt8 → List UInt8)

/-- In this cycle `content` is fetched for the digest `servrMd5Dgst`, while the local digest is `dgst`. -/
def Fetches (fuel : Nat) (c : Cycle) (g : Globals) (dgst content servrMd5Dgst : List UInt8) : Prop :=
  c.mkdirOk = true ∧ c.canReadNew = true ∧ ∃ g₁, checkLocal md5 c g = some g₁ ∧ g₁.localMd5Dgst = dgst ∧
    chooseServer c g₁ ≠ none ∧ exchange fuel c dgst = some (.complete content servrMd5Dgst)

/-- The fetched file is the announced one, is put in place and satisfies `loads`; or its digest is the local one
already, and if it is the announced one too then the local file is not lost. -/
def Kept (loads : List UInt8 → Prop) (c : Cycle) (dgst content servrMd5Dgst : List UInt8) : Prop :=
  (md5 content = servrMd5Dgst ∧ c.renameOk = true ∧ loads content) ∨
    (md5 content = dgst ∧ (md5 content ≠ servrMd5Dgst ∨ c.renameOk = true ∨ c.removeOk = false))

/-- Whatever the cycle fetches is kept. -/
def KeepsStep (loads : List UInt8 → Prop) (fuel : Nat) (c : Cycle) (g : Globals) : Prop :=
  ∀ dgst content servrMd5Dgst, Fetches md5 fuel c g dgst content servrMd5Dgst →
    Kept md5 loads c dgst content servrMd5Dgst

/-- The digest, once computed, is that of the local file if there is one. -/
def FileInStep (g : Globals) : Prop :=
  g.localMd5Exist = true → ∀ content, g.localFile = some content → md5 content = g.localMd5Dgst

/-- The digest is that of the local file and that of the file that the active dictionary was compiled from. -/
structure InStep (g : Globals) : Prop where
  flag : FlagOk g.handles
  file : ∃ content, g.localFile = some content ∧ md5 content = g.localMd5Dgst
  active : ∃ content, CompiledFrom g.handles content ∧ md5 content = g.localMd5Dgst

end

variable {md5 : List UInt8 → List UInt8} {fuel : Nat} {c : Cycle} {g g₁ g' : Globals} {outcome : Outcome}
  {loads : List UInt8 → Prop} {content servrMd5Dgst : List UInt8} {hs hs' : Handles} {file : Option (List UInt8)} {ret : Int}

/-! ## Loads -/

theorem CompiledFrom.of_load (hf : FlagOk hs) (h : tmDirtyLoadNew fuel hs file = some (hs', ret)) (hret : ret ≠ -1) :
    ∃ content, file = some content ∧ CompiledFrom hs' content := by
  rcases tmDirtyLoadNew_switch hf h with ⟨hfail, -⟩ | ⟨rfl, -, ⟨content, rfl⟩, -⟩
  · exact absurd hfail hret
  · exact ⟨content, rfl, fuel, hs, hs', hf, h, rfl⟩

theorem CompiledFrom.of_active (h : CompiledFrom hs content) (hactive : hs'.active = hs.active) : CompiledFrom hs' content := by
  obtain ⟨fuel, hs₀, hs₁, hf, hload, heq⟩ := h
  exact ⟨fuel, hs₀, hs₁, hf, hload, hactive.trans heq⟩

/-! ## The start of a cycle -/

/-- After the check the digest is that of the local file, if there is one. -/
theorem FileInStep.check (h : FileInStep md5 g) (hcheck : checkLocal md5 c g = some g₁) :
    FileInStep md5 g₁ ∧ g₁.localFile = g.localFile ∧ ∀ content, g₁.localFile = some content → md5 content = g₁.localMd5Dgst := by
  unfold checkLocal at hcheck
  by_cases hnone : c.accessDenied = false ∧ g.localFile = none
  · rw [if_pos hnone] at hcheck
    cases hcheck
    have hfile : ∀ content, g.localFile = some content → md5 content = List.replicate 16 0 := fun content hfile => by
      rw [hnone.2] at hfile
      cases hfile
    exact ⟨fun _ => hfile, rfl, hfile⟩
  · rw [if_neg hnone] at hcheck
    by_cases hexist : g.localMd5Exist = true
    · rw [if_pos hexist] at hcheck
      cases hcheck
      exact ⟨h, rfl, h hexist⟩
    · rw [if_neg hexist] at hcheck
      unfold generateMd5 at hcheck
      by_cases hread : c.canReadLocal = true
      · rw [if_pos hread] at hcheck
        cases hfile : g.localFile with
        | none =>
            rw [hfile] at hcheck
            cases hcheck
        | some content =>
            rw [hfile] at hcheck
            cases hcheck
            have hdgst : ∀ content', some content = some content' → md5 content' = md5 content := fun content' hfile' => by
              rw [Option.some.inj hfile']
            exact ⟨fun _ => hdgst, rfl, hdgst⟩
      · rw [if_neg hread] at hcheck
        cases hcheck

/-- A cycle that does not come to the exchange fails and leaves what the check has left. -/
theorem reaches_exchange (hcheck : checkLocal md5 c g = some g₁)
    (h : tmDirtyLoadFromServer md5 fuel c g = some (g', outcome)) :
    (c.mkdirOk = true ∧ chooseServer c g₁ ≠ none) ∨ (outcome = .failed ∧ (g' = g ∨ g' = g₁)) := by
  unfold tmDirtyLoadFromServer at h
  by_cases hdir : c.mkdirOk = false
  · rw [if_pos hdir] at h
    cases h
    exact .inr ⟨rfl, .inl rfl⟩
  rw [if_neg hdir, hcheck] at h
  dsimp only at h
  cases hserver : chooseServer c g₁ with
  | none =>
      rw [hserver] at h
      cases h
      exact .inr ⟨rfl, .inr rfl⟩
  | some flag => exact .inl ⟨eq_true_of_ne_false hdir, fun h => nomatch h⟩

/-! ## The end of a cycle -/

theorem Kept.localFile (h : Kept md5 loads c g.localMd5Dgst content (md5 content)) :
    (c.renameOk = true ∧ (renamed c g.localFile content).1 = some content) ∨
      (c.renameOk = false ∧ (renamed c g.localFile content).1 = g.localFile ∧ md5 content = g.localMd5Dgst) := by
  unfold renamed
  cases hrename : c.renameOk with
  | true => exact .inl ⟨rfl, rfl⟩
  | false =>
      rcases h with ⟨-, h, -⟩ | ⟨heq, h⟩
      · rw [hrename] at h
        cases h
      · have hremove : c.removeOk = false := by
          rcases h with h | h | h
          · exact absurd rfl h
          · rw [hrename] at h
            cases h
          · exact h
        rw [hremove]
        exact .inr ⟨rfl, rfl, heq⟩

theorem FileInStep.install (h : FileInStep md5 g)
    (hkept : c.canReadNew = true → Kept md5 loads c g.localMd5Dgst content servrMd5Dgst)
    (hinstall : InstallResult fuel c g content servrMd5Dgst (md5 content) g' outcome) : FileInStep md5 g' := by
  cases hinstall with
  | unread => exact h
  | mismatch hread hne =>
      rcases hkept hread with ⟨heq, -⟩ | ⟨heq, -⟩
      · exact absurd heq hne
      · exact fun hexist content' hfile' => (h hexist content' hfile').trans heq.symm
  | load hread hdgst hload =>
      obtain rfl := hdgst
      rcases (hkept hread).localFile with ⟨-, hnew⟩ | ⟨-, hold, heq⟩
      · intro _ content' hfile'
        rw [Option.some.inj (hfile'.symm.trans hnew)]
      · exact fun hexist content' hfile' => (h hexist content' (hold.symm.trans hfile')).trans heq.symm

theorem KeepsStep.kept (h : KeepsStep md5 loads fuel c g) (hcheck : checkLocal md5 c g = some g₁)
    (hx : exchange fuel c g₁.localMd5Dgst = some (.complete content servrMd5Dgst)) (hdir : c.mkdirOk = true)
    (hserver : chooseServer c g₁ ≠ none) (hread : c.canReadNew = true) :
    Kept md5 loads c g₁.localMd5Dgst content servrMd5Dgst :=
  h _ _ _ ⟨hdir, hread, g₁, hcheck, rfl, hserver, hx⟩

theorem FileInStep.cycle (h : FileInStep md5 g) (hok : KeepsStep md5 loads fuel c g)
    (hcycle : tmDirtyLoadFromServer md5 fuel c g = some (g', outcome)) : FileInStep md5 g' := by
  cases tmDirtyLoadFromServer_result hcycle with
  | unchecked => exact h
  | failed flag _ hcheck => exact (h.check hcheck).1
  | upToDate flag hcheck => exact (h.check hcheck).1
  | nothingNew flag _ _ hcheck => exact (h.check hcheck).1
  | @complete g₁ _ _ content servrMd5Dgst flag hcheck hx hinstall =>
      have h₁ := (h.check hcheck).1
      rcases reaches_exchange hcheck hcycle with ⟨hdir, hserver⟩ | ⟨-, rfl | rfl⟩
      · have hkept := hok.kept hcheck hx hdir hserver
        exact FileInStep.install (g := { g₁ with availableServerFlag := flag }) h₁ hkept hinstall
      · exact h
      · exact h₁

theorem InstallResult.compiledFrom {dgst : List UInt8} (h : InstallResult fuel c g content servrMd5Dgst dgst g' .loaded)
    (hf : FlagOk g.handles) : c.canReadNew = true ∧ dgst = servrMd5Dgst ∧ g'.localMd5Dgst = dgst ∧
      g'.localFile = (renamed c g.localFile content).1 ∧
      ∃ content', (renamed c g.localFile content).1 = some content' ∧ CompiledFrom g'.handles content' := by
  generalize hout : Outcome.loaded = outcome at h
  cases h with
  | unread => cases hout
  | mismatch => cases hout
  | @load hs ret hread hdgst hload =>
      have hret : ret ≠ -1 := by
        intro hret
        rw [if_pos hret] at hout
        cases hout
      obtain ⟨content', hfile, hfrom⟩ := CompiledFrom.of_load hf hload hret
      refine ⟨hread, hdgst, rfl, rfl, content', ?_, hfrom⟩
      by_cases hcan : c.canLoad = true
      · rwa [if_pos hcan] at hfile
      · rw [if_neg hcan] at hfile
        cases hfile

/-- A first cycle that has loaded a dictionary leaves it in step. -/
theorem InStep.of_loaded (h : FileInStep md5 g) (hf : FlagOk g.handles) (hok : KeepsStep md5 loads fuel c g)
    (hcycle : tmDirtyLoadFromServer md5 fuel c g = some (g', .loaded)) : InStep md5 g' := by
  have hresult := tmDirtyLoadFromServer_result hcycle
  have hflag := hresult.flagOk hf
  generalize hout : Outcome.loaded = outcome at hresult hcycle
  cases hresult with
  | unchecked => cases hout
  | failed => cases hout
  | upToDate => cases hout
  | nothingNew => cases hout
  | @complete g₁ _ _ content servrMd5Dgst flag hcheck hx hinstall =>
      subst hout
      obtain ⟨h₁, -, hfile⟩ := h.check hcheck
      rcases reaches_exchange hcheck hcycle with ⟨hdir, hserver⟩ | ⟨hfail, -⟩
      · obtain ⟨hread, hdgst, hd, hl, content', hren, hfrom⟩ := hinstall.compiledFrom ((checkLocal_handles hcheck).symm ▸ hf)
        obtain rfl := hdgst
        have hkept := hok.kept hcheck hx hdir hserver hread
        rcases Kept.localFile (g := { g₁ with availableServerFlag := flag }) hkept with
          ⟨-, hnew⟩ | ⟨-, hold, heq⟩
        · obtain rfl := Option.some.inj (hren.symm.trans hnew)
          exact ⟨hflag, ⟨_, hl.trans hren, hd.symm⟩, ⟨_, hfrom, hd.symm⟩⟩
        · have hmd5 := hfile content' (hold.symm.trans hren)
          have hsame : md5 content' = g'.localMd5Dgst := hmd5.trans (heq.symm.trans hd.symm)
          exact ⟨hflag, ⟨_, hl.trans hren, hsame⟩, ⟨_, hfrom, hsame⟩⟩
      · cases hfail

end Taomee.Dirty
