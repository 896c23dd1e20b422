import Taomee.Shm.Segment

/-!
# Attachments that are kept up to date

A process calls an update again and again, while others remove segments and create new ones under the
key. After each call it has one attachment, that of its manager: an update that finds a new segment
gives up the old one, and one that fails leaves it.
-/

namespace Taomee.Shm

open Attr Segments

variable {refuses : Prop} {p : Nat} {k k' k₁ k₂ k₃ : Segments} {mgr : ShmMgr}

/-! ## What the processes rely on -/

/-- A number that was given out is that of the same segment, or of none. -/
structure Later (k k' : Segments) : Prop where
  wf : k.Wf → k'.Wf
  fresh : k.fresh ≤ k'.fresh
  back : ∀ id seg', id < k.fresh → k'.segs id = some seg' →
    ∃ seg, k.segs id = some seg ∧ seg'.key = seg.key ∧ seg'.size = seg.size

theorem Later.refl (k : Segments) : Later k k := ⟨id, le_rfl, fun _ seg _ h => ⟨seg, h, rfl, rfl⟩⟩

theorem Later.trans (h₁ : Later k₁ k₂) (h₂ : Later k₂ k₃) : Later k₁ k₃ where
  wf := fun h => h₂.wf (h₁.wf h)
  fresh := h₁.fresh.trans h₂.fresh
  back := fun id seg₃ hlt hseg₃ => by
    obtain ⟨seg₂, hseg₂, hkey₂, hsize₂⟩ := h₂.back id seg₃ (hlt.trans_le h₁.fresh) hseg₃
    obtain ⟨seg₁, hseg₁, hkey₁, hsize₁⟩ := h₁.back id seg₂ hlt hseg₂
    exact ⟨seg₁, hseg₁, hkey₂.trans hkey₁, hsize₂.trans hsize₁⟩

/-- The others leave what the process has attached. -/
def Undisturbed (p : Nat) (k k' : Segments) : Prop := Later k k' ∧ k'.maps p = k.maps p

/-- The process leaves what the others have attached. -/
def Own (p : Nat) (k k' : Segments) : Prop := Later k k' ∧ ∀ q, q ≠ p → k'.maps q = k.maps q

theorem Undisturbed.refl (k : Segments) : Undisturbed p k k := ⟨.refl k, rfl⟩

theorem Undisturbed.trans (h₁ : Undisturbed p k₁ k₂) (h₂ : Undisturbed p k₂ k₃) : Undisturbed p k₁ k₃ :=
  ⟨h₁.1.trans h₂.1, h₂.2.trans h₁.2⟩

theorem Own.refl (k : Segments) : Own p k k := ⟨.refl k, fun _ _ => rfl⟩

theorem Own.undisturbed {q : Nat} (h : Own q k k') (hpq : p ≠ q) : Undisturbed p k k' := ⟨h.1, h.2 p hpq⟩

theorem own_setMap {addr : Nat} {id : Option Nat} (hid : ∀ i, id = some i → k.segs i ≠ none)
    (hnull : id ≠ none → addr ≠ 0) : Own p k (k.setMap p addr id) := by
  refine ⟨⟨fun h => h.setMap hid hnull, le_rfl, fun _ seg _ h => ⟨seg, h, rfl, rfl⟩⟩, fun q hq => ?_⟩
  simp [Segments.setMap, hq]

/-- The program of the process `p`, with the system as it is in `k`, establishes `post`. -/
def Ensures (refuses : Prop) (p : Nat) {α : Type} (prog : ShmProg α) (post : α → Segments → Prop) (k : Segments) :
    Prop :=
  prog.Keeps (Exec refuses p) (Undisturbed p) (Own p) post k

variable {α β : Type}

theorem Ensures.ret {a : α} {post : α → Segments → Prop} (h : ∀ k', Undisturbed p k k' → post a k') :
    Ensures refuses p (.ret a) post k := h

theorem Ensures.bind {prog : ShmProg α} {f : α → ShmProg β} {mid : α → Segments → Prop}
    {post : β → Segments → Prop} (h : Ensures refuses p prog mid k)
    (hf : ∀ a k', mid a k' → Later k k' → Ensures refuses p (f a) post k') :
    Ensures refuses p (prog >>= f) post k :=
  Prog.Keeps.bind_rel (R := Later) Undisturbed.refl Later.refl (fun _ _ _ hl hr => hl.trans hr.1)
    (fun _ _ _ hl hr => hl.trans hr.1) h hf

/-! ## The calls of an update -/

/-- The number `id` was given to a segment of the key, which has gone or is there as it was. -/
def Given (key : Int) (id : Nat) (k : Segments) : Prop :=
  id < k.fresh ∧ ∀ seg, k.segs id = some seg → seg.key = key

/-- The segment also has this size. -/
def GivenSize (key : Int) (id segsz : Nat) (k : Segments) : Prop :=
  Given key id k ∧ ∀ seg, k.segs id = some seg → seg.size = segsz

variable {key : Int} {id segsz : Nat}

theorem Given.later (h : Given key id k) (hl : Later k k') : Given key id k' := by
  refine ⟨h.1.trans_le hl.fresh, fun seg' hseg' => ?_⟩
  obtain ⟨seg, hseg, hkey, -⟩ := hl.back id seg' h.1 hseg'
  rw [hkey]
  exact h.2 seg hseg

theorem GivenSize.later (h : GivenSize key id segsz k) (hl : Later k k') : GivenSize key id segsz k' := by
  refine ⟨h.1.later hl, fun seg' hseg' => ?_⟩
  obtain ⟨seg, hseg, -, hsize⟩ := hl.back id seg' h.1.1 hseg'
  rw [hsize]
  exact h.2 seg hseg

theorem ensures_getOld (hwf : k.Wf) (key : Int) : Ensures refuses p (ShmCall.getOld key)
    (fun r k' => k'.maps p = k.maps p ∧ ∀ id, r = some id → Given key id k') k := by
  rintro k₁ ⟨hl₁, hm₁⟩ r k₂ (h | ⟨-, h, rfl⟩)
  · cases h with
    | shmgetOld _ =>
        refine ⟨.refl k₁, fun k₃ ⟨hl₃, hm₃⟩ => ⟨hm₃.trans hm₁, fun id hid => Given.later ?_ hl₃⟩⟩
        obtain ⟨seg, hseg, hkey⟩ := (hl₁.wf hwf).ids key id hid
        refine ⟨(hl₁.wf hwf).segs id seg hseg, fun seg' hseg' => ?_⟩
        rw [← hkey, Option.some.inj (hseg.symm.trans hseg')]
  · cases h
    exact ⟨.refl _, fun k₃ ⟨_, hm₃⟩ => ⟨hm₃.trans hm₁, fun _ he => nomatch he⟩⟩

theorem ensures_stat (h : Given key id k) : Ensures refuses p (ShmCall.stat id)
    (fun r k' => k'.maps p = k.maps p ∧ ∀ segsz, r = some segsz → GivenSize key id segsz k') k := by
  rintro k₁ ⟨hl₁, hm₁⟩ r k₂ (hr | ⟨-, hr, rfl⟩)
  · cases hr with
    | shmctlStat =>
        refine ⟨.refl k₁, fun k₃ ⟨hl₃, hm₃⟩ => ⟨hm₃.trans hm₁, fun segsz hsz => GivenSize.later ?_ hl₃⟩⟩
        obtain ⟨seg, hseg, rfl⟩ := Option.map_eq_some_iff.mp hsz
        exact ⟨h.later hl₁, fun seg' hseg' => by rw [Option.some.inj (hseg.symm.trans hseg')]⟩
  · cases hr
    exact ⟨.refl _, fun k₃ ⟨_, hm₃⟩ => ⟨hm₃.trans hm₁, fun _ he => nomatch he⟩⟩

theorem ensures_attach (id : Nat) : Ensures refuses p (ShmCall.attach id)
    (fun r k' => (r = none → k'.maps p = k.maps p) ∧ ∀ addr, r = some addr → addr ≠ 0 ∧ k.maps p addr = none ∧
      k'.maps p = Function.update (k.maps p) addr (some id)) k := by
  rintro k₁ ⟨hl₁, hm₁⟩ r k₂ (hr | ⟨-, hr, rfl⟩)
  · cases hr with
    | @shmat _ addr hid haddr hfree =>
        refine ⟨own_setMap (fun i hi => ?_) fun _ => haddr, fun k₃ hk₃ => ⟨fun he => ?_, fun addr' he => ?_⟩⟩
        · rw [← Option.some.inj hi]
          exact Option.isSome_iff_ne_none.mp hid
        · cases he
        · obtain rfl := Option.some.inj he
          refine ⟨haddr, by rw [← hm₁]; exact hfree, ?_⟩
          rw [hk₃.2, ← hm₁]
          simp [Segments.setMap]
    | shmatGone _ =>
        refine ⟨.refl _, fun k₃ hk₃ => ⟨fun _ => hk₃.2.trans hm₁, fun _ he => ?_⟩⟩
        cases he
  · cases hr
    refine ⟨.refl _, fun k₃ hk₃ => ⟨fun _ => hk₃.2.trans hm₁, fun _ he => ?_⟩⟩
    cases he

theorem ensures_detach (addr : Nat) : Ensures refuses p (ShmCall.detach addr)
    (fun _ k' => k'.maps p = Function.update (k.maps p) addr none) k := by
  rintro k₁ ⟨hl₁, hm₁⟩ r k₂ (hr | ⟨-, hr, rfl⟩)
  · cases hr with
    | shmdt =>
        refine ⟨own_setMap (fun _ he => nomatch he) fun h => absurd rfl h, fun k₃ ⟨_, hm₃⟩ => ?_⟩
        change k₃.maps p = _
        rw [hm₃, ← hm₁]
        simp [Segments.setMap]
  · cases hr

/-! ## An update -/

/-- All that the process has attached is the segment of its manager, and the manager describes it. -/
structure Holds (p : Nat) (mgr : ShmMgr) (k : Segments) : Prop where
  only : ∀ addr id, k.maps p addr = some id → addr = mgr.shm
  attached : mgr.shm ≠ 0 → ∃ id seg, mgr.shmid = (id : Nat) ∧ k.maps p mgr.shm = some id ∧ k.segs id = some seg ∧
    seg.key = mgr.key ∧ seg.size = mgr.size

theorem Holds.later (h : Holds p mgr k) (hwf : k.Wf) (hl : Later k k') (hm : k'.maps p = k.maps p) :
    Holds p mgr k' := by
  refine ⟨fun addr id hmap => h.only addr id (by rwa [← hm]), fun hshm => ?_⟩
  obtain ⟨id, seg, hshmid, hmap, hseg, hkey, hsize⟩ := h.attached hshm
  have hmap' : k'.maps p mgr.shm = some id := by rwa [hm]
  obtain ⟨seg', hseg'⟩ := Option.ne_none_iff_exists'.mp ((hl.wf hwf).maps p mgr.shm id hmap')
  obtain ⟨seg₁, hseg₁, hkey', hsize'⟩ := hl.back id seg' (hwf.segs id seg hseg) hseg'
  obtain rfl : seg = seg₁ := Option.some.inj (hseg.symm.trans hseg₁)
  exact ⟨id, seg', hshmid, hmap', hseg', hkey'.trans hkey, hsize'.trans hsize⟩

/-- The new segment is attached before the old one is given up, at another address. -/
theorem Holds.renew {shm : Nat} (h : Holds p mgr k) (hwf : k'.Wf) (hshm : shm ≠ 0) (hfree : k.maps p shm = none)
    (hmaps : k'.maps p = Function.update (Function.update (k.maps p) shm (some id)) mgr.shm none)
    (hgiven : GivenSize mgr.key id segsz k') : Holds p { mgr with shmid := id, size := segsz, shm := shm } k' := by
  have hne : shm ≠ mgr.shm := by
    rintro rfl
    obtain ⟨id', -, -, hmap, -⟩ := h.attached hshm
    rw [hfree] at hmap
    cases hmap
  have hmap : k'.maps p shm = some id := by
    rw [hmaps, Function.update_of_ne hne, Function.update_self]
  refine ⟨fun addr id' haddr => ?_, fun _ => ?_⟩
  · change addr = shm
    by_contra hother
    rw [hmaps] at haddr
    by_cases hold : addr = mgr.shm
    · rw [hold, Function.update_self] at haddr
      cases haddr
    · rw [Function.update_of_ne hold, Function.update_of_ne hother] at haddr
      exact hold (h.only addr id' haddr)
  · obtain ⟨seg, hseg⟩ := Option.ne_none_iff_exists'.mp (hwf.maps p shm id hmap)
    exact ⟨id, seg, rfl, hmap, hseg, hgiven.1.2 seg hseg, hgiven.2 seg hseg⟩

/-- What an update leaves: the process holds its segment, of the same key. -/
def Renewed (p : Nat) (mgr : ShmMgr) (r : Int × ShmMgr) (k' : Segments) : Prop := Holds p r.2 k' ∧ r.2.key = mgr.key

/-- An update that goes no further. -/
theorem Holds.ensures_ret (h : Holds p mgr k) (hwf : k.Wf) (ret : Int) (hl : Later k k₁)
    (hm : k₁.maps p = k.maps p) : Ensures refuses p (.ret (ret, mgr)) (Renewed p mgr) k₁ :=
  .ret fun _ ⟨hl', hm'⟩ => ⟨h.later hwf (hl.trans hl') (hm'.trans hm), rfl⟩

/-- The end of both updates. -/
theorem Holds.ensures_reattach (h : Holds p mgr k) (hwf : k.Wf) (hl : Later k k₁) (hm : k₁.maps p = k.maps p)
    (hgiven : GivenSize mgr.key id segsz k₁) : Ensures refuses p
      (do
        match ← ShmCall.attach id with
        | none => return (-1, mgr)
        | some shm =>
            let _ ← ShmCall.detach mgr.shm
            return (0, { mgr with shmid := id, size := segsz, shm := shm }))
      (Renewed p mgr) k₁ := by
  refine .bind (ensures_attach id) fun r k₂ ⟨hnone, hsome⟩ hl₂ => ?_
  cases r with
  | none => exact h.ensures_ret hwf _ (hl.trans hl₂) ((hnone rfl).trans hm)
  | some shm =>
      obtain ⟨hshm, hfree, hmaps₂⟩ := hsome shm rfl
      refine .bind (ensures_detach _) fun _ k₃ hmaps₃ hl₃ => .ret fun k' ⟨hl', hm'⟩ => ⟨?_, rfl⟩
      have hl₄ := (hl₂.trans hl₃).trans hl'
      refine h.renew ((hl.trans hl₄).wf hwf) hshm (by rwa [← hm]) ?_ (hgiven.later hl₄)
      rw [hm', hmaps₃, hmaps₂, hm]

theorem ensures_updateShmAttach (hwf : k.Wf) (h : Holds p mgr k) :
    Ensures refuses p (updateShmAttach mgr) (Renewed p mgr) k := by
  unfold updateShmAttach
  split_ifs
  · exact h.ensures_ret hwf _ (.refl k) rfl
  · have hinfo : Ensures refuses p (getShmInfo mgr.key) (fun r k' => k'.maps p = k.maps p ∧
        ∀ id segsz, r = some (id, segsz) → GivenSize mgr.key id segsz k') k := by
      unfold getShmInfo
      refine .bind (ensures_getOld hwf _) fun r k₁ ⟨hm₁, hid⟩ hl₁ => ?_
      cases r with
      | none => exact .ret fun _ hk' => ⟨hk'.2.trans hm₁, nofun⟩
      | some id =>
          refine .bind (ensures_stat (hid id rfl)) fun r k₂ ⟨hm₂, hsz⟩ _ => ?_
          cases r with
          | none => exact .ret fun _ hk' => ⟨hk'.2.trans (hm₂.trans hm₁), nofun⟩
          | some segsz =>
              refine .ret fun _ hk' => ⟨hk'.2.trans (hm₂.trans hm₁), fun id' segsz' he => ?_⟩
              obtain ⟨rfl, rfl⟩ : id = id' ∧ segsz = segsz' := by simpa using he
              exact (hsz segsz rfl).later hk'.1
    refine .bind hinfo fun r k₁ ⟨hm₁, hgiven⟩ hl₁ => ?_
    rcases r with - | ⟨id, segsz⟩
    · exact h.ensures_ret hwf _ hl₁ hm₁
    · dsimp only
      split_ifs
      · exact h.ensures_ret hwf _ hl₁ hm₁
      · exact h.ensures_ret hwf _ hl₁ hm₁
      · exact h.ensures_reattach hwf hl₁ hm₁ (hgiven id segsz rfl)

theorem ensures_tmShmUpdateAttach (hwf : k.Wf) (h : Holds p mgr k) :
    Ensures refuses p (tmShmUpdateAttach mgr) (Renewed p mgr) k := by
  unfold tmShmUpdateAttach
  split_ifs
  · exact h.ensures_ret hwf _ (.refl k) rfl
  · refine .bind (ensures_getOld hwf _) fun r k₁ ⟨hm₁, hid⟩ hl₁ => ?_
    cases r with
    | none => exact h.ensures_ret hwf _ hl₁ hm₁
    | some id =>
        refine .bind (ensures_stat (hid id rfl)) fun r k₂ ⟨hm₂, hsz⟩ hl₂ => ?_
        cases r with
        | none => exact h.ensures_ret hwf _ (hl₁.trans hl₂) (hm₂.trans hm₁)
        | some segsz =>
            dsimp only
            split_ifs
            · exact h.ensures_ret hwf _ (hl₁.trans hl₂) (hm₂.trans hm₁)
            · exact h.ensures_reattach hwf (hl₁.trans hl₂) (hm₂.trans hm₁) (hsz segsz rfl)

/-! ## Updates without end -/

/-- Which of the two libraries a process uses. -/
inductive Interface where
  | attrApi
  | tmShm

def Interface.update : Interface → ShmMgr → ShmProg (Int × ShmMgr)
  | .attrApi => updateShmAttach
  | .tmShm => tmShmUpdateAttach

/-- So many updates of one manager. -/
def updates (lib : Interface) : Nat → ShmMgr → ShmProg ShmMgr
  | 0, mgr => return mgr
  | calls + 1, mgr => do
      let (_, mgr) ← lib.update mgr
      updates lib calls mgr

theorem ensures_updates (lib : Interface) (calls : Nat) : ∀ {mgr : ShmMgr} {k : Segments}, k.Wf → Holds p mgr k →
    Ensures refuses p (updates lib calls mgr) (fun mgr' k' => Holds p mgr' k' ∧ mgr'.key = mgr.key) k := by
  induction calls with
  | zero => exact fun hwf h => .ret fun _ ⟨hl, hm⟩ => ⟨h.later hwf hl hm, rfl⟩
  | succ calls ih =>
      intro mgr k hwf h
      have hupdate : Ensures refuses p (lib.update mgr) (Renewed p mgr) k := by
        cases lib with
        | attrApi => exact ensures_updateShmAttach hwf h
        | tmShm => exact ensures_tmShmUpdateAttach hwf h
      refine .bind hupdate fun r k₁ ⟨hr, hkey⟩ hl => ?_
      exact Prog.Keeps.mono (fun mgr' k' h' => ⟨h'.1, h'.2.trans hkey⟩) (ih (hl.wf hwf) hr)

/-- What others do: they remove segments, create them under keys that are free and write to them. -/
inductive Others : Segments → Segments → Prop
  | removed {k k' : Segments} : Removed k k' → Others k k'
  | created {k : Segments} {key : Int} {size : Nat} : key ≠ ipcPrivate → k.ids key = none →
      Others k (k.create key size)
  | written {k : Segments} {id : Nat} {seg : Segment} {bytes : Buf} : k.segs id = some seg →
      Others k (k.setSeg id { seg with bytes := bytes })

theorem later_created (hkey : key ≠ ipcPrivate) (size : Nat) : Later k (k.create key size) where
  wf := fun h => h.create hkey
  fresh := Nat.le_succ _
  back := fun id seg' hlt hseg' => by
    rw [create_segs, if_neg hlt.ne] at hseg'
    exact ⟨seg', hseg', rfl, rfl⟩

theorem later_setSeg {seg : Segment} (bytes : Buf) (hseg : k.segs id = some seg) :
    Later k (k.setSeg id { seg with bytes := bytes }) where
  wf := fun h => h.setSeg_bytes bytes hseg
  fresh := le_rfl
  back := fun i seg' _ hseg' => by
    rw [setSeg_segs] at hseg'
    split_ifs at hseg' with hi
    · rw [← Option.some.inj hseg', hi]
      exact ⟨seg, hseg, rfl, rfl⟩
    · exact ⟨seg', hseg', rfl, rfl⟩

theorem later_removed (h : Removed k k') : Later k k' := by
  cases h with
  | @key key => exact ⟨fun hwf => hwf.removeKey key, le_rfl, fun _ seg' _ hseg' => ⟨seg', hseg', rfl, rfl⟩⟩
  | @gone id hids hmaps =>
      refine ⟨fun hwf => hwf.removeSeg hids hmaps, le_rfl, fun i seg' _ hseg' => ⟨seg', ?_, rfl, rfl⟩⟩
      change Function.update k.segs id none i = some seg' at hseg'
      by_cases hi : i = id
      · rw [hi, Function.update_self] at hseg'
        cases hseg'
      · rwa [Function.update_of_ne hi] at hseg'

theorem Others.undisturbed (h : Others k k') : Undisturbed p k k' := by
  cases h with
  | removed h => exact ⟨later_removed h, by cases h <;> rfl⟩
  | created hkey _ => exact ⟨later_created hkey _, rfl⟩
  | written hseg => exact ⟨later_setSeg _ hseg, rfl⟩

/-- However the updates of all processes interleave, whatever fails, and whichever segments are removed
and created meanwhile: a process that has made its updates has attached one segment at most, which is of
its manager's key and is as the manager says. Nothing that was attached in between is left behind. -/
theorem updates_hold {lib : Nat → Interface} {calls : Nat → Nat} {first : Nat → ShmMgr}
    {progs : Nat → ShmProg ShmMgr} (hwf : k.Wf) (hfirst : ∀ p, Holds p (first p) k)
    (hr : Prog.Steps (Exec refuses) Others (fun p => updates (lib p) (calls p) (first p), k) (progs, k'))
    (hp : progs p = .ret mgr) : Holds p mgr k' ∧ mgr.key = (first p).key := by
  have hstart : ∀ p, (updates (lib p) (calls p) (first p)).Keeps (Exec refuses p) (Undisturbed p) (Own p)
      (fun mgr' k' => Holds p mgr' k' ∧ mgr'.key = (first p).key) k :=
    fun p => ensures_updates (lib p) (calls p) hwf (hfirst p)
  have h := Prog.keeps_of_steps (fun _ => Undisturbed.refl) (fun _ _ _ _ => Undisturbed.trans)
    (fun _ _ _ _ hpq hq => hq.undisturbed hpq) (fun _ _ _ => Others.undisturbed) hstart hr p
  change (progs p).Keeps _ _ _ _ k' at h
  rw [hp] at h
  exact h k' (.refl k')

theorem holds_fresh₀ (p : Nat) (key : Int) : Holds p (initShmMgr key) fresh₀ := ⟨nofun, fun h => absurd rfl h⟩

/-- One process, which attaches a segment that others have created. -/
def oneUpdate (p : Nat) : ShmProg ShmMgr := updates .tmShm (if p = 0 then 1 else 0) (initShmMgr 5)

theorem updates_hold_one : ∃ progs k' mgr, Prog.Steps (Exec False) Others (oneUpdate, fresh₀) (progs, k') ∧
    progs 0 = .ret mgr ∧ mgr.shm = 1 ∧ Holds 0 mgr k' := by
  have run : ∃ progs k' mgr, Prog.Steps (Exec False) Others (oneUpdate, fresh₀) (progs, k') ∧
      progs 0 = .ret mgr ∧ mgr.shm = 1 :=
    have start : Prog.Steps (Exec False) Others (oneUpdate, fresh₀) (oneUpdate, fresh₀.create 5 8) :=
      .tail (.refl _) (.env (.created (by decide) rfl))
    have found := (start.done 0 rfl (.shmgetOld (by decide))).done 0 rfl .shmctlStat
    have attached := (found.done 0 rfl (show Done 0 _ (.shmat _) (some 1) _ from .shmat rfl (by decide) rfl)).done
      0 rfl .shmdt
    ⟨_, _, _, attached, rfl, rfl⟩
  obtain ⟨progs, k', mgr, hr, hp, hshm⟩ := run
  exact ⟨progs, k', mgr, hr, hp, hshm, (updates_hold wf_fresh₀ (fun p => holds_fresh₀ p 5) hr hp).1⟩

end Taomee.Shm
