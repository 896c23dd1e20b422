import Taomee.Attr.Shm

/-!
# Processes that attach the counters side by side

Every process that uses the counters looks for their segment, creates it if there is none and attaches
it, in system calls that interleave with those of the others. They all get the same segment, and none of
them clears what others have counted. A process that loses the race to create the segment goes on with
that of the winner.
-/

namespace Taomee.Attr

open Segments

variable {key : Int} {size : Nat} {refuses : Prop} {p : Nat} {k k' k₁ k₂ k₃ : Segments}

/-! ## What the processes rely on -/

/-- Segments stay, with their keys and sizes, and only new ones get a key. One that is added under the
key is found by it, and there was none before. -/
structure Grow (key : Int) (size : Nat) (k k' : Segments) : Prop where
  wf : k.Wf → k'.Wf
  segs : ∀ id seg, k.segs id = some seg → ∃ seg', k'.segs id = some seg' ∧ seg'.key = seg.key ∧ seg'.size = seg.size
  ids : ∀ key' id, k.ids key' = some id → k'.ids key' = some id
  added : ∀ id seg, k'.segs id = some seg → k.segs id = none → seg.key = key →
    k.ids key = none ∧ k'.ids key = some id ∧ seg.size = size
  found : ∀ key' id, k'.ids key' = some id → k.ids key' = some id ∨ k.segs id = none

theorem Grow.refl (k : Segments) : Grow key size k k where
  wf := id
  segs := fun _ seg h => ⟨seg, h, rfl, rfl⟩
  ids := fun _ _ h => h
  added := fun _ _ h hn => by
    rw [hn] at h
    cases h
  found := fun _ _ h => .inl h

theorem Grow.trans (h₁ : Grow key size k₁ k₂) (h₂ : Grow key size k₂ k₃) : Grow key size k₁ k₃ where
  wf := fun h => h₂.wf (h₁.wf h)
  segs := fun id seg h => by
    obtain ⟨seg₂, hs₂, hk₂, hz₂⟩ := h₁.segs id seg h
    obtain ⟨seg₃, hs₃, hk₃, hz₃⟩ := h₂.segs id seg₂ hs₂
    exact ⟨seg₃, hs₃, hk₃.trans hk₂, hz₃.trans hz₂⟩
  ids := fun key' id h => h₂.ids key' id (h₁.ids key' id h)
  added := fun id seg h hn hkey => by
    cases hs₂ : k₂.segs id with
    | none =>
        obtain ⟨hnone, hid, hsize⟩ := h₂.added id seg h hs₂ hkey
        refine ⟨?_, hid, hsize⟩
        cases hids : k₁.ids key with
        | none => rfl
        | some id₁ =>
            rw [h₁.ids key id₁ hids] at hnone
            cases hnone
    | some seg₂ =>
        obtain ⟨seg₃, hs₃, hk₃, hz₃⟩ := h₂.segs id seg₂ hs₂
        obtain rfl : seg = seg₃ := Option.some.inj (h.symm.trans hs₃)
        obtain ⟨hnone, hid, hsize⟩ := h₁.added id seg₂ hs₂ hn (hk₃.symm.trans hkey)
        exact ⟨hnone, h₂.ids key id hid, hz₃.trans hsize⟩
  found := fun key' id h => by
    rcases h₂.found key' id h with h | hn
    · exact h₁.found key' id h
    · cases hs : k₁.segs id with
      | none => exact .inr rfl
      | some seg =>
          obtain ⟨seg₂, hs₂, -⟩ := h₁.segs id seg hs
          rw [hn] at hs₂
          cases hs₂

/-- What a process relies on: nobody else attaches or detaches memory of its own. -/
def Rely (key : Int) (size : Nat) (p : Nat) (k k' : Segments) : Prop := Grow key size k k' ∧ k'.maps p = k.maps p

/-- What a process guarantees: it leaves the contents of all segments alone. -/
def Guar (key : Int) (size : Nat) (p : Nat) (k k' : Segments) : Prop :=
  Grow key size k k' ∧ (∀ q, q ≠ p → k'.maps q = k.maps q) ∧ ∀ id seg, k.segs id = some seg → k'.segs id = some seg

theorem Rely.refl (k : Segments) : Rely key size p k k := ⟨.refl k, rfl⟩

theorem Rely.trans (h₁ : Rely key size p k₁ k₂) (h₂ : Rely key size p k₂ k₃) : Rely key size p k₁ k₃ :=
  ⟨h₁.1.trans h₂.1, h₂.2.trans h₁.2⟩

/-! ## What a call guarantees -/

/-- Memory is attached or detached. -/
theorem grow_setMap {addr : Nat} {id : Option Nat} (hwf : ∀ i, id = some i → k.segs i ≠ none)
    (hnull : id ≠ none → addr ≠ 0) : Grow key size k (k.setMap p addr id) where
  wf := fun h => h.setMap hwf hnull
  segs := fun _ seg h => ⟨seg, h, rfl, rfl⟩
  ids := fun _ _ h => h
  added := fun i seg h hn => by
    have h' : k.segs i = some seg := h
    rw [hn] at h'
    cases h'
  found := fun _ _ h => .inl h

theorem grow_create (hkey : key ≠ ipcPrivate) (hwf : k.Wf) (hids : k.ids key = none) :
    Grow key size k (k.create key size) where
  wf := fun h => h.create hkey
  segs := fun id seg h => by
    have hne : id ≠ k.fresh := Nat.ne_of_lt (hwf.segs id seg h)
    exact ⟨seg, by rw [create_segs, if_neg hne]; exact h, rfl, rfl⟩
  ids := fun key' id h => by
    have hne : key' ≠ key := by
      rintro rfl
      rw [hids] at h
      cases h
    rw [create_ids hkey, if_neg hne]
    exact h
  added := fun id seg h hn _ => by
    rw [create_segs] at h
    by_cases hf : id = k.fresh
    · rw [if_pos hf] at h
      rw [create_ids hkey, if_pos rfl, hf, ← Option.some.inj h]
      exact ⟨hids, rfl, rfl⟩
    · rw [if_neg hf, hn] at h
      cases h
  found := fun key' id h => by
    rw [create_ids hkey] at h
    by_cases hk : key' = key
    · rw [if_pos hk] at h
      rw [← Option.some.inj h]
      exact .inr hwf.segs_fresh
    · rw [if_neg hk] at h
      exact .inl h

/-- The calls that the processes make. -/
def Tame (key : Int) (size : Nat) : ShmCall → Prop
  | .shmgetNew key' size' => key' = key ∧ size' = size
  | .store _ _ => False
  | _ => True

theorem Guar.same (k : Segments) : Guar key size p k k := ⟨.refl k, fun _ _ => rfl, fun _ _ h => h⟩

theorem guar_of_exec (hkey : key ≠ ipcPrivate) (hwf : k.Wf) {c : ShmCall} (hc : Tame key size c) {r : ShmAns c}
    (h : Exec refuses p k c r k') : Guar key size p k k' := by
  have hmaps : ∀ addr id q, q ≠ p → (k.setMap p addr id).maps q = k.maps q := fun addr id q hq => by
    simp [Segments.setMap, hq]
  rcases h with h | ⟨-, -, rfl⟩
  · cases h with
    | shmgetOld _ => exact .same k
    | shmgetNew hnew =>
        obtain ⟨rfl, rfl⟩ := hc
        refine ⟨grow_create hkey hwf (hnew.resolve_left hkey), fun _ _ => rfl, fun id seg h => ?_⟩
        have hne : id ≠ k.fresh := Nat.ne_of_lt (hwf.segs id seg h)
        rw [create_segs, if_neg hne]
        exact h
    | shmgetNewExists _ _ => exact .same k
    | shmctlStat => exact .same k
    | @shmat id addr hid haddr _ =>
        refine ⟨grow_setMap (fun i hi => ?_) fun _ => haddr, hmaps addr _, fun _ _ h => h⟩
        rw [← Option.some.inj hi]
        exact Option.isSome_iff_ne_none.mp hid
    | shmatGone _ => exact .same k
    | @shmdt addr =>
        refine ⟨grow_setMap (fun _ hi => ?_) fun hn => absurd rfl hn, hmaps addr _, fun _ _ h => h⟩
        cases hi
    | store => exact hc.elim
  · exact .same _

/-! ## What a process establishes -/

/-- The program of the process `p`, with the system as it is in `k`, establishes `post`. -/
def Establishes (key : Int) (size : Nat) (refuses : Prop) (p : Nat) {α : Type} (prog : ShmProg α)
    (post : α → Segments → Prop) (k : Segments) : Prop :=
  prog.Keeps (Exec refuses p) (Rely key size p) (Guar key size p) post k

variable {α β : Type}

theorem Establishes.ret {a : α} {post : α → Segments → Prop} (h : ∀ k', Rely key size p k k' → post a k') :
    Establishes key size refuses p (.ret a) post k := h

theorem Establishes.bind {prog : ShmProg α} {f : α → ShmProg β} {mid : α → Segments → Prop}
    {post : β → Segments → Prop} (h : Establishes key size refuses p prog mid k)
    (hf : ∀ a k', mid a k' → Grow key size k k' → Establishes key size refuses p (f a) post k') :
    Establishes key size refuses p (prog >>= f) post k :=
  -- segments that are there when the program starts are there when it has ended
  Prog.Keeps.bind_rel (R := Grow key size) Rely.refl Grow.refl (fun _ _ _ hg hr => hg.trans hr.1)
    (fun _ _ _ hg hr => hg.trans hr.1) h hf

/-- One call. -/
theorem Establishes.call (hkey : key ≠ ipcPrivate) (hwf : k.Wf) {c : ShmCall} (hc : Tame key size c)
    {post : ShmAns c → Segments → Prop}
    (h : ∀ k₁ r k₂ k₃, Rely key size p k k₁ → Exec refuses p k₁ c r k₂ → Rely key size p k₂ k₃ →
      post r k₃) :
    Establishes key size refuses p (.call c .ret) post k := fun k₁ hk₁ r k₂ hr =>
  have hwf₁ := hk₁.1.wf hwf
  have hguar := guar_of_exec hkey hwf₁ hc hr
  ⟨hguar, fun k₃ hk₃ => h k₁ r k₂ k₃ hk₁ hr hk₃⟩

/-- The segment `id` is there and has the size `segsz`. -/
def HasSize (id segsz : Nat) (k : Segments) : Prop := ∃ seg, k.segs id = some seg ∧ seg.size = segsz

theorem HasSize.grow {id segsz : Nat} (h : HasSize id segsz k) (hg : Grow key size k k') : HasSize id segsz k' := by
  obtain ⟨seg, hseg, rfl⟩ := h
  obtain ⟨seg', hseg', -, hsize⟩ := hg.segs id seg hseg
  exact ⟨seg', hseg', hsize⟩

theorem segs_grow {id : Nat} (h : k.segs id ≠ none) (hg : Grow key size k k') : k'.segs id ≠ none := by
  obtain ⟨seg, hseg⟩ := Option.ne_none_iff_exists'.mp h
  obtain ⟨seg', hseg', -⟩ := hg.segs id seg hseg
  rw [hseg']
  simp

theorem ids_grow {key' : Int} (h : k.ids key' ≠ none) (hg : Grow key size k k') : k'.ids key' ≠ none := by
  obtain ⟨id, hid⟩ := Option.ne_none_iff_exists'.mp h
  rw [hg.ids key' id hid]
  simp

theorem segs_of_ids {id : Nat} (hwf : k.Wf) (h : k.ids key = some id) : k.segs id ≠ none := by
  obtain ⟨seg, hseg, -⟩ := hwf.ids key id h
  rw [hseg]
  simp

theorem establishes_getOld (hkey : key ≠ ipcPrivate) (hwf : k.Wf) :
    Establishes key size refuses p (ShmCall.getOld key)
      (fun r k' => (∀ id, r = some id → k'.ids key = some id) ∧ (¬ refuses → k.ids key ≠ none → r ≠ none)) k := by
  refine .call (c := .shmgetOld key) hkey hwf trivial fun k₁ r k₂ k₃ h₁ hr h₃ => ?_
  rcases hr with hr | ⟨href, hr, rfl⟩
  · cases hr with
    | shmgetOld _ => exact ⟨fun id hid => h₃.1.ids key id hid, fun _ hk => ids_grow hk h₁.1⟩
  · cases hr
    exact ⟨fun id hid => (nomatch hid), fun hnot => absurd href hnot⟩

theorem establishes_stat (hkey : key ≠ ipcPrivate) (hwf : k.Wf) (id : Nat) :
    Establishes key size refuses p (ShmCall.stat id)
      (fun r k' => (∀ segsz, r = some segsz → HasSize id segsz k') ∧ (¬ refuses → k.segs id ≠ none → r ≠ none)) k := by
  refine .call (c := .shmctlStat id) hkey hwf trivial fun k₁ r k₂ k₃ h₁ hr h₃ => ?_
  rcases hr with hr | ⟨href, hr, rfl⟩
  · cases hr with
    | shmctlStat =>
        refine ⟨fun segsz hsz => ?_, fun _ hk hn => segs_grow hk h₁.1 (Option.map_eq_none_iff.mp hn)⟩
        obtain ⟨seg, hseg, rfl⟩ := Option.map_eq_some_iff.mp hsz
        exact HasSize.grow ⟨seg, hseg, rfl⟩ h₃.1
  · cases hr
    exact ⟨fun _ hsz => (nomatch hsz), fun hnot => absurd href hnot⟩

theorem establishes_getNew (hkey : key ≠ ipcPrivate) (hwf : k.Wf) :
    Establishes key size refuses p (ShmCall.getNew key size) (fun _ k' => ¬ refuses → k'.ids key ≠ none) k := by
  refine .call (c := .shmgetNew key size) hkey hwf ⟨rfl, rfl⟩ fun k₁ r k₂ k₃ h₁ hr h₃ hnot => ids_grow ?_ h₃.1
  rcases hr with hr | ⟨href, -, -⟩
  · cases hr with
    | shmgetNew _ =>
        rw [create_ids hkey, if_pos rfl]
        simp
    | shmgetNewExists _ hid =>
        rw [hid]
        simp
  · exact absurd href hnot

/-- The process `p` has the segment `id` at `addr`. -/
def Attached (p id addr : Nat) (k : Segments) : Prop := addr ≠ 0 ∧ k.maps p addr = some id

theorem establishes_attach (hkey : key ≠ ipcPrivate) (hwf : k.Wf) (id : Nat) :
    Establishes key size refuses p (ShmCall.attach id)
      (fun r k' => (∀ addr, r = some addr → Attached p id addr k') ∧ (¬ refuses → k.segs id ≠ none → r ≠ none)) k := by
  refine .call (c := .shmat id) hkey hwf trivial fun k₁ r k₂ k₃ h₁ hr h₃ => ?_
  rcases hr with hr | ⟨href, hr, rfl⟩
  · cases hr with
    | shmat _ haddr _ =>
        refine ⟨fun addr he => ?_, fun _ _ => by simp⟩
        obtain rfl := Option.some.inj he
        refine ⟨haddr, ?_⟩
        rw [h₃.2, setMap_maps, if_pos ⟨rfl, rfl⟩]
    | shmatGone hn => exact ⟨fun _ he => (nomatch he), fun _ hk => absurd hn (segs_grow hk h₁.1)⟩
  · cases hr
    exact ⟨fun _ he => (nomatch he), fun hnot => absurd href hnot⟩

/-- Detaching at one address leaves what is attached at another one. -/
theorem establishes_detach (hkey : key ≠ ipcPrivate) (hwf : k.Wf) (addr : Nat) :
    Establishes key size refuses p (ShmCall.detach addr)
      (fun _ k' => ∀ id addr', addr' ≠ addr → Attached p id addr' k → Attached p id addr' k') k := by
  refine .call (c := .shmdt addr) hkey hwf trivial fun k₁ r k₂ k₃ h₁ hr h₃ id addr' hne hat => ⟨hat.1, ?_⟩
  rw [h₃.2]
  have hmap : k₁.maps p addr' = some id := by
    rw [h₁.2]
    exact hat.2
  rcases hr with hr | ⟨-, -, rfl⟩
  · cases hr with
    | shmdt =>
        rw [setMap_maps, if_neg fun h => hne h.2]
        exact hmap
  · exact hmap

/-! ## The functions of shm.c -/

theorem establishes_getShmInfo (hkey : key ≠ ipcPrivate) (hwf : k.Wf) :
    Establishes key size refuses p (getShmInfo key)
      (fun r k' => (∀ id segsz, r = some (id, segsz) → k'.ids key = some id ∧ HasSize id segsz k') ∧
        (¬ refuses → k.ids key ≠ none → r ≠ none)) k := by
  unfold getShmInfo
  refine .bind (establishes_getOld hkey hwf) fun r k₁ ⟨hid, hthere⟩ hg₁ => ?_
  cases r with
  | none => exact .ret fun k' _ => ⟨fun _ _ he => (nomatch he), fun hnot hk => absurd rfl (hthere hnot hk)⟩
  | some id =>
      have hids := hid id rfl
      refine .bind (establishes_stat hkey (hg₁.wf hwf) id) fun r k₂ ⟨hsize, hstat⟩ hg₂ => ?_
      cases r with
      | none => exact .ret fun k' _ => ⟨fun _ _ he => (nomatch he),
          fun hnot _ => absurd rfl (hstat hnot (segs_of_ids (hg₁.wf hwf) hids))⟩
      | some segsz =>
          refine .ret fun k' hk' => ⟨fun id' segsz' he => ?_, fun _ _ => by simp⟩
          obtain ⟨rfl, rfl⟩ : id = id' ∧ segsz = segsz' := by simpa using he
          exact ⟨hk'.1.ids key id (hg₂.ids key id hids), (hsize segsz rfl).grow hk'.1⟩

theorem establishes_createShmInit (hkey : key ≠ ipcPrivate) (hwf : k.Wf) :
    Establishes key size refuses p (createShmInit key size none) (fun _ k' => ¬ refuses → k'.ids key ≠ none) k := by
  unfold createShmInit
  refine .bind (establishes_getNew hkey hwf) fun r k₁ hids hg₁ => ?_
  have hstay : ∀ {a : Int} {k₂ : Segments}, Grow key size k₁ k₂ →
      Establishes key size refuses p (.ret a) (fun _ k' => ¬ refuses → k'.ids key ≠ none) k₂ :=
    fun hg₂ => .ret fun k' hk' hnot => ids_grow (ids_grow (hids hnot) hg₂) hk'.1
  cases r with
  | none => exact hstay (.refl k₁)
  | some shmid =>
      refine .bind (establishes_attach hkey (hg₁.wf hwf) shmid) fun r k₂ _ hg₂ => ?_
      cases r with
      | none => exact hstay hg₂
      | some shm =>
          refine .bind (establishes_detach hkey (hg₂.wf (hg₁.wf hwf)) shm) fun r k₃ _ hg₃ => ?_
          exact hstay (hg₂.trans hg₃)

/-- After `get_shm`, whichever way it went, the segment is there. -/
theorem establishes_getShm (hkey : key ≠ ipcPrivate) (hwf : k.Wf) :
    Establishes key size refuses p (getShmCreateNoinitexist key size none) (fun _ k' => ¬ refuses → k'.ids key ≠ none)
      k := by
  unfold getShmCreateNoinitexist getShm
  have hzero : key ≠ 0 := hkey
  rw [if_neg hzero]
  refine .bind (establishes_getShmInfo hkey hwf) fun r k₁ ⟨hinfo, _⟩ hg₁ => ?_
  rcases r with - | ⟨id, segsz⟩
  · exact establishes_createShmInit hkey (hg₁.wf hwf)
  · have hids : k₁.ids key ≠ none := by
      rw [(hinfo id segsz rfl).1]
      simp
    dsimp only
    rw [if_pos (show (!false) = true from rfl)]
    split_ifs
    · exact .ret fun k' hk' _ => ids_grow hids hk'.1
    · exact .ret fun k' hk' _ => ids_grow hids hk'.1

/-- The manager describes the segment of the key, which the process has attached. -/
def Manages (key : Int) (p : Nat) (mgr : ShmMgr) (k : Segments) : Prop :=
  ∃ id : Nat, mgr.shmid = id ∧ k.ids key = some id ∧ HasSize id mgr.size k ∧ Attached p id mgr.shm k

theorem Manages.rely {mgr : ShmMgr} (h : Manages key p mgr k) (hr : Rely key size p k k') : Manages key p mgr k' := by
  obtain ⟨id, hshmid, hids, hsize, haddr, hmap⟩ := h
  refine ⟨id, hshmid, hr.1.ids key id hids, hsize.grow hr.1, haddr, ?_⟩
  rw [hr.2]
  exact hmap

theorem establishes_updateShmAttach (hkey : key ≠ ipcPrivate) (hwf : k.Wf) :
    Establishes key size refuses p (updateShmAttach (initShmMgr key))
      (fun r k' => (r.1 ≠ -1 → Manages key p r.2 k') ∧ (¬ refuses → k.ids key ≠ none → r.1 ≠ -1)) k := by
  unfold updateShmAttach
  have hzero : ¬ (initShmMgr key).key = 0 := hkey
  rw [if_neg hzero]
  refine .bind (establishes_getShmInfo hkey hwf) fun r k₁ ⟨hinfo, hthere⟩ hg₁ => ?_
  rcases r with - | ⟨id, segsz⟩
  · exact .ret fun k' _ => ⟨fun hne => absurd rfl hne, fun hnot hk => absurd rfl (hthere hnot hk)⟩
  · obtain ⟨hids, hsize⟩ := hinfo id segsz rfl
    have hnew : ¬ (initShmMgr key).shmid = (id : Int) := by
      change ¬ (-1 : Int) = id
      omega
    dsimp only
    rw [if_neg hnew]
    refine .bind (establishes_attach hkey (hg₁.wf hwf) id) fun r k₂ ⟨hatt, hat⟩ hg₂ => ?_
    cases r with
    | none => exact .ret fun k' _ => ⟨fun hne => absurd rfl hne,
        fun hnot _ => absurd rfl (hat hnot (segs_of_ids (hg₁.wf hwf) hids))⟩
    | some shm =>
        have hshm := hatt shm rfl
        refine .bind (establishes_detach hkey (hg₂.wf (hg₁.wf hwf)) _) fun r k₃ hdet hg₃ => ?_
        have hman : Manages key p { initShmMgr key with shmid := id, size := segsz, shm := shm } k₃ :=
          ⟨id, rfl, hg₃.ids key id (hg₂.ids key id hids), (hsize.grow hg₂).grow hg₃, hdet id shm hshm.1 hshm⟩
        exact .ret fun k' hk' => ⟨fun _ => hman.rely hk', fun _ _ => show (0 : Int) ≠ -1 by decide⟩

/-! ## get_attr_shm -/

/-- The size that `get_attr_shm` asks for. -/
def attrShmSize : Nat := calcHashTableSize nodeSize nodesNum

theorem shmKeyAttr_ne : shmKeyAttr ≠ ipcPrivate := by decide

theorem hashTableInit_attr : hashTableInit attrShmSize nodeSize nodesNum mods = some attrNodesHtab :=
  (Option.some_get _).symm

theorem attrNodesHtab_total : ¬ attrNodesHtab.totalNodeNum > maxHtNodesNum := by decide

/-- What a process has when `get_attr_shm` has returned 0. -/
def Ready (p : Nat) (a : AttrShm) (k : Segments) : Prop := Manages shmKeyAttr p a.mgr k ∧ a.htab = attrNodesHtab

theorem establishes_getAttrShm (hwf : k.Wf) :
    Establishes shmKeyAttr attrShmSize refuses p getAttrShm
      (fun r k' => (∀ a, r = some a → Ready p a k') ∧ (¬ refuses → r ≠ none)) k := by
  unfold getAttrShm
  refine .bind (establishes_getShm shmKeyAttr_ne hwf) fun _ k₁ hids hg₁ => ?_
  refine .bind (establishes_updateShmAttach shmKeyAttr_ne (hg₁.wf hwf)) fun r k₂ ⟨hman, hok⟩ hg₂ => ?_
  obtain ⟨ret, mgr⟩ := r
  dsimp only at hman hok ⊢
  by_cases hret : ret = -1
  · rw [if_pos hret]
    exact .ret fun k' _ => ⟨fun _ he => (nomatch he), fun hnot => absurd hret (hok hnot (hids hnot))⟩
  · obtain ⟨-, -, -, -, haddr, -⟩ := hman hret
    rw [if_neg hret, if_neg haddr]
    have hinit : hashTableInit (calcHashTableSize nodeSize nodesNum) nodeSize nodesNum mods = some attrNodesHtab :=
      hashTableInit_attr
    rw [hinit]
    dsimp only
    rw [if_neg attrNodesHtab_total]
    refine .ret fun k' hk' => ⟨fun a he => ?_, fun _ => by simp⟩
    obtain rfl := Option.some.inj he
    exact ⟨(hman hret).rely hk', rfl⟩

theorem establishes_attachAttrShm (calls : Nat) : ∀ {k : Segments}, k.Wf →
    Establishes shmKeyAttr attrShmSize refuses p (attachAttrShm calls)
      (fun r k' => (∀ a, r = some a → Ready p a k') ∧ (¬ refuses → calls ≠ 0 → r ≠ none)) k := by
  induction calls with
  | zero => exact fun _ => .ret fun k' _ => ⟨fun _ he => (nomatch he), fun _ h => absurd rfl h⟩
  | succ calls ih =>
      intro k hwf
      unfold attachAttrShm
      refine .bind (establishes_getAttrShm hwf) fun r k₁ ⟨hready, hok⟩ hg₁ => ?_
      cases r with
      | some a =>
          refine .ret fun k' hk' => ⟨fun a' he => ?_, fun _ _ => by simp⟩
          obtain rfl := Option.some.inj he
          exact ⟨(hready a rfl).1.rely hk', (hready a rfl).2⟩
      | none =>
          exact Prog.Keeps.mono (fun r k' h => ⟨h.1, fun hnot _ => absurd rfl (hok hnot)⟩) (ih (hg₁.wf hwf))

/-! ## All processes -/

/-- An attached process changes bytes of one of the segments `ids`. -/
def Writes (ids : Nat → Prop) (k k' : Segments) : Prop :=
  ∃ id seg bytes, ids id ∧ k.segs id = some seg ∧ k' = k.setSeg id { seg with bytes := bytes }

theorem grow_writes {ids : Nat → Prop} (h : Writes ids k k') : Grow key size k k' := by
  obtain ⟨id, seg, bytes, -, hseg, rfl⟩ := h
  refine ⟨fun hwf => hwf.setSeg_bytes bytes hseg, fun i seg' hi => ?_, fun _ _ h => h, fun i seg' hi hn => ?_,
    fun _ _ h => .inl h⟩
  · rw [setSeg_segs]
    split_ifs with hid
    · subst hid
      obtain rfl := Option.some.inj (hseg.symm.trans hi)
      exact ⟨_, rfl, rfl, rfl⟩
    · exact ⟨seg', hi, rfl, rfl⟩
  · rw [setSeg_segs] at hi
    split_ifs at hi with hid
    · rw [hid, hseg] at hn
      cases hn
    · rw [hn] at hi
      cases hi

/-- What a run of all processes leaves as it was. -/
def Stays (written : Nat → Prop) (k k' : Segments) : Prop :=
  Grow shmKeyAttr attrShmSize k k' ∧ ∀ id seg, ¬ written id → k.segs id = some seg → k'.segs id = some seg

variable {written : Nat → Prop} {calls : Nat → Nat} {progs : Nat → ShmProg (Option AttrShm)}

/-- Some system calls of the processes, each of which makes a number of calls of the interface, and some
writes of the processes that have attached the counters. -/
def Run (refuses : Prop) (written : Nat → Prop) (calls : Nat → Nat) (k : Segments)
    (progs : Nat → ShmProg (Option AttrShm)) (k' : Segments) : Prop :=
  Prog.Steps (Exec refuses) (Writes written) (fun p => attachAttrShm (calls p), k) (progs, k')

theorem writes_rely (h : Writes written k k') : Rely key size p k k' := by
  refine ⟨grow_writes h, ?_⟩
  obtain ⟨id, seg, bytes, -, -, rfl⟩ := h
  rfl

theorem rely_of_guar {q : Nat} (hpq : p ≠ q) (h : Guar key size q k k') : Rely key size p k k' := ⟨h.1, h.2.1 p hpq⟩

theorem stays_of_writes (h : Writes written k k') : Stays written k k' := by
  refine ⟨grow_writes h, fun i seg' hi hseg' => ?_⟩
  obtain ⟨id, seg, bytes, hid, -, rfl⟩ := h
  have hne : i ≠ id := fun he => hi (he ▸ hid)
  simpa [Segments.setSeg, hne] using hseg'

/-- Every process keeps to its part from the start. -/
theorem starts (refuses : Prop) (calls : Nat → Nat) (hwf : k.Wf) (p : Nat) :
    (attachAttrShm (calls p)).Keeps (Exec refuses p) (Rely shmKeyAttr attrShmSize p) (Guar shmKeyAttr attrShmSize p)
      (fun r k' => (∀ a, r = some a → Ready p a k') ∧ (¬ refuses → calls p ≠ 0 → r ≠ none)) k :=
  establishes_attachAttrShm (calls p) hwf

theorem Run.establishes (hwf : k.Wf) (hr : Run refuses written calls k progs k') (p : Nat) :
    (progs p).Keeps (Exec refuses p) (Rely shmKeyAttr attrShmSize p) (Guar shmKeyAttr attrShmSize p)
      (fun r k' => (∀ a, r = some a → Ready p a k') ∧ (¬ refuses → calls p ≠ 0 → r ≠ none)) k' :=
  have hstart := starts refuses calls hwf
  Prog.keeps_of_steps (fun _ => Rely.refl) (fun _ _ _ _ => Rely.trans) (fun _ _ _ _ => rely_of_guar)
    (fun _ _ _ => writes_rely) hstart hr p

theorem Run.stays (hwf : k.Wf) (hr : Run refuses written calls k progs k') : Stays written k k' :=
  have hstart := starts refuses calls hwf
  Prog.steps_keep (R := Stays written) (fun k => ⟨.refl k, fun _ _ _ h => h⟩)
    (fun _ _ _ h₁ h₂ => ⟨h₁.1.trans h₂.1, fun id seg hid h => h₂.2 id seg hid (h₁.2 id seg hid h)⟩)
    (fun _ => Rely.refl) (fun _ _ _ _ => Rely.trans) (fun _ _ _ _ => rely_of_guar) (fun _ _ _ => writes_rely)
    (fun _ _ _ h => ⟨h.1, fun id seg _ hs => h.2.2 id seg hs⟩) (fun _ _ => stays_of_writes)
    hstart hr

/-! ### A process that is overtaken -/

/-- The processes 0 and 1 make one call of the interface, the others none. -/
def twoCalls (p : Nat) : Nat := if p < 2 then 1 else 0

/-- Both find no segment. The process 0 creates it, so that the process 1 fails to; it attaches that of the process 0
and writes to it before that one has attached it. -/
theorem overtakenRun : ∃ progs k' a₀ a₁, Run False (· = 0) twoCalls fresh₀ progs k' ∧ progs 0 = .ret (some a₀) ∧
    progs 1 = .ret (some a₁) :=
  have start : Run False (· = 0) twoCalls fresh₀ (fun p => attachAttrShm (twoCalls p)) fresh₀ := .refl _
  have searched := (Prog.Steps.done start 0 rfl (.shmgetOld shmKeyAttr_ne)).done 1 rfl (.shmgetOld shmKeyAttr_ne)
  have created := (searched.done 0 rfl (.shmgetNew (.inr rfl))).done 1 rfl
    (show Done 1 _ (.shmgetNew _ _) none _ from .shmgetNewExists shmKeyAttr_ne rfl)
  have found := (created.done 1 rfl (.shmgetOld shmKeyAttr_ne)).done 1 rfl .shmctlStat
  have attached := (found.done 1 rfl (show Done 1 _ (.shmat _) (some 1) _ from .shmat rfl (by decide) rfl)).done
    1 rfl .shmdt
  have counted := attached.tail (.env ⟨0, ⟨shmKeyAttr, attrShmSize, fun _ => 0⟩, fun _ => 1, rfl, rfl, rfl⟩)
  have initialised := (counted.done 0 rfl (show Done 0 _ (.shmat _) (some 1) _ from .shmat rfl (by decide) rfl)).done
    0 rfl .shmdt
  have found₀ := (initialised.done 0 rfl (.shmgetOld shmKeyAttr_ne)).done 0 rfl .shmctlStat
  have attached₀ := (found₀.done 0 rfl (show Done 0 _ (.shmat _) (some 1) _ from .shmat rfl (by decide) rfl)).done
    0 rfl .shmdt
  ⟨_, _, _, _, attached₀, rfl, rfl⟩

/-! ### What holds of every run -/

/-- However the system calls of the processes interleave, and whichever of them are refused: all
processes whose `get_attr_shm` returned 0 have attached the same segment, that of the key, and describe it
rightly; the next call of each process leaves every segment alone, so that a segment changes only where an attached
process writes; and a segment is added under the key at most once, with the size of the table, when there was none. -/
theorem attach_agrees (hwf : k.Wf) (hr : Run refuses written calls k progs k') :
    (∀ p a, progs p = .ret (some a) → Manages shmKeyAttr p a.mgr k') ∧
      (∀ p c next r k'', progs p = .call c next → Exec refuses p k' c r k'' →
        ∀ id seg, k'.segs id = some seg → k''.segs id = some seg) ∧
      (∀ id seg, ¬ written id → k.segs id = some seg → k'.segs id = some seg) ∧
      ∀ id seg, k'.segs id = some seg → k.segs id = none → seg.key = shmKeyAttr →
        k.ids shmKeyAttr = none ∧ k'.ids shmKeyAttr = some id ∧ seg.size = attrShmSize := by
  refine ⟨fun p a hp => ?_, fun p c next r k'' hp hexec => ?_, (hr.stays hwf).2, (hr.stays hwf).1.added⟩
  · have h := hr.establishes hwf p
    rw [hp] at h
    exact ((h k' (.refl k')).1 a rfl).1
  · have h := hr.establishes hwf p
    rw [hp] at h
    exact (h k' (.refl k') r k'' hexec).1.2.2

theorem attach_agrees_overtaken : ∃ progs k' a₀ a₁, Run False (· = 0) twoCalls fresh₀ progs k' ∧
    progs 0 = .ret (some a₀) ∧ progs 1 = .ret (some a₁) ∧ Manages shmKeyAttr 0 a₀.mgr k' ∧
    Manages shmKeyAttr 1 a₁.mgr k' := by
  obtain ⟨progs, k', a₀, a₁, hr, hp₀, hp₁⟩ := overtakenRun
  have hagree := (attach_agrees wf_fresh₀ hr).1
  exact ⟨progs, k', a₀, a₁, hr, hp₀, hp₁, hagree 0 a₀ hp₀, hagree 1 a₁ hp₁⟩

/-- When the system refuses no call, every process that uses the counters gets them, also one that
another process overtakes between its search for the segment and its attempt to create it. -/
theorem attach_succeeds (hwf : k.Wf) (hr : Run False written calls k progs k') {r : Option AttrShm}
    (hcalls : calls p ≠ 0) (hp : progs p = .ret r) : ∃ a, r = some a ∧ Manages shmKeyAttr p a.mgr k' := by
  have h := hr.establishes hwf p
  rw [hp] at h
  obtain ⟨hready, hok⟩ := h k' (.refl k')
  obtain ⟨a, rfl⟩ := Option.ne_none_iff_exists'.mp (hok id hcalls)
  exact ⟨a, rfl, (hready a rfl).1⟩

theorem attach_succeeds_overtaken : ∃ progs k' r, Run False (· = 0) twoCalls fresh₀ progs k' ∧
    progs 1 = .ret r ∧ ∃ a, r = some a ∧ Manages shmKeyAttr 1 a.mgr k' := by
  obtain ⟨progs, k', -, a, hr, -, hp⟩ := overtakenRun
  exact ⟨progs, k', some a, hr, hp, attach_succeeds wf_fresh₀ hr (by decide) hp⟩

/-- `get_attr_shm` lays its table over the segment whatever the size of the segment is: the table lies in
the segment exactly when there was none before or one that is large enough. -/
theorem attach_inSegment_iff (hwf : k.Wf) (hr : Run refuses written calls k progs k') {a : AttrShm}
    (hp : progs p = .ret (some a)) : nodeSize * a.htab.totalNodeNum ≤ a.mgr.size ↔
      ∀ id seg, k.ids shmKeyAttr = some id → k.segs id = some seg → attrShmSize ≤ seg.size := by
  have h := hr.establishes hwf p
  rw [hp] at h
  obtain ⟨⟨id, -, hids, ⟨seg, hseg, hsize⟩, -⟩, hhtab⟩ := (h k' (.refl k')).1 a rfl
  have htotal : nodeSize * a.htab.totalNodeNum = attrShmSize := by
    rw [hhtab]
    decide
  rw [htotal, ← hsize]
  obtain ⟨hgrow, -⟩ := hr.stays hwf
  constructor
  · intro hle id₀ seg₀ hids₀ hseg₀
    obtain rfl : id₀ = id := Option.some.inj ((hgrow.ids _ _ hids₀).symm.trans hids)
    obtain ⟨seg', hseg', -, hsize'⟩ := hgrow.segs id₀ seg₀ hseg₀
    obtain rfl : seg = seg' := Option.some.inj (hseg.symm.trans hseg')
    rw [← hsize']
    exact hle
  · intro hall
    cases hseg₀ : k.segs id with
    | none =>
        obtain ⟨seg', hseg', hkey⟩ := (hgrow.wf hwf).ids _ _ hids
        obtain rfl : seg = seg' := Option.some.inj (hseg.symm.trans hseg')
        exact (hgrow.added id seg hseg hseg₀ hkey).2.2.ge
    | some seg₀ =>
        obtain ⟨seg', hseg', hkey, hsize'⟩ := hgrow.segs id seg₀ hseg₀
        obtain rfl : seg = seg' := Option.some.inj (hseg.symm.trans hseg')
        have hids₀ : k.ids shmKeyAttr = some id := (hgrow.found _ _ hids).resolve_right fun hn => by
          rw [hseg₀] at hn
          cases hn
        rw [hsize']
        exact hall id seg₀ hids₀ hseg₀

theorem attach_inSegment_iff_overtaken : ∃ progs k' a, Run False (· = 0) twoCalls fresh₀ progs k' ∧
    progs 1 = .ret (some a) ∧ nodeSize * a.htab.totalNodeNum ≤ a.mgr.size := by
  obtain ⟨progs, k', -, a, hr, -, hp⟩ := overtakenRun
  exact ⟨progs, k', a, hr, hp, (attach_inSegment_iff wf_fresh₀ hr hp).mpr fun id seg hids => nomatch hids⟩

end Taomee.Attr
