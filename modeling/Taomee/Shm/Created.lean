import Taomee.Shm.Segment

/-!
# Segments that are created and initialised

Both libraries create a segment under a key, or take the one that is there when its size is right, and
initialise it. While no other process works on the key, which segment is there afterwards, with which
bytes, depends on the one before only. Processes that work on different keys do not get in each other's
way.
-/

namespace Taomee.Shm

open Attr Segments

variable {refuses : Prop} {p : Nat} {key : Int} {size id addr : Nat} {k k' k₁ k₂ k₃ : Segments} {seg : Segment}

/-- The segment that has the key. -/
def find (key : Int) (k : Segments) : Option Segment := (k.ids key).bind k.segs

/-! ## What the processes rely on -/

/-- The key, its segment and what the process has attached are as they were. -/
structure Aside (key : Int) (p : Nat) (k k' : Segments) : Prop where
  wf : k.Wf → k'.Wf
  maps : k'.maps p = k.maps p
  ids : k'.ids key = k.ids key
  find : find key k' = find key k

theorem Aside.refl (k : Segments) : Aside key p k k := ⟨id, rfl, rfl, rfl⟩

theorem Aside.trans (h₁ : Aside key p k₁ k₂) (h₂ : Aside key p k₂ k₃) : Aside key p k₁ k₃ :=
  ⟨fun h => h₂.wf (h₁.wf h), h₂.maps.trans h₁.maps, h₂.ids.trans h₁.ids, h₂.find.trans h₁.find⟩

/-- The other keys and what the other processes have attached are as they were. -/
def OnlyKey (key : Int) (p : Nat) (k k' : Segments) : Prop :=
  (k.Wf → k'.Wf) ∧ ∀ key' q, key' ≠ key → q ≠ p → Aside key' q k k'

theorem OnlyKey.refl (k : Segments) : OnlyKey key p k k := ⟨id, fun _ _ _ _ => .refl k⟩

/-- The program of the process `p`, with the system as it is in `k`, ends with `post`. -/
def Ends (refuses : Prop) (key : Int) (p : Nat) {α : Type} (prog : ShmProg α) (post : α → Segments → Prop)
    (k : Segments) : Prop :=
  prog.Keeps (Exec refuses p) (Aside key p) (OnlyKey key p) post k

variable {α β : Type}

theorem Ends.ret {a : α} {post : α → Segments → Prop} (h : ∀ k', Aside key p k k' → post a k') :
    Ends refuses key p (.ret a) post k := h

theorem Ends.bind {prog : ShmProg α} {f : α → ShmProg β} {mid : α → Segments → Prop} {post : β → Segments → Prop}
    (hwf : k.Wf) (h : Ends refuses key p prog mid k)
    (hf : ∀ a k', mid a k' → k'.Wf → Ends refuses key p (f a) post k') : Ends refuses key p (prog >>= f) post k :=
  Prog.Keeps.bind Aside.refl (h.frame (fun _ _ hw hr => hr.wf hw) (fun _ _ hw hg => hg.1 hw) hwf)
    fun a k' h => hf a k' h.1 h.2

/-! ## The calls -/

/-- The number `id` has the key and is that of `seg`. -/
def At (key : Int) (id : Nat) (seg : Segment) (k : Segments) : Prop := k.ids key = some id ∧ k.segs id = some seg

theorem At.find (h : At key id seg k) : find key k = some seg := by
  rw [Shm.find, h.1]
  exact h.2

theorem At.aside (h : At key id seg k) (ha : Aside key p k k') : At key id seg k' := by
  have hids : k'.ids key = some id := ha.ids.trans h.1
  have hfind := ha.find.trans h.find
  rw [Shm.find, hids] at hfind
  exact ⟨hids, hfind⟩

theorem At.seg_key (hwf : k.Wf) (h : At key id seg k) : seg.key = key := by
  obtain ⟨seg', hseg', hkey⟩ := hwf.ids key id h.1
  rw [Option.some.inj (h.2.symm.trans hseg'), hkey]

theorem exists_at (hwf : k.Wf) (h : k.ids key = some id) : ∃ seg, At key id seg k := by
  obtain ⟨seg, hseg, -⟩ := hwf.ids key id h
  exact ⟨seg, h, hseg⟩

theorem find_eq_none (hwf : k.Wf) : find key k = none ↔ k.ids key = none := by
  cases h : k.ids key with
  | none => simp [find, h]
  | some id =>
      obtain ⟨seg, hat⟩ := exists_at hwf h
      simp [hat.find]

theorem onlyKey_setMap {i : Option Nat} (hi : ∀ j, i = some j → k.segs j ≠ none) (hnull : i ≠ none → addr ≠ 0) :
    OnlyKey key p k (k.setMap p addr i) := by
  refine ⟨fun h => h.setMap hi hnull, fun key' q _ hq => ⟨fun h => h.setMap hi hnull, ?_, rfl, rfl⟩⟩
  simp [Segments.setMap, hq]

theorem onlyKey_create (hwf : k.Wf) (hkey : key ≠ ipcPrivate) (size : Nat) : OnlyKey key p k (k.create key size) := by
  refine ⟨fun h => h.create hkey, fun key' q hk _ => ⟨fun h => h.create hkey, rfl, ?_, ?_⟩⟩
  · rw [create_ids hkey, if_neg hk]
  · rw [find, find, create_ids hkey, if_neg hk]
    cases hid : k.ids key' with
    | none => rfl
    | some id =>
        obtain ⟨seg, -, hseg⟩ := exists_at hwf hid
        exact (create_segs _ _ _ _).trans (if_neg (hwf.segs id seg hseg).ne)

theorem storeAt_eq {src : List UInt8} (hmap : k.maps p addr = some id) (hseg : k.segs id = some seg) :
    k.storeAt p addr src = k.setSeg id { seg with bytes := seg.bytes.store src } := by
  unfold storeAt
  rw [hmap]
  simp only [Option.bind_some, hseg, Option.map_some]

theorem onlyKey_setSeg (hwf : k.Wf) (hat : At key id seg k) (bytes : Buf) :
    OnlyKey key p k (k.setSeg id { seg with bytes := bytes }) := by
  have hwf' : k.Wf → (k.setSeg id { seg with bytes := bytes }).Wf := fun h => h.setSeg_bytes bytes hat.2
  refine ⟨hwf', fun key' q hk _ => ⟨hwf', rfl, rfl, ?_⟩⟩
  change (k.ids key').bind (k.setSeg id { seg with bytes := bytes }).segs = (k.ids key').bind k.segs
  cases hid : k.ids key' with
  | none => rfl
  | some id' =>
      obtain ⟨seg', hat'⟩ := exists_at hwf hid
      have hne : id' ≠ id := by
        rintro rfl
        refine hk ?_
        rw [← hat'.seg_key hwf, ← hat.seg_key hwf, Option.some.inj (hat'.2.symm.trans hat.2)]
      exact (setSeg_segs _ _ _ _).trans (if_neg hne)

theorem ends_getOld (key : Int) : Ends refuses key p (ShmCall.getOld key)
    (fun r k' => Aside key p k k' ∧ (r = k.ids key ∨ refuses ∧ r = none)) k := by
  rintro k₁ h₁ r k₂ (hr | ⟨href, hr, rfl⟩)
  · cases hr with
    | shmgetOld _ => exact ⟨.refl _, fun k₃ h₃ => ⟨h₁.trans h₃, .inl h₁.ids⟩⟩
  · cases hr
    exact ⟨.refl _, fun k₃ h₃ => ⟨h₁.trans h₃, .inr ⟨href, rfl⟩⟩⟩

theorem ends_stat (hat : At key id seg k) : Ends refuses key p (ShmCall.stat id)
    (fun r k' => Aside key p k k' ∧ (r = some seg.size ∨ refuses ∧ r = none)) k := by
  rintro k₁ h₁ r k₂ (hr | ⟨href, hr, rfl⟩)
  · cases hr with
    | shmctlStat => exact ⟨.refl _, fun k₃ h₃ => ⟨h₁.trans h₃, .inl (by rw [(hat.aside h₁).2, Option.map_some])⟩⟩
  · cases hr
    exact ⟨.refl _, fun k₃ h₃ => ⟨h₁.trans h₃, .inr ⟨href, rfl⟩⟩⟩

theorem ends_getNew (hwf : k.Wf) (hkey : key ≠ ipcPrivate) (size : Nat) :
    Ends refuses key p (ShmCall.getNew key size) (fun r k' => k'.maps p = k.maps p ∧
      ((k.ids key = none ∧ ∃ id, r = some id ∧ At key id ⟨key, size, fun _ => 0⟩ k') ∨
        r = none ∧ Aside key p k k' ∧ (refuses ∨ k.ids key ≠ none))) k := by
  rintro k₁ h₁ r k₂ (hr | ⟨href, hr, rfl⟩)
  · cases hr with
    | shmgetNew hnone =>
        have hnone₁ := hnone.resolve_left hkey
        refine ⟨onlyKey_create (h₁.wf hwf) hkey size, fun k₃ h₃ =>
          ⟨h₃.maps.trans h₁.maps, .inl ⟨by rw [← h₁.ids, hnone₁], _, rfl, At.aside ?_ h₃⟩⟩⟩
        exact ⟨by rw [create_ids hkey, if_pos rfl], by rw [create_segs, if_pos rfl]⟩
    | shmgetNewExists _ hid =>
        refine ⟨.refl _, fun k₃ h₃ => ⟨h₃.maps.trans h₁.maps, .inr ⟨rfl, h₁.trans h₃, .inr ?_⟩⟩⟩
        rw [← h₁.ids, hid]
        simp
  · cases hr
    exact ⟨.refl _, fun k₃ h₃ => ⟨h₃.maps.trans h₁.maps, .inr ⟨rfl, h₁.trans h₃, .inl href⟩⟩⟩

theorem ends_attach (hat : At key id seg k) : Ends refuses key p (ShmCall.attach id)
    (fun r k' => At key id seg k' ∧ ((∃ addr, r = some addr ∧ k.maps p addr = none ∧
      k'.maps p = Function.update (k.maps p) addr (some id)) ∨ refuses ∧ r = none ∧ k'.maps p = k.maps p)) k := by
  rintro k₁ h₁ r k₂ (hr | ⟨href, hr, rfl⟩)
  · have hat₁ := hat.aside h₁
    cases hr with
    | @shmat _ addr hid haddr hfree =>
        refine ⟨onlyKey_setMap (fun i hi => ?_) fun _ => haddr, fun k₃ h₃ =>
          ⟨At.aside (k := k₁.setMap p addr (some id)) hat₁ h₃, .inl ⟨addr, rfl, by rw [← h₁.maps]; exact hfree, ?_⟩⟩⟩
        · rw [← Option.some.inj hi]
          exact Option.isSome_iff_ne_none.mp hid
        · rw [h₃.maps, ← h₁.maps]
          simp [Segments.setMap]
    | shmatGone hgone =>
        rw [hat₁.2] at hgone
        cases hgone
  · cases hr
    exact ⟨.refl _, fun k₃ h₃ => ⟨hat.aside (h₁.trans h₃), .inr ⟨href, rfl, h₃.maps.trans h₁.maps⟩⟩⟩

theorem ends_copy (hwf : k.Wf) (hat : At key id seg k) (hmap : k.maps p addr = some id) (src : List UInt8) :
    Ends refuses key p (ShmCall.copy addr src)
      (fun _ k' => k'.maps p = k.maps p ∧ At key id { seg with bytes := seg.bytes.store src } k') k := by
  rintro k₁ h₁ r k₂ (hr | ⟨-, hr, -⟩)
  · have hat₁ := hat.aside h₁
    cases hr with
    | store =>
        have hmap₁ : k₁.maps p addr = some id := by rw [h₁.maps, hmap]
        rw [storeAt_eq hmap₁ hat₁.2]
        refine ⟨onlyKey_setSeg (h₁.wf hwf) hat₁ _, fun k₃ h₃ => ⟨h₃.maps.trans h₁.maps, At.aside ?_ h₃⟩⟩
        exact ⟨hat₁.1, by rw [setSeg_segs, if_pos rfl]⟩
  · cases hr

theorem ends_detach (hat : At key id seg k) (addr : Nat) : Ends refuses key p (ShmCall.detach addr)
    (fun _ k' => At key id seg k' ∧ k'.maps p = Function.update (k.maps p) addr none) k := by
  rintro k₁ h₁ r k₂ (hr | ⟨-, hr, -⟩)
  · have hat₁ := hat.aside h₁
    cases hr with
    | shmdt =>
        refine ⟨onlyKey_setMap nofun fun h => absurd rfl h, fun k₃ h₃ =>
          ⟨At.aside (k := k₁.setMap p addr none) hat₁ h₃, ?_⟩⟩
        rw [h₃.maps, ← h₁.maps]
        simp [Segments.setMap]
  · cases hr

/-! ## What the functions leave -/

/-- The first `size` bytes are from `init_buf`, as far as it goes, or 0 where there is none. -/
def initialised (size : Nat) (initBuf : Option (List UInt8)) (old : Buf) : Buf :=
  old.store (match initBuf with
    | none => List.replicate size 0
    | some buf => buf.take size)

theorem initialised_none (size : Nat) : initialised size none (fun _ => 0) = fun _ => 0 := by
  funext i
  change (List.replicate size (0 : UInt8))[i]?.getD 0 = 0
  rw [List.getElem?_replicate]
  split_ifs <;> rfl

theorem take_ite (size : Nat) (buf : List UInt8) :
    buf.take (if size < buf.length then size else buf.length) = buf.take size := by
  split_ifs with h
  · rfl
  · rw [List.take_length, List.take_of_length_le (Nat.le_of_not_lt h)]

/-- What a function that was to leave `out` as the bytes of the key's segment, or nothing, has left when it
returns `r`. -/
structure Settled (refuses : Prop) (key : Int) (size p : Nat) (k : Segments) (out : Option Buf) (r : Int)
    (k' : Segments) : Prop where
  maps : k'.maps p = k.maps p
  ret : r = 0 ∨ r = -1
  done : r = 0 → ∃ bytes, out = some bytes ∧ find key k' = some ⟨key, size, bytes⟩
  kept : out = none → find key k' = find key k
  ok : ¬ refuses → out ≠ none → r = 0

variable {initBuf : Option (List UInt8)} {out : Option Buf} {src : List UInt8}

/-- It fails with nothing done. -/
theorem Settled.failed (h : Aside key p k k') (hout : refuses ∨ out = none) : Settled refuses key size p k out (-1) k' where
  maps := h.maps
  ret := .inr rfl
  done := fun he => by cases he
  kept := fun _ => h.find
  ok := fun href hne => absurd (hout.resolve_left href) hne

/-- The system lets it down on the way. -/
theorem Settled.refused (hmaps : k'.maps p = k.maps p) (href : refuses) (hout : out ≠ none) :
    Settled refuses key size p k out (-1) k' where
  maps := hmaps
  ret := .inr rfl
  done := fun he => by cases he
  kept := fun he => absurd he hout
  ok := fun hnot _ => absurd href hnot

theorem Settled.found {bytes : Buf} (hmaps : k'.maps p = k.maps p) (hat : At key id ⟨key, size, bytes⟩ k') :
    Settled refuses key size p k (some bytes) 0 k' where
  maps := hmaps
  ret := .inl rfl
  done := fun _ => ⟨bytes, rfl, hat.find⟩
  kept := fun he => by cases he
  ok := fun _ _ => rfl

/-- The attached segment is given up. -/
theorem ends_release {m : Nat → Option Nat} {bytes : Buf} (hwf : k₁.Wf) (hm : k.maps p = m)
    (hat : At key id ⟨key, size, bytes⟩ k₁) (hfree : m addr = none)
    (hmap : k₁.maps p = Function.update m addr (some id)) :
    Ends refuses key p (do
        let _ ← ShmCall.detach addr
        return 0)
      (Settled refuses key size p k (some bytes)) k₁ := by
  refine .bind hwf (ends_detach hat addr) fun _ k₂ ⟨hat₂, hm₂⟩ _ => .ret fun k' h' => .found ?_ (hat₂.aside h')
  rw [h'.maps, hm₂, hmap, Function.update_idem, hm, Function.update_eq_self_iff, hfree]

/-- The attached segment is initialised and given up. -/
theorem ends_initialise {m : Nat → Option Nat} {bytes : Buf} (hwf : k₁.Wf) (hm : k.maps p = m)
    (hat : At key id ⟨key, size, bytes⟩ k₁) (hfree : m addr = none)
    (hmap : k₁.maps p = Function.update m addr (some id)) (src : List UInt8) :
    Ends refuses key p (do
        let _ ← ShmCall.copy addr src
        let _ ← ShmCall.detach addr
        return 0)
      (Settled refuses key size p k (some (bytes.store src))) k₁ := by
  have hself : k₁.maps p addr = some id := by rw [hmap, Function.update_self]
  refine .bind hwf (ends_copy hwf hat hself src) fun _ k₂ ⟨hm₂, hat₂⟩ hwf₂ => ?_
  exact ends_release hwf₂ hm hat₂ hfree (hm₂.trans hmap)

theorem ends_createShmInit (hkey : key ≠ ipcPrivate) (hwf₁ : k₁.Wf) (hs : Aside key p k k₁)
    (hnone : k.ids key = none → out = some (initialised size initBuf fun _ => 0))
    (hsome : k.ids key ≠ none → refuses) :
    Ends refuses key p (createShmInit key size initBuf) (Settled refuses key size p k out) k₁ := by
  unfold createShmInit
  refine .bind hwf₁ (ends_getNew hwf₁ hkey size) fun r k₂ ⟨hm₂, h₂⟩ hwf₂ => ?_
  rcases h₂ with ⟨hids, id, rfl, hat⟩ | ⟨rfl, haside, hwhy⟩
  · have hout := hnone (by rw [← hs.ids, hids])
    dsimp only
    refine .bind hwf₂ (ends_attach hat) fun r k₃ ⟨hat₃, h₃⟩ hwf₃ => ?_
    rcases h₃ with ⟨addr, rfl, hfree, hmap⟩ | ⟨href, rfl, hm₃⟩
    · dsimp only
      rw [hout]
      cases initBuf with
      | none =>
          rw [initialised_none]
          exact ends_release hwf₃ (hs.maps.symm.trans hm₂.symm) hat₃ hfree hmap
      | some buf =>
          have hbytes : initialised size (some buf) (fun _ => 0) = Buf.store (fun _ => 0)
              (buf.take (if size < buf.length then size else buf.length)) := by
            rw [take_ite]
            rfl
          rw [hbytes]
          exact ends_initialise hwf₃ (hs.maps.symm.trans hm₂.symm) hat₃ hfree hmap _
    · refine .ret fun k' h' => .refused (h'.maps.trans (hm₃.trans (hm₂.trans hs.maps))) href ?_
      rw [hout]
      simp
  · refine .ret fun k' h' => .failed ((hs.trans haside).trans h') (.inl ?_)
    rcases hwhy with href | hids
    · exact href
    · exact hsome (by rwa [← hs.ids])

/-- The segment that is there is initialised again. -/
theorem ends_elder {bytes : Buf} (hwf₁ : k₁.Wf) (hs : Aside key p k k₁) (hat : At key id ⟨key, size, bytes⟩ k₁)
    (src : List UInt8) : Ends refuses key p (do
        match ← ShmCall.attach id with
        | none => return -1
        | some shm =>
            let _ ← ShmCall.copy shm src
            let _ ← ShmCall.detach shm
            return 0)
      (Settled refuses key size p k (some (bytes.store src))) k₁ := by
  refine .bind hwf₁ (ends_attach hat) fun r k₂ ⟨hat₂, h₂⟩ hwf₂ => ?_
  rcases h₂ with ⟨addr, rfl, hfree, hmap⟩ | ⟨href, rfl, hm₂⟩
  · exact ends_initialise hwf₂ hs.maps.symm hat₂ hfree hmap src
  · exact .ret fun k' h' => .refused (h'.maps.trans (hm₂.trans hs.maps)) href (by simp)

/-- The length that is copied fits an `int`. -/
def Fits (size : Nat) (initBuf : Option (List UInt8)) : Prop :=
  ∀ buf, initBuf = some buf → size < 2 ^ 31 ∨ buf.length < 2 ^ 31

theorem Fits.take_int {buf : List UInt8} (h : Fits size (some buf)) :
    buf.take (toU64 (toI32 (if size < buf.length then size else buf.length))) = buf.take size := by
  have hlen := h buf rfl
  rw [← take_ite size buf]
  split_ifs
  · rw [toI32_of_lt (by omega) (by omega), toU64_natCast (by omega)]
  · rw [toI32_of_lt (by omega) (by omega), toU64_natCast (by omega)]

/-- What `get_shm` is to leave, by the segment that has the key. -/
def outcome (size : Nat) (createNonexist initExist : Bool) (initBuf : Option (List UInt8)) :
    Option Segment → Option Buf
  | none => if createNonexist then some (initialised size initBuf fun _ => 0) else none
  | some elder =>
      if elder.size = size then some (if initExist then initialised size initBuf elder.bytes else elder.bytes)
      else none

variable {createNonexist initExist : Bool}

theorem ends_initElderShm {bytes : Buf} (hfits : Fits size initBuf) (hwf₁ : k₁.Wf) (hs : Aside key p k k₁)
    (hat : At key id ⟨key, size, bytes⟩ k₁) : Ends refuses key p (initElderShm id size initBuf)
      (Settled refuses key size p k (some (initialised size initBuf bytes))) k₁ := by
  unfold initElderShm
  cases initBuf with
  | none => exact ends_elder hwf₁ hs hat _
  | some buf =>
      have hbytes : initialised size (some buf) bytes = bytes.store (buf.take (toU64 (toI32
          (if size < buf.length then size else buf.length)))) := by
        rw [hfits.take_int]
        rfl
      rw [hbytes]
      exact ends_elder hwf₁ hs hat _

/-- The segment that is there, with its parts named. -/
theorem At.eta (hwf : k.Wf) (h : At key id seg k) : At key id ⟨key, seg.size, seg.bytes⟩ k := by
  have := h.seg_key hwf
  subst this
  exact h

theorem ends_getShm (hwf : k.Wf) (hkey : key ≠ ipcPrivate) (hfits : Fits size initBuf) :
    Ends refuses key p (getShm key size createNonexist initExist initBuf)
      (Settled refuses key size p k (outcome size createNonexist initExist initBuf (find key k))) k := by
  unfold getShm
  have hzero : ¬ key = 0 := hkey
  rw [if_neg hzero]
  have hinfo : Ends refuses key p (getShmInfo key) (fun r k' => Aside key p k k' ∧
      ((∃ id seg, r = some (id, seg.size) ∧ At key id seg k') ∨ r = none ∧ (refuses ∨ k.ids key = none))) k := by
    unfold getShmInfo
    refine .bind hwf (ends_getOld key) fun r k₁ ⟨hs₁, h₁⟩ hwf₁ => ?_
    rcases h₁ with rfl | ⟨href, rfl⟩
    · cases hid : k.ids key with
      | none => exact .ret fun k' h' => ⟨hs₁.trans h', .inr ⟨rfl, .inr rfl⟩⟩
      | some id =>
          obtain ⟨seg, hat⟩ := exists_at hwf hid
          refine .bind hwf₁ (ends_stat (hat.aside hs₁)) fun r k₂ ⟨hs₂, h₂⟩ _ => ?_
          rcases h₂ with rfl | ⟨href, rfl⟩
          · exact .ret fun k' h' => ⟨(hs₁.trans hs₂).trans h', .inl ⟨id, seg, rfl, hat.aside ((hs₁.trans hs₂).trans h')⟩⟩
          · exact .ret fun k' h' => ⟨(hs₁.trans hs₂).trans h', .inr ⟨rfl, .inl href⟩⟩
    · exact .ret fun k' h' => ⟨hs₁.trans h', .inr ⟨rfl, .inl href⟩⟩
  refine .bind hwf hinfo fun r k₁ ⟨hs₁, h₁⟩ hwf₁ => ?_
  rcases h₁ with ⟨id, seg, rfl, hat⟩ | ⟨rfl, hwhy⟩
  · have hfind : find key k = some seg := by rw [← hs₁.find, hat.find]
    rw [hfind]
    dsimp only [outcome]
    by_cases hsize : seg.size = size
    · subst hsize
      have hat' := hat.eta hwf₁
      rw [if_pos rfl, if_neg (fun hne => hne rfl)]
      cases initExist with
      | false => exact .ret fun k' h' => .found (hs₁.trans h').maps (hat'.aside h')
      | true => exact ends_initElderShm hfits hwf₁ hs₁ hat'
    · rw [if_neg hsize, if_pos (Ne.symm hsize)]
      exact .ret fun k' h' => .failed (hs₁.trans h') (.inr rfl)
  · cases createNonexist with
    | true =>
        refine ends_createShmInit hkey hwf₁ hs₁ (fun hnone => ?_) fun hsome => hwhy.resolve_right hsome
        rw [(find_eq_none hwf).mpr hnone]
        rfl
    | false =>
        refine .ret fun k' h' => .failed (hs₁.trans h') ?_
        rcases hwhy with href | hnone
        · exact .inl href
        · right
          rw [(find_eq_none hwf).mpr hnone]
          rfl

theorem doTmShmCreateInit_eq : doTmShmCreateInit = createShmInit := rfl

theorem ends_tmShmCreateInit (hwf : k.Wf) (hkey : key ≠ ipcPrivate) (hfits : Fits size initBuf) :
    Ends refuses key p (tmShmCreateInit key size initBuf)
      (Settled refuses key size p k (outcome size true true initBuf (find key k))) k := by
  unfold tmShmCreateInit
  have hzero : ¬ key = 0 := hkey
  rw [if_neg hzero, doTmShmCreateInit_eq]
  refine .bind hwf (ends_getOld key) fun r k₁ ⟨hs₁, h₁⟩ hwf₁ => ?_
  have hcreate : (k.ids key ≠ none → refuses) → Ends refuses key p (createShmInit key size initBuf)
      (Settled refuses key size p k (outcome size true true initBuf (find key k))) k₁ := fun hsome => by
    refine ends_createShmInit hkey hwf₁ hs₁ (fun hnone => ?_) hsome
    rw [(find_eq_none hwf).mpr hnone]
    rfl
  rcases h₁ with rfl | ⟨href, rfl⟩
  · cases hid : k.ids key with
    | none => exact hcreate fun hsome => absurd hid hsome
    | some id =>
        obtain ⟨seg, hat⟩ := exists_at hwf hid
        rw [hat.find]
        refine .bind hwf₁ (ends_stat (hat.aside hs₁)) fun r k₂ ⟨hs₂, h₂⟩ hwf₂ => ?_
        have hs := hs₁.trans hs₂
        rcases h₂ with rfl | ⟨href, rfl⟩
        · dsimp only [outcome]
          by_cases hsize : seg.size = size
          · subst hsize
            rw [if_pos rfl, if_pos rfl]
            exact ends_initElderShm hfits hwf₂ hs ((hat.eta hwf).aside hs)
          · rw [if_neg hsize, if_neg hsize]
            exact .ret fun k' h' => .failed (hs.trans h') (.inr rfl)
        · exact .ret fun k' h' => .failed (hs.trans h') (.inl href)
  · exact hcreate fun _ => href

theorem ends_tmShmCreateNewInit (hwf : k.Wf) (hkey : key ≠ ipcPrivate) :
    Ends refuses key p (tmShmCreateNewInit key size initBuf) (Settled refuses key size p k
      (if (find key k).isSome then none else some (initialised size initBuf fun _ => 0))) k := by
  unfold tmShmCreateNewInit
  rw [doTmShmCreateInit_eq]
  refine .bind hwf (ends_getOld key) fun r k₁ ⟨hs₁, h₁⟩ hwf₁ => ?_
  have hcreate : (k.ids key ≠ none → refuses) → Ends refuses key p (createShmInit key size initBuf)
      (Settled refuses key size p k
        (if (find key k).isSome then none else some (initialised size initBuf fun _ => 0))) k₁ := fun hsome => by
    refine ends_createShmInit hkey hwf₁ hs₁ (fun hnone => ?_) hsome
    rw [(find_eq_none hwf).mpr hnone]
    rfl
  rcases h₁ with rfl | ⟨href, rfl⟩
  · cases hid : k.ids key with
    | none => exact hcreate fun hsome => absurd hid hsome
    | some id =>
        obtain ⟨seg, hat⟩ := exists_at hwf hid
        rw [hat.find]
        exact .ret fun k' h' => .failed (hs₁.trans h') (.inr rfl)
  · exact hcreate fun _ => href

/-! ## Processes that work on different keys -/

/-- Which function a process calls. -/
inductive Creator where
  | getShm (createNonexist initExist : Bool)
  | tmShmCreateInit
  | tmShmCreateNewInit

/-- A call that a process makes. -/
structure Job where
  creator : Creator
  key : Int
  size : Nat
  initBuf : Option (List UInt8)

def Job.prog (job : Job) : ShmProg Int :=
  match job.creator with
  | .getShm createNonexist initExist => getShm job.key job.size createNonexist initExist job.initBuf
  | .tmShmCreateInit => tmShmCreateInit job.key job.size job.initBuf
  | .tmShmCreateNewInit => tmShmCreateNewInit job.key job.size job.initBuf

/-- What the call is to leave. -/
def Job.leaves (job : Job) (k : Segments) : Option Buf :=
  match job.creator with
  | .getShm createNonexist initExist => outcome job.size createNonexist initExist job.initBuf (find job.key k)
  | .tmShmCreateInit => outcome job.size true true job.initBuf (find job.key k)
  | .tmShmCreateNewInit =>
      if (find job.key k).isSome then none else some (initialised job.size job.initBuf fun _ => 0)

theorem Job.ends (job : Job) (hwf : k.Wf) (hkey : job.key ≠ ipcPrivate) (hfits : Fits job.size job.initBuf) :
    Ends refuses job.key p job.prog (Settled refuses job.key job.size p k (job.leaves k)) k := by
  obtain ⟨creator, key, size, initBuf⟩ := job
  cases creator with
  | getShm => exact ends_getShm hwf hkey hfits
  | tmShmCreateInit => exact ends_tmShmCreateInit hwf hkey hfits
  | tmShmCreateNewInit => exact ends_tmShmCreateNewInit hwf hkey

/-- When no two processes work on one key and the others leave these keys alone, each call leaves what it
leaves by itself, however the system calls interleave. A call that returns 0 has left the segment with
the bytes it was to have; one that was to leave nothing returns -1 and has left the segment as it was; what
the system does not refuse succeeds; and nothing stays attached. -/
theorem jobs_settle {job : Nat → Job} {progs : Nat → ShmProg Int} {r : Int} (hwf : k.Wf)
    (hkey : ∀ p, (job p).key ≠ ipcPrivate) (hfits : ∀ p, Fits (job p).size (job p).initBuf)
    (hdistinct : ∀ p q, p ≠ q → (job p).key ≠ (job q).key)
    (hr : Prog.Steps (Exec refuses) (fun k k' => ∀ p, Aside (job p).key p k k') (fun p => (job p).prog, k) (progs, k'))
    (hp : progs p = .ret r) : Settled refuses (job p).key (job p).size p k ((job p).leaves k) r k' := by
  have hstart : ∀ p, (job p).prog.Keeps (Exec refuses p) (Aside (job p).key p) (OnlyKey (job p).key p)
      (Settled refuses (job p).key (job p).size p k ((job p).leaves k)) k :=
    fun p => (job p).ends hwf (hkey p) (hfits p)
  have h := Prog.keeps_of_steps (fun _ => Aside.refl) (fun _ _ _ _ => Aside.trans)
    (fun p q _ _ hpq hq => hq.2 (job p).key p (hdistinct p q hpq) hpq) (fun p _ _ he => he p) hstart hr p
  change (progs p).Keeps _ _ _ _ k' at h
  rw [hp] at h
  exact h k' (.refl k')

/-- Every process creates a segment of its own. -/
def ownKeys (p : Nat) : Job := ⟨.getShm true false, p + 1, 8, some [1, 2]⟩

theorem jobs_settle_two : ∃ (progs : Nat → ShmProg Int) (k' : Segments), progs 0 = .ret 0 ∧
    Settled False 1 8 0 fresh₀ ((ownKeys 0).leaves fresh₀) 0 k' := by
  have run : ∃ progs k', Prog.Steps (Exec False) (fun k k' => ∀ p, Aside (ownKeys p).key p k k')
      (fun p => (ownKeys p).prog, fresh₀) (progs, k') ∧ progs 0 = .ret 0 :=
    have start : Prog.Steps (Exec False) (fun k k' => ∀ p, Aside (ownKeys p).key p k k')
        (fun p => (ownKeys p).prog, fresh₀) (fun p => (ownKeys p).prog, fresh₀) := .refl _
    -- the second process searches and creates while the first one is on its way
    have searched := (start.done 0 rfl (.shmgetOld (by decide))).done 1 rfl (.shmgetOld (by decide))
    have created := (searched.done 1 rfl (.shmgetNew (.inr rfl))).done 0 rfl (.shmgetNew (.inr rfl))
    have attached := created.done 0 rfl (show Done 0 _ (.shmat _) (some 1) _ from .shmat rfl (by decide) rfl)
    have finished := (attached.done 0 rfl .store).done 0 rfl .shmdt
    ⟨_, _, finished, rfl⟩
  obtain ⟨progs, k', hr, hp⟩ := run
  refine ⟨progs, k', hp, jobs_settle wf_fresh₀ (fun p => ?_) (fun p buf hbuf => ?_) (fun p q hpq => ?_) hr hp⟩
  · change ((p : Int) + 1) ≠ 0
    omega
  · exact .inl (by decide : (8 : Nat) < 2 ^ 31)
  · change ((p : Int) + 1) ≠ (q : Int) + 1
    omega

end Taomee.Shm
