import Taomee.Shm.TmShm

/-!
# A refresh of the configuration

The last step of a refresh takes all but one object where one object is left. With two objects this
is the same; with one nothing is copied, and with more the step goes behind the mapping.
-/

namespace Taomee.Shm

/-- The first half holds the new image, the second half is as it was, and all accesses are inside the
mapping. -/
structure Installed (memSize : Nat) (image : Buf) (m : Mapping) : Prop where
  copied : ∀ i, i < memSize → m.bytes i = image (memSize + i)
  kept : ∀ i, memSize ≤ i → i < 2 * memSize → m.bytes i = image i
  inside : ∀ a ∈ m.accesses, a.off + a.len ≤ 2 * memSize

/-- One object is there already, or the loop ends behind the first of more. -/
def FirstAndRest (c : CfgInfo) (image : Buf) : Prop :=
  (c.memSize = c.metaSize ∧ ∀ i, i < c.memSize → image i = image (c.memSize + i)) ∨
    (c.metaSize < c.memSize ∧ c.memSize - c.metaSize ≤ toU64 (toI32 c.metaSize))

variable {c : CfgInfo} {m m' : Mapping} {fuel pUse pUpdate pUse' pUpdate' n : Nat} {cmpSize : Int}

theorem refresh_inside {i : Nat} (hi : i < n) : (m.refresh pUse pUpdate n).bytes (pUse + i) = m.bytes (pUpdate + i) := by
  have hget := Buf.getElem?_slice m.bytes pUpdate hi
  unfold Mapping.refresh
  dsimp only
  split
  · have hlen : i < (m.bytes.slice pUpdate n).length := by rwa [Buf.slice_length]
    rw [Buf.write_inside _ _ _ hlen]
    rw [List.getElem?_eq_getElem hlen] at hget
    exact Option.some.inj hget
  · rename_i heq
    have := Buf.getElem?_slice m.bytes pUse hi
    rw [Decidable.not_not.mp heq, hget] at this
    exact (Option.some.inj this).symm

theorem refresh_outside {i : Nat} (hi : i < pUse ∨ pUse + n ≤ i) : (m.refresh pUse pUpdate n).bytes i = m.bytes i := by
  unfold Mapping.refresh
  dsimp only
  split
  · exact Buf.write_outside _ (by rwa [Buf.slice_length])
  · rfl

/-- The loop only goes forward. -/
theorem refreshLoop_forward : ∀ {fuel : Nat} {m : Mapping} {pUse pUpdate : Nat} {cmpSize : Int},
    refreshLoop c fuel m pUse pUpdate cmpSize = some (m', pUse', pUpdate') → pUpdate ≤ pUpdate' := by
  intro fuel
  induction fuel with
  | zero => exact fun h => nomatch h
  | succ fuel ih =>
      intro m pUse pUpdate cmpSize h
      unfold refreshLoop at h
      split at h
      · exact Nat.le_trans (Nat.le_add_right _ _) (ih h)
      · cases h
        exact Nat.le_refl _

/-- How a refresh has run: the loop has copied no object, one object, or gone on behind it. -/
inductive RefreshResult (c : CfgInfo) (image : Buf) : Mapping → Prop
  | none : c.memSize = c.metaSize → RefreshResult c image (Mapping.refresh ⟨image, []⟩ 0 c.memSize 0)
  | one : c.metaSize < c.memSize → c.memSize - c.metaSize ≤ toU64 (toI32 c.metaSize) →
      RefreshResult c image ((Mapping.refresh ⟨image, []⟩ 0 c.memSize c.metaSize).refresh c.metaSize
        (c.memSize + c.metaSize) (c.memSize - c.metaSize))
  | more {m : Mapping} {pUse pUpdate : Nat} : c.metaSize < c.memSize → toU64 (toI32 c.metaSize) < c.memSize - c.metaSize →
      c.memSize + 2 * c.metaSize ≤ pUpdate → RefreshResult c image (m.refresh pUse pUpdate (c.memSize - c.metaSize))

theorem updateCfgOnMmap_result {callBack : Buf → Buf × Int} {bytes : Buf} {ret : Int}
    (hmem : c.metaSize ≤ c.memSize) (hdvd : c.metaSize ∣ c.memSize) (hcall : c.callBack = some callBack)
    (hret : (callBack bytes).2 ≠ -1) (h : updateCfgOnMmap fuel c bytes = some (m, ret)) :
    ret = 0 ∧ RefreshResult c (callBack bytes).1 m := by
  unfold updateCfgOnMmap at h
  rw [if_neg (not_or.mpr ⟨Nat.not_lt.mpr hmem, Decidable.not_not.mpr (Nat.mod_eq_zero_of_dvd hdvd)⟩), hcall] at h
  dsimp only at h
  rw [if_neg hret] at h
  generalize (callBack bytes).1 = image at h ⊢
  cases fuel with
  | zero => cases h
  | succ fuel =>
      unfold refreshLoop at h
      by_cases h0 : toU64 0 < c.memSize - c.metaSize
      · rw [if_pos h0] at h
        have hlt : c.metaSize < c.memSize := by
          have : toU64 0 = 0 := rfl
          omega
        cases fuel with
        | zero => cases h
        | succ fuel =>
            unfold refreshLoop at h
            rw [Int.zero_add, Nat.zero_add] at h
            by_cases h1 : toU64 (toI32 c.metaSize) < c.memSize - c.metaSize
            · rw [if_pos h1] at h
              generalize hloop : refreshLoop c fuel _ _ _ _ = r at h
              match r, h with
              | some (m', pUse, pUpdate), h =>
                  cases h
                  refine ⟨rfl, .more hlt h1 ?_⟩
                  have := refreshLoop_forward hloop
                  omega
            · rw [if_neg h1] at h
              cases h
              exact ⟨rfl, .one hlt (Nat.not_lt.mp h1)⟩
      · rw [if_neg h0] at h
        cases h
        refine ⟨rfl, ?_⟩
        have heq : c.memSize = c.metaSize := by
          have : toU64 0 = 0 := rfl
          omega
        rw [heq, Nat.sub_self]
        have := @RefreshResult.none c image heq
        rwa [heq] at this

/-- One copy of all that is left, behind the first object. -/
theorem installed_one {image : Buf} (hlt : c.metaSize < c.memSize) :
    Installed c.memSize image ((Mapping.refresh ⟨image, []⟩ 0 c.memSize c.metaSize).refresh c.metaSize
      (c.memSize + c.metaSize) (c.memSize - c.metaSize)) where
  copied := by
    intro i hi
    rcases Nat.lt_or_ge i c.metaSize with h | h
    · rw [refresh_outside (.inl h)]
      have := @refresh_inside ⟨image, []⟩ 0 c.memSize c.metaSize i h
      rwa [Nat.zero_add] at this
    · have hinside := @refresh_inside (Mapping.refresh ⟨image, []⟩ 0 c.memSize c.metaSize) c.metaSize
        (c.memSize + c.metaSize) (c.memSize - c.metaSize) (i - c.metaSize) (by omega)
      rw [show c.metaSize + (i - c.metaSize) = i by omega,
        show c.memSize + c.metaSize + (i - c.metaSize) = c.memSize + i by omega] at hinside
      rw [hinside, refresh_outside (.inr (by omega))]
  kept := by
    intro i h1 h2
    rw [refresh_outside (.inr (by omega)), refresh_outside (.inr (by omega))]
  inside := by
    intro a ha
    simp only [Mapping.refresh, List.mem_cons, List.not_mem_nil, or_false] at ha
    rcases ha with rfl | rfl | rfl | rfl <;> dsimp only <;> omega

/-- A refresh installs the image exactly when it copies nothing that is not there, or one object and then
all others. -/
theorem RefreshResult.installed_iff {image : Buf} (h : RefreshResult c image m) (hmeta : 0 < c.metaSize) :
    Installed c.memSize image m ↔ FirstAndRest c image := by
  cases h with
  | none heq =>
      have hsame : ∀ i, (Mapping.refresh ⟨image, []⟩ 0 c.memSize 0).bytes i = image i := fun i =>
        refresh_outside (.inr (Nat.zero_le i))
      constructor
      · intro hinst
        refine .inl ⟨heq, fun i hi => ?_⟩
        rw [← hsame i]
        exact hinst.copied i hi
      · rintro (⟨-, hhalves⟩ | ⟨hlt, -⟩)
        · refine ⟨fun i hi => (hsame i).trans (hhalves i hi), fun i _ _ => hsame i, fun a ha => ?_⟩
          simp only [Mapping.refresh, List.mem_cons, List.not_mem_nil, or_false] at ha
          rcases ha with rfl | rfl <;> dsimp only <;> omega
        · omega
  | one hlt hle => exact iff_of_true (installed_one hlt) (.inr ⟨hlt, hle⟩)
  | @more m pUse pUpdate hlt hmore hfar =>
      constructor
      · intro hinst
        -- the last step reads behind the mapping
        have := hinst.inside ⟨pUpdate, c.memSize - c.metaSize⟩ (by simp [Mapping.refresh])
        dsimp only at this
        omega
      · rintro (⟨heq, -⟩ | ⟨-, hle⟩)
        · omega
        · omega

theorem FirstAndRest.returns {callBack : Buf → Buf × Int} {bytes : Buf} (h : FirstAndRest c (callBack bytes).1)
    (hmem : c.metaSize ≤ c.memSize) (hdvd : c.metaSize ∣ c.memSize) (hcall : c.callBack = some callBack)
    (hret : (callBack bytes).2 ≠ -1) : ∃ m, updateCfgOnMmap 2 c bytes = some (m, 0) := by
  unfold updateCfgOnMmap
  rw [if_neg (not_or.mpr ⟨Nat.not_lt.mpr hmem, Decidable.not_not.mpr (Nat.mod_eq_zero_of_dvd hdvd)⟩), hcall]
  dsimp only
  rw [if_neg hret]
  unfold refreshLoop
  by_cases h0 : toU64 0 < c.memSize - c.metaSize
  · rw [if_pos h0]
    unfold refreshLoop
    rw [Int.zero_add]
    rw [if_neg]
    · exact ⟨_, rfl⟩
    · rcases h with ⟨heq, -⟩ | ⟨-, hle⟩
      · omega
      · exact Nat.not_lt.mpr hle
  · rw [if_neg h0]
    exact ⟨_, rfl⟩

/-- After a refresh that returns 0 the whole new image is installed exactly when there is one object that is
in place already, or the size of one object is no less than the rest; then the refresh does return. -/
theorem updateCfgOnMmap_installed_iff (c : CfgInfo) (callBack : Buf → Buf × Int) (bytes : Buf)
    (hmeta : 0 < c.metaSize) (hmem : 0 < c.memSize) (hdvd : c.metaSize ∣ c.memSize)
    (hcall : c.callBack = some callBack) (hret : (callBack bytes).2 ≠ -1) :
    (∀ fuel m ret, updateCfgOnMmap fuel c bytes = some (m, ret) →
      ret = 0 ∧ (Installed c.memSize (callBack bytes).1 m ↔ FirstAndRest c (callBack bytes).1)) ∧
    (FirstAndRest c (callBack bytes).1 → ∃ fuel m, updateCfgOnMmap fuel c bytes = some (m, 0)) := by
  have hle := Nat.le_of_dvd hmem hdvd
  refine ⟨fun fuel m ret h => ?_, fun h => ?_⟩
  · obtain ⟨rfl, hresult⟩ := updateCfgOnMmap_result hle hdvd hcall hret h
    exact ⟨rfl, hresult.installed_iff hmeta⟩
  · obtain ⟨m, hm⟩ := h.returns hle hdvd hcall hret
    exact ⟨2, m, hm⟩

/-- Objects of less than 2 GiB: there are two of them. -/
theorem le_metaSize_iff (h : c.metaSize < 2 ^ 31) (hlt : c.metaSize < c.memSize) (hdvd : c.metaSize ∣ c.memSize) :
    c.memSize - c.metaSize ≤ toU64 (toI32 c.metaSize) ↔ c.memSize = 2 * c.metaSize := by
  rw [toI32_of_lt (by omega) (by omega), toU64_natCast (by omega)]
  obtain ⟨k, hk⟩ := hdvd
  constructor
  · intro hle
    have h1 : 1 < k := by
      by_contra hcon
      have := Nat.mul_le_mul_left c.metaSize (Nat.not_lt.mp hcon)
      omega
    have := Nat.mul_le_mul_left c.metaSize (show 2 ≤ k from h1)
    omega
  · omega

/-- Two objects of one byte. -/
def twoObjects : CfgInfo := ⟨2, 1, some fun bytes => (bytes, 0)⟩

theorem updateCfgOnMmap_installed_iff_two :
    ∃ fuel m, updateCfgOnMmap fuel twoObjects (fun i => if i = 2 then 7 else 0) = some (m, 0) ∧ m.bytes 0 = 7 := by
  obtain ⟨hiff, hreturns⟩ := updateCfgOnMmap_installed_iff twoObjects (fun bytes => (bytes, 0))
    (fun i => if i = 2 then 7 else 0) (by decide) (by decide) (by decide) rfl (by decide)
  have hrest : FirstAndRest twoObjects fun i => if i = 2 then 7 else 0 := .inr ⟨by decide, by decide⟩
  obtain ⟨fuel, m, h⟩ := hreturns hrest
  exact ⟨fuel, m, h, ((hiff fuel m 0 h).2.mpr hrest).copied 0 (by decide)⟩

/-- Not every refresh that returns 0 installs the image: with three objects of one byte the last step reads the
byte behind the mapping. -/
theorem not_updateCfgOnMmap_installed : ¬ ∀ (c : CfgInfo) (callBack : Buf → Buf × Int) (bytes : Buf),
    0 < c.metaSize → 0 < c.memSize → c.metaSize ∣ c.memSize → c.callBack = some callBack → (callBack bytes).2 ≠ -1 →
    ∀ fuel m, updateCfgOnMmap fuel c bytes = some (m, 0) → Installed c.memSize (callBack bytes).1 m := by
  intro h
  have hinst := h ⟨3, 1, some fun bytes => (bytes, 0)⟩ (fun bytes => (bytes, 0)) (fun _ => 0) (by decide) (by decide)
    (by decide) rfl (by decide) 3 _ rfl
  have := hinst.inside ⟨5, 2⟩ (by decide)
  exact absurd this (by decide)

end Taomee.Shm
