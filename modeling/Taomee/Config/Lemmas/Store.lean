import Taomee.Config.Config
import Mathlib.Logic.Function.Basic

/-!
# The store as a map from keys to values

Every list holds each key at most once, and only keys of its own hash. Seen through
`config_get_strval` the store is then a map, and appending and updating are its point updates.
-/

namespace Taomee.Config

/-- The buckets are set up, and each holds no key twice and only keys of its hash. -/
structure StoreInv (s : Store) : Prop where
  init : s.hasInit = true
  hash : ∀ i, ∀ mc ∈ s.iniKeyHead i, hashKey mc.key = i
  nodup : ∀ i, ((s.iniKeyHead i).map ConfigPair.key).Nodup

theorem conflict_iff (key : List UInt8) (l : List ConfigPair) :
    conflict key l = (getLoop key l).isSome := by
  induction l with
  | nil => rfl
  | cons mc p ih =>
      by_cases h : key = mc.key
      · simp [conflict, getLoop, h]
      · simp only [conflict, getLoop, if_neg h, ih]
        exact if_neg fun hk => h hk.2.symm

theorem getLoop_none_iff (key : List UInt8) (l : List ConfigPair) :
    getLoop key l = none ↔ key ∉ l.map ConfigPair.key := by
  induction l with
  | nil => simp [getLoop]
  | cons mc p ih => by_cases h : key = mc.key <;> simp [getLoop, h, ih]

/-- An update that finds no entry to change: the key is not there, or has that value already. -/
theorem updateLoop_none {key val : List UInt8} {l : List ConfigPair}
    (hn : (l.map ConfigPair.key).Nodup) (h : getLoop key l = none ∨ getLoop key l = some val) :
    updateLoop key val l = none := by
  induction l with
  | nil => rfl
  | cons mc p ih =>
      rw [List.map_cons, List.nodup_cons] at hn
      by_cases hk : key = mc.key
      · simp only [getLoop, if_pos hk, reduceCtorEq, Option.some.injEq, false_or] at h
        have hp : updateLoop key val p = none :=
          ih hn.2 (.inl ((getLoop_none_iff _ _).mpr (hk ▸ hn.1)))
        simp [updateLoop, h, hp]
      · simp only [getLoop, if_neg hk] at h
        have hk' : ¬ mc.key = key := fun h => hk h.symm
        simp [updateLoop, hk', ih hn.2 h]

/-- An update of a key with another value. -/
theorem updateLoop_some {key val old : List UInt8} {l : List ConfigPair}
    (h : getLoop key l = some old) (hne : old ≠ val) :
    ∃ l', updateLoop key val l = some l' ∧ l'.map ConfigPair.key = l.map ConfigPair.key ∧
      ∀ k, getLoop k l' = if k = key then some val else getLoop k l := by
  induction l with
  | nil => simp [getLoop] at h
  | cons mc p ih =>
      by_cases hk : key = mc.key
      · simp only [getLoop, if_pos hk, Option.some.injEq] at h
        subst h
        refine ⟨{ mc with val := val } :: p, by simp [updateLoop, hk, hne], rfl, fun k => ?_⟩
        rw [hk]
        by_cases hkk : k = mc.key <;> simp [getLoop, hkk]
      · simp only [getLoop, if_neg hk] at h
        obtain ⟨l', hl', hkeys, hget⟩ := ih h
        have hk' : ¬ mc.key = key := fun h => hk h.symm
        refine ⟨mc :: l', by simp [updateLoop, hk', hl'], by simp [hkeys], fun k => ?_⟩
        by_cases hkk : k = mc.key
        · have hne' : ¬ k = key := fun h => hk (h ▸ hkk)
          simp [getLoop, hkk, hk']
        · simp [getLoop, hkk, hget k]

variable {s : Store}

/-- Replacing the bucket of `key` by one that differs, as a map, at `key` only. -/
theorem get_setBucket {key val : List UInt8} {l : List ConfigPair}
    (hl : ∀ k, getLoop k l = if k = key then some val else getLoop k (s.iniKeyHead (hashKey key))) :
    configGetStrval (s.setBucket (hashKey key) l) =
      Function.update (configGetStrval s) key (some val) := by
  funext k
  unfold configGetStrval configKeyHash Store.setBucket
  by_cases hh : hashKey k = hashKey key
  · simp only [hh, ↓reduceIte, hl k]
    by_cases hk : k = key
    · simp [hk]
    · simp [hk, hh]
  · have hk : k ≠ key := fun h => hh (h ▸ rfl)
    simp only [if_neg hh]
    rw [Function.update_of_ne hk]

theorem StoreInv.setBucket (h : StoreInv s) {i : Fin 256} {l : List ConfigPair}
    (hh : ∀ mc ∈ l, hashKey mc.key = i) (hn : (l.map ConfigPair.key).Nodup) :
    StoreInv (s.setBucket i l) where
  init := h.init
  hash := by
    intro j mc hmc
    by_cases hj : j = i
    · subst hj
      exact hh mc (by simpa [Store.setBucket] using hmc)
    · exact h.hash j mc (by simpa [Store.setBucket, hj] using hmc)
  nodup := by
    intro j
    by_cases hj : j = i
    · simpa [Store.setBucket, hj] using hn
    · simpa [Store.setBucket, hj] using h.nodup j

/-! ## The calls -/

/-- A call that succeeds with the store changed at one key, or fails and changes nothing. -/
def Updates (s : Store) (key val : List UInt8) (r : Int × Store) : Prop :=
  StoreInv r.2 ∧ r.1 = 0 ∧
    configGetStrval r.2 = Function.update (configGetStrval s) key (some val)

theorem configAppendValue_spec (h : StoreInv s) (key val : List UInt8) :
    (val.length < configValSize ∧ configGetStrval s key = none ∧
      Updates s key val (configAppendValue s key val)) ∨
    ((configValSize ≤ val.length ∨ configGetStrval s key ≠ none) ∧
      configAppendValue s key val = (-1, s)) := by
  unfold configAppendValue
  by_cases hlen : val.length + 1 > configValSize
  · exact .inr ⟨.inl (by omega), if_pos hlen⟩
  rw [if_neg hlen, conflict_iff]
  change _ ∨ (_ ∨ getLoop key _ ≠ none) ∧ _
  cases hg : getLoop key (s.iniKeyHead (hashKey key)) with
  | some v =>
      refine .inr ⟨.inr ?_, rfl⟩
      change getLoop key (s.iniKeyHead (hashKey key)) ≠ none
      simp [hg]
  | none =>
      refine .inl ⟨by omega, hg, ?_, rfl, get_setBucket fun k => ?_⟩
      · refine h.setBucket ?_ ?_
        · rintro mc (_ | ⟨_, hmc⟩)
          · rfl
          · exact h.hash _ mc hmc
        · exact List.nodup_cons.mpr ⟨(getLoop_none_iff _ _).mp hg, h.nodup _⟩
      · rfl

theorem configUpdateValue_spec (h : StoreInv s) (key val : List UInt8) :
    (val.length < configValSize ∧ (∃ old, configGetStrval s key = some old ∧ old ≠ val) ∧
      Updates s key val (configUpdateValue s key val)) ∨
    ((configValSize ≤ val.length ∨ configGetStrval s key = none ∨
        configGetStrval s key = some val) ∧
      configUpdateValue s key val = (-1, s)) := by
  unfold configUpdateValue
  by_cases hlen : val.length + 1 > configValSize
  · exact .inr ⟨.inl (by omega), if_pos hlen⟩
  rw [if_neg hlen]
  cases hg : getLoop key (s.iniKeyHead (hashKey key)) with
  | none =>
      rw [updateLoop_none (h.nodup _) (.inl hg)]
      exact .inr ⟨.inr (.inl hg), rfl⟩
  | some old =>
      by_cases hne : old = val
      · subst hne
        rw [updateLoop_none (h.nodup _) (.inr hg)]
        exact .inr ⟨.inr (.inr hg), rfl⟩
      · obtain ⟨l, hl, hkeys, hget⟩ := updateLoop_some hg hne
        rw [hl]
        refine .inl ⟨by omega, ⟨old, hg, hne⟩, ?_, rfl, get_setBucket hget⟩
        refine h.setBucket (fun mc hmc => ?_) (hkeys ▸ h.nodup _)
        have hmem : mc.key ∈ (s.iniKeyHead (hashKey key)).map ConfigPair.key :=
          hkeys ▸ List.mem_map_of_mem hmc
        obtain ⟨mc', hmc', heq⟩ := List.mem_map.mp hmem
        exact heq ▸ h.hash _ mc' hmc'

/-- Setting a key succeeds unless it has that value already, or the value is too long. -/
theorem configResetOrAddValue_spec (h : StoreInv s) (key val : List UInt8) :
    (val.length < configValSize ∧ configGetStrval s key ≠ some val ∧
      Updates s key val (configResetOrAddValue s key val)) ∨
    ((configValSize ≤ val.length ∨ configGetStrval s key = some val) ∧
      configResetOrAddValue s key val = (-1, s)) := by
  unfold configResetOrAddValue
  rcases configAppendValue_spec h key val with ⟨hlen, hnone, happ⟩ | ⟨hfail, happ⟩
  · have h0 : ¬ (configAppendValue s key val).1 = -1 := by rw [happ.2.1]; decide
    simp only [if_neg h0]
    exact .inl ⟨hlen, by simp [hnone], happ.1, rfl, happ.2.2⟩
  · simp only [happ, ↓reduceIte]
    rcases configUpdateValue_spec h key val with ⟨hlen, ⟨old, hold, hne⟩, hupd⟩ | ⟨hfail', hupd⟩
    · have h0 : ¬ (configUpdateValue s key val).1 = -1 := by rw [hupd.2.1]; decide
      rw [if_neg h0]
      exact .inl ⟨hlen, by simpa [hold] using hne, hupd.1, rfl, hupd.2.2⟩
    · rw [hupd, if_pos rfl]
      refine .inr ⟨?_, rfl⟩
      rcases hfail' with h1 | h1 | h1
      · exact .inl h1
      · rcases hfail with h2 | h2
        · exact .inl h2
        · exact absurd h1 h2
      · exact .inr h1

end Taomee.Config
