import Taomee.Config.Lemmas.Store
import Taomee.Config.Lemmas.Parse

/-!
# Reloading a configuration

A text is read in full exactly when no line assigns a key the value that it has at that point:
`config_append_value` refuses a key that is there, `config_update_value` a value that is there, and
the parser gives up at the first line that both refuse. Without such a line the store then agrees
with the text.
-/

namespace Taomee.Config

/-- The value on the last assignment to `k`. -/
def lastAssigned (as : List (List UInt8 × List UInt8)) (k : List UInt8) : Option (List UInt8) :=
  (as.reverse.find? fun kv => kv.1 = k).map Prod.snd

/-- Some line assigns a key the value that the key has when that line is reached: the value on the
last line before it that assigns the key, or else the one in the store. -/
def Redundant (s : Store) (as : List (List UInt8 × List UInt8)) : Prop :=
  ∃ before k v after, as = before ++ (k, v) :: after ∧
    (lastAssigned before k).or (configGetStrval s k) = some v

/-- The store agrees with the text after `config_update`: the call returns 0, every key of the text
has the value on the last line that assigns it, every other key the value it had. -/
def ReloadAgrees (s : Store) (text : List UInt8) : Prop :=
  let (ret, s') := configUpdate s (some text)
  ret = 0 ∧
    (∀ k v, lastAssigned (assignments text) k = some v → configGetStrval s' k = some v) ∧
    ∀ k, lastAssigned (assignments text) k = none → configGetStrval s' k = configGetStrval s k

/-! ## Assignments in turn -/

theorem lastAssigned_cons (k v : List UInt8) (as : List (List UInt8 × List UInt8)) (k' : List UInt8) :
    lastAssigned ((k, v) :: as) k' =
      (lastAssigned as k').or (if k' = k then some v else none) := by
  unfold lastAssigned
  rw [List.reverse_cons, List.find?_append]
  cases hf : as.reverse.find? fun kv => decide (kv.1 = k') with
  | some kv => rfl
  | none =>
      by_cases hk : k = k'
      · simp [hk]
      · have hk' : ¬ k' = k := fun h => hk h.symm
        simp [hk, hk']

/-- What the map becomes does not depend on whether the first assignment is made before or with the
others. -/
theorem lastAssigned_or_update {s s' : Store} {k v : List UInt8}
    (h : configGetStrval s' = Function.update (configGetStrval s) k (some v))
    (as : List (List UInt8 × List UInt8)) (k' : List UInt8) :
    (lastAssigned as k').or (configGetStrval s' k') =
      (lastAssigned ((k, v) :: as) k').or (configGetStrval s k') := by
  rw [lastAssigned_cons, h, Option.or_assoc]
  by_cases hk : k' = k
  · subst hk
    simp
  · simp [hk]

theorem redundant_cons {s s' : Store} {k v : List UInt8} {as : List (List UInt8 × List UInt8)}
    (h : configGetStrval s' = Function.update (configGetStrval s) k (some v))
    (hk : configGetStrval s k ≠ some v) : Redundant s ((k, v) :: as) ↔ Redundant s' as := by
  constructor
  · rintro ⟨before, k', v', after, heq, hval⟩
    cases before with
    | nil =>
        obtain ⟨⟨rfl, rfl⟩, -⟩ := by simpa using heq
        exact absurd hval hk
    | cons kv before =>
        obtain ⟨rfl, rfl⟩ := by simpa using heq
        exact ⟨before, k', v', after, rfl, (lastAssigned_or_update h before k').trans hval⟩
  · rintro ⟨before, k', v', after, rfl, hval⟩
    exact ⟨(k, v) :: before, k', v', after, rfl, (lastAssigned_or_update h before k').symm.trans hval⟩

/-- The parser's assignments in turn: all of them are made, or one of them is redundant. The
induction is on the assignments; each one made updates the map at its key. -/
theorem assignAll_spec {s : Store} (hs : StoreInv s) {as : List (List UInt8 × List UInt8)}
    (hv : ∀ kv ∈ as, kv.2.length < configValSize) :
    (¬ Redundant s as ∧ (assignAll s as).1 = 0 ∧
      ∀ k, configGetStrval (assignAll s as).2 k = (lastAssigned as k).or (configGetStrval s k)) ∨
    (Redundant s as ∧ (assignAll s as).1 = -1) := by
  induction as generalizing s with
  | nil =>
      refine .inl ⟨?_, rfl, fun k => rfl⟩
      rintro ⟨before, k, v, after, heq, -⟩
      simp at heq
  | cons kv as ih =>
      obtain ⟨k, v⟩ := kv
      have hlen : v.length < configValSize := hv _ List.mem_cons_self
      unfold assignAll
      rcases configResetOrAddValue_spec hs k v with ⟨_, hne, hinv, hret, hget⟩ | ⟨hfail, heq⟩
      · have h0 : ¬ (configResetOrAddValue s k v).1 = -1 := by rw [hret]; decide
        simp only [if_neg h0]
        rw [redundant_cons hget hne]
        rcases ih hinv fun kv h => hv kv (List.mem_cons_of_mem _ h) with ⟨h1, h2, h3⟩ | h
        · exact .inl ⟨h1, h2, fun k' => (h3 k').trans (lastAssigned_or_update hget as k')⟩
        · exact .inr h
      · rw [heq]
        refine .inr ⟨⟨[], k, v, as, rfl, ?_⟩, rfl⟩
        exact hfail.resolve_left (Nat.not_le.mpr hlen)

/-! ## Reachable stores -/

theorem StoreInv.assignAll {s : Store} (hs : StoreInv s) (as : List (List UInt8 × List UInt8)) :
    StoreInv (assignAll s as).2 := by
  induction as generalizing s with
  | nil => exact hs
  | cons kv as ih =>
      unfold Config.assignAll
      rcases configResetOrAddValue_spec hs kv.1 kv.2 with ⟨_, _, hinv, hret, _⟩ | ⟨_, heq⟩
      · have h0 : ¬ (configResetOrAddValue s kv.1 kv.2).1 = -1 := by rw [hret]; decide
        simp only [if_neg h0]
        exact ih hinv
      · simp only [heq, ↓reduceIte]
        exact hs

theorem storeInv_empty : StoreInv ⟨true, fun _ => []⟩ where
  init := rfl
  hash := fun _ _ h => absurd h List.not_mem_nil
  nodup := fun _ => List.nodup_nil

theorem StoreInv.initStore_eq {s : Store} (hs : StoreInv s) : initStore s = s := if_pos hs.init

theorem StoreInv.configInit {s : Store} (hs : StoreInv (initStore s)) (file : Option (List UInt8)) :
    StoreInv (configInit s file).2 := by
  cases file with
  | none => exact hs
  | some text =>
      rw [configInit_spec]
      exact hs.assignAll _

theorem Reachable.storeInv {s : Store} (h : Reachable s) : StoreInv s := by
  induction h with
  | init heads file => exact .configInit (s := ⟨false, heads⟩) storeInv_empty file
  | @next s op _ ih =>
      have hinit : StoreInv (initStore s) := ih.initStore_eq.symm ▸ ih
      cases op with
      | init file => exact hinit.configInit file
      | update file => exact hinit.configInit file
      | appendValue key val =>
          rcases configAppendValue_spec ih key val with ⟨_, _, h, _⟩ | ⟨_, heq⟩
          · exact h
          · exact (congrArg (fun r => StoreInv r.2) heq).mpr ih
      | updateValue key val =>
          rcases configUpdateValue_spec ih key val with ⟨_, _, h, _⟩ | ⟨_, heq⟩
          · exact h
          · exact (congrArg (fun r => StoreInv r.2) heq).mpr ih

/-! ## When a reload works -/

/-- A reload makes the store agree with the text exactly when no line of the text is redundant. -/
theorem configUpdate_agrees_iff (s : Store) (hs : Reachable s) (text : List UInt8) (h0 : 0 ∉ text)
    (hv : ∀ kv ∈ assignments text, kv.2.length < configValSize) :
    ReloadAgrees s text ↔ ¬ Redundant s (assignments text) := by
  have hinv := hs.storeInv
  have heq : configUpdate s (some text) = assignAll s (assignments text) := by
    unfold configUpdate
    rw [configInit_spec, hinv.initStore_eq, takeWhile_ne_zero h0]
  unfold ReloadAgrees
  simp only [heq]
  rcases assignAll_spec hinv hv with ⟨hno, hret, hget⟩ | ⟨hred, hret⟩
  · refine iff_of_true ⟨hret, fun k v hk => ?_, fun k hk => ?_⟩ hno
    · rw [hget k, hk]
      rfl
    · rw [hget k, hk]
      rfl
  · refine iff_of_false (fun h => ?_) (not_not_intro hred)
    rw [hret] at h
    exact absurd h.1 (by decide)

/-- "a 1" and "b 2" on two lines. -/
def sampleText : List UInt8 := [0x61, 0x20, 0x31, 0x0A, 0x62, 0x20, 0x32, 0x0A]

/-- The store that `config_init` leaves after it has read `sampleText`. -/
def sampleStore : Store := (configInit ⟨false, fun _ => []⟩ (some sampleText)).2

/-- Reading another value for a key, and a new key. -/
theorem configUpdate_agrees_sample :
    ReloadAgrees sampleStore [0x61, 0x3D, 0x32, 0x0A, 0x63, 0x20, 0x33] := by
  refine (configUpdate_agrees_iff sampleStore (.init _ _) _ (by decide) (by decide)).mpr ?_
  rintro ⟨before, k, v, after, heq, hval⟩
  have hall : assignments [0x61, 0x3D, 0x32, 0x0A, 0x63, 0x20, 0x33] =
      [([0x61], [0x32]), ([0x63], [0x33])] := by decide
  rw [hall] at heq
  match before, heq with
  | [], heq =>
      obtain ⟨⟨rfl, rfl⟩, -⟩ := by simpa using heq
      exact absurd hval (by decide)
  | [_], heq =>
      obtain ⟨rfl, ⟨rfl, rfl⟩, -⟩ := by simpa using heq
      exact absurd hval (by decide)
  | _ :: _ :: _, heq => simp at heq

/-- A reload does not always make the store agree with the text: reading a text twice ends the second
parse at the first line. -/
theorem not_configUpdate_agrees :
    ¬ ∀ s, Reachable s → ∀ text, 0 ∉ text →
      (∀ kv ∈ assignments text, kv.2.length < configValSize) → ReloadAgrees s text := by
  intro h
  have hret := (h sampleStore (.init _ _) sampleText (by decide) (by decide)).1
  exact absurd hret (by decide)

end Taomee.Config
