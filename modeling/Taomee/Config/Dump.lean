import Taomee.Config.Reload
import Mathlib.Data.List.Nodup
import Mathlib.Data.List.Flatten

/-!
# Dumping the configuration (conf_parser/config.c)

`config_dump_loop_next` walks through the 256 lists with an iterator that is kept between the calls.
The counters are `Nat`s: a store of 2^31 entries would take 8 TB of values.
-/

namespace Taomee.Config

/-! ## Counting -/

/-- The entries of `ini_key_head[i]`. -/
def Store.bucket (s : Store) (i : Nat) : List ConfigPair := s.iniKeyHead (Fin.ofNat 256 i)

/-- The inner loop of `config_dump_get_count`. -/
def countLoop (totalItems : Nat) : List ConfigPair → Nat
  | [] => totalItems
  | _ :: p => countLoop (totalItems + 1) p

/-- `config_dump_get_count()` -/
def configDumpGetCount (s : Store) : Nat :=
  if s.hasInit then
    (List.range 256).foldl (fun totalItems i => countLoop totalItems (s.bucket i)) 0
  else 0

/-! ## The iterator -/

/-- A `list_head_t*` into a list: the entry that has `left` entries from it to the end of the list,
or the list head itself. Entries are added at the front only, so an entry keeps its place. -/
structure ListIter where
  head : Nat
  left : Nat
  deriving DecidableEq

/-- `ini_key_head[i].next` -/
def Store.first (s : Store) (i : Nat) : ListIter := ⟨i, (s.bucket i).length⟩

/-- `list_entry(iter, config_pair_t, list)`, if there is an entry at `iter`. -/
def Store.entry? (s : Store) (iter : ListIter) : Option ConfigPair :=
  ((s.bucket iter.head).drop ((s.bucket iter.head).length - iter.left)).head?

/-- The statics `config_dump_loop_index`, `config_dump_loop_first_flag` and `config_dump_loop_iter`
(`none` is `NULL`). -/
structure DumpLoop where
  index : Nat
  firstFlag : Nat
  iter : Option ListIter

/-- `config_dump_loop_reset()` -/
def configDumpLoopReset (d : DumpLoop) : DumpLoop := { d with index := 0, firstFlag := 0 }

/-- What `config_dump_loop_next` returns, and what it stores in `*key` and `*val`. -/
abbrev DumpResult : Type := Int × Option (List UInt8 × List UInt8)

/-- `config_dump_loop_next` from `retry` on, for at most `fuel` jumps. `none` is a read through a
pointer that is not at an entry. -/
def dumpRetry (s : Store) : Nat → DumpLoop → Option (DumpResult × DumpLoop)
  | 0, _ => none
  | fuel + 1, d =>
      match d.iter with
      | none => none
      | some iter =>
          if iter ≠ ⟨d.index, 0⟩ then
            match s.entry? iter with
            | some mc =>
                some ((1, some (mc.key, mc.val)),
                  { d with iter := some { iter with left := iter.left - 1 } })
            | none => none
          else if d.index + 1 ≥ 256 then
            -- round back reset
            some ((0, none), { d with index := 0, firstFlag := 0 })
          else
            dumpRetry s fuel { d with index := d.index + 1, iter := some (s.first (d.index + 1)) }

/-- `config_dump_loop_next(key, val)` -/
def configDumpLoopNext (s : Store) (d : DumpLoop) : Option (DumpResult × DumpLoop) :=
  let iter := if d.firstFlag = 0 then some (s.first 0) else d.iter
  dumpRetry s 256 { d with firstFlag := d.firstFlag + 1, iter := iter }

/-- The results of `n` calls of `config_dump_loop_next` in a row. -/
def dumpCalls (s : Store) : Nat → DumpLoop → Option (List DumpResult × DumpLoop)
  | 0, d => some ([], d)
  | n + 1, d => do
      let (result, d) ← configDumpLoopNext s d
      let (results, d) ← dumpCalls s n d
      return (result :: results, d)

/-! ## All entries -/

/-- The entries of the `n` lists from `ini_key_head[i]` on. -/
def Store.pairsFrom (s : Store) (i n : Nat) : List ConfigPair := (List.range' i n).flatMap s.bucket

/-- The entries of all lists. -/
def Store.pairs (s : Store) : List ConfigPair := s.pairsFrom 0 256

variable {s : Store}

theorem pairsFrom_succ (i n : Nat) :
    s.pairsFrom i (n + 1) = s.bucket i ++ s.pairsFrom (i + 1) n := by
  unfold Store.pairsFrom
  rw [List.range'_succ, List.flatMap_cons]

theorem countLoop_eq (totalItems : Nat) (l : List ConfigPair) :
    countLoop totalItems l = totalItems + l.length := by
  induction l generalizing totalItems with
  | nil => rfl
  | cons mc p ih =>
      unfold countLoop
      rw [ih, List.length_cons]
      omega

theorem foldl_countLoop (l : List Nat) (totalItems : Nat) :
    l.foldl (fun totalItems i => countLoop totalItems (s.bucket i)) totalItems =
      totalItems + (l.flatMap s.bucket).length := by
  induction l generalizing totalItems with
  | nil => rfl
  | cons i l ih =>
      rw [List.foldl_cons, ih, countLoop_eq, List.flatMap_cons, List.length_append]
      omega

theorem configDumpGetCount_eq (h : StoreInv s) : configDumpGetCount s = s.pairs.length := by
  unfold configDumpGetCount
  rw [if_pos h.init, foldl_countLoop, List.range_eq_range', Nat.zero_add]
  rfl

theorem mem_bucket {i : Nat} (h : StoreInv s) {mc : ConfigPair} (hmc : mc ∈ s.bucket i) :
    hashKey mc.key = Fin.ofNat 256 i := h.hash _ mc hmc

theorem StoreInv.nodup_pairs (h : StoreInv s) : (s.pairs.map ConfigPair.key).Nodup := by
  unfold Store.pairs Store.pairsFrom
  rw [List.map_flatMap, List.nodup_flatMap]
  refine ⟨fun i _ => h.nodup _, ?_⟩
  -- keys in two lists have two hashes
  have hindices : (List.range' 0 256).Nodup := List.nodup_range'
  refine List.Pairwise.imp_of_mem (fun {i j} hi hj hij => ?_) hindices
  rw [List.mem_range'_1] at hi hj
  intro k hki hkj
  obtain ⟨mc, hmc, rfl⟩ := List.mem_map.mp hki
  obtain ⟨mc', hmc', hk⟩ := List.mem_map.mp hkj
  have heq : Fin.ofNat 256 i = Fin.ofNat 256 j := by
    rw [← mem_bucket h hmc, ← mem_bucket h hmc', hk]
  have hval : i % 256 = j % 256 := congrArg Fin.val heq
  omega

theorem getLoop_some_iff {key val : List UInt8} {l : List ConfigPair}
    (hn : (l.map ConfigPair.key).Nodup) : getLoop key l = some val ↔ ⟨val, key⟩ ∈ l := by
  induction l with
  | nil => simp [getLoop]
  | cons mc p ih =>
      rw [List.map_cons, List.nodup_cons] at hn
      rw [List.mem_cons]
      by_cases hk : key = mc.key
      · have hp : (⟨val, key⟩ : ConfigPair) ∉ p :=
          fun hmem => hn.1 (hk ▸ List.mem_map_of_mem hmem)
        subst hk
        simp only [getLoop, ↓reduceIte, Option.some.injEq, or_iff_left hp]
        constructor
        · rintro rfl
          rfl
        · rintro heq
          exact (congrArg ConfigPair.val heq).symm
      · have hne : (⟨val, key⟩ : ConfigPair) ≠ mc := fun heq => hk (congrArg ConfigPair.key heq)
        simp only [getLoop, if_neg hk, or_iff_right hne]
        exact ih hn.2

/-- A pair is in one of the lists exactly when `config_get_strval` finds it. -/
theorem mem_pairs_iff (h : StoreInv s) {key val : List UInt8} :
    ⟨val, key⟩ ∈ s.pairs ↔ configGetStrval s key = some val := by
  unfold configGetStrval configKeyHash
  rw [getLoop_some_iff (h.nodup _)]
  unfold Store.pairs Store.pairsFrom
  rw [List.mem_flatMap]
  constructor
  · rintro ⟨i, -, hmc⟩
    rw [mem_bucket h hmc]
    exact hmc
  · intro hmc
    refine ⟨(hashKey key).val, List.mem_range'_1.mpr ⟨Nat.zero_le _, (hashKey key).isLt⟩, ?_⟩
    unfold Store.bucket
    rw [show Fin.ofNat 256 (hashKey key).val = hashKey key from
      Fin.ext (Nat.mod_eq_of_lt (hashKey key).isLt)]
    exact hmc

/-! ## The walk -/

/-- The iterator stands in list `index`, with the entries `rest` still to come. -/
structure Ahead (s : Store) (d : DumpLoop) (rest : List ConfigPair) : Prop where
  index : d.index < 256
  iter : ∃ left, d.iter = some ⟨d.index, left⟩ ∧ left ≤ (s.bucket d.index).length ∧
    rest = (s.bucket d.index).drop ((s.bucket d.index).length - left) ++
      s.pairsFrom (d.index + 1) (255 - d.index)

/-- At the front of list `index`. -/
theorem ahead_first {d : DumpLoop} (hi : d.index < 256) (hd : d.iter = some (s.first d.index)) :
    Ahead s d (s.pairsFrom d.index (256 - d.index)) := by
  refine ⟨hi, _, hd, Nat.le_refl _, ?_⟩
  rw [Nat.sub_self, List.drop_zero, ← pairsFrom_succ]
  congr 1
  omega

/-- From `retry` on, the next entry is found across any number of empty lists. The induction is on
the jumps that are left. -/
theorem dumpRetry_spec (fuel : Nat) {d : DumpLoop} {rest : List ConfigPair} (h : Ahead s d rest)
    (hfuel : 256 ≤ fuel + d.index) :
    (rest = [] ∧ ∃ d', dumpRetry s fuel d = some ((0, none), d') ∧ d'.index = 0 ∧
      d'.firstFlag = 0) ∨
    ∃ mc rest' d', rest = mc :: rest' ∧
      dumpRetry s fuel d = some ((1, some (mc.key, mc.val)), d') ∧ Ahead s d' rest' ∧
      d'.firstFlag = d.firstFlag := by
  obtain ⟨hi, left, hiter, hleft, hrest⟩ := h
  induction fuel generalizing d left rest with
  | zero => omega
  | succ fuel ih =>
      rw [dumpRetry, hiter]
      by_cases hl : left = 0
      · subst hl
        rw [Nat.sub_zero, List.drop_length, List.nil_append] at hrest
        have hne : ¬ (⟨d.index, 0⟩ : ListIter) ≠ ⟨d.index, 0⟩ := not_not_intro rfl
        simp only [if_neg hne]
        by_cases hlast : d.index + 1 ≥ 256
        · rw [if_pos hlast]
          have hnone : 255 - d.index = 0 := by omega
          rw [hnone] at hrest
          exact .inl ⟨hrest, _, rfl, rfl, rfl⟩
        · rw [if_neg hlast]
          have hn : 255 - d.index = 255 - (d.index + 1) + 1 := by omega
          rw [hn, pairsFrom_succ] at hrest
          refine ih (by simp only; omega) (by simp only; omega) _ rfl (Nat.le_refl _) ?_
          rw [Nat.sub_self, List.drop_zero]
          exact hrest
      · have hne : (⟨d.index, left⟩ : ListIter) ≠ ⟨d.index, 0⟩ :=
          fun heq => hl (congrArg ListIter.left heq)
        simp only [if_pos hne]
        have hlt : (s.bucket d.index).length - left < (s.bucket d.index).length := by omega
        have hnext : (s.bucket d.index).length - left + 1 =
            (s.bucket d.index).length - (left - 1) := by omega
        rw [List.drop_eq_getElem_cons hlt, hnext, List.cons_append] at hrest
        have hentry : s.entry? ⟨d.index, left⟩ =
            some ((s.bucket d.index)[(s.bucket d.index).length - left]) := by
          unfold Store.entry?
          rw [List.drop_eq_getElem_cons hlt, List.head?_cons]
        rw [hentry]
        refine .inr ⟨_, _, _, hrest, rfl, ⟨hi, left - 1, rfl, ?_, rfl⟩, rfl⟩
        exact Nat.le_trans (Nat.sub_le _ _) hleft

/-- The entries that the next calls will yield: all of them when the walk is about to start. -/
def Pending (s : Store) (d : DumpLoop) (rest : List ConfigPair) : Prop :=
  (d.firstFlag = 0 ∧ d.index = 0 ∧ rest = s.pairs) ∨ (d.firstFlag ≠ 0 ∧ Ahead s d rest)

/-- One call: the next entry, or 0 and the walk is about to start again. -/
theorem configDumpLoopNext_spec {d : DumpLoop} {rest : List ConfigPair} (h : Pending s d rest) :
    (rest = [] ∧ ∃ d', configDumpLoopNext s d = some ((0, none), d') ∧ Pending s d' s.pairs) ∨
    ∃ mc rest' d', rest = mc :: rest' ∧
      configDumpLoopNext s d = some ((1, some (mc.key, mc.val)), d') ∧ Pending s d' rest' := by
  have hahead : Ahead s { d with
      firstFlag := d.firstFlag + 1, iter := if d.firstFlag = 0 then some (s.first 0) else d.iter }
      rest := by
    rcases h with ⟨hflag, hindex, rfl⟩ | ⟨hflag, ha⟩
    · have hf := @ahead_first s { d with
        firstFlag := d.firstFlag + 1, iter := if d.firstFlag = 0 then some (s.first 0) else d.iter }
      simp only [hindex] at hf
      have h0 := hf (by decide) (if_pos hflag)
      simp only [hindex]
      exact h0
    · rw [if_neg hflag]
      exact ⟨ha.index, ha.iter⟩
  rcases dumpRetry_spec 256 hahead (Nat.le_add_right _ _) with
    ⟨hnil, d', hcall, hindex, hflag⟩ | ⟨mc, rest', d', hcons, hcall, ha, hflag⟩
  · exact .inl ⟨hnil, d', hcall, .inl ⟨hflag, hindex, rfl⟩⟩
  · refine .inr ⟨mc, rest', d', hcons, hcall, .inr ⟨?_, ha⟩⟩
    rw [hflag]
    exact Nat.succ_ne_zero _

/-- The results of one walk. -/
def dumpRound (pairs : List ConfigPair) : List DumpResult :=
  pairs.map (fun mc => (1, some (mc.key, mc.val))) ++ [(0, none)]

/-- The rest of a walk, then `n` more calls. The induction is on the entries that are left. -/
theorem dumpCalls_rest (n : Nat) {d : DumpLoop} {rest : List ConfigPair} (h : Pending s d rest) :
    ∃ d', Pending s d' s.pairs ∧ dumpCalls s (rest.length + 1 + n) d =
      (dumpCalls s n d').map fun r => (dumpRound rest ++ r.1, r.2) := by
  induction rest generalizing d with
  | nil =>
      rcases configDumpLoopNext_spec h with ⟨_, d', hcall, hd'⟩ | ⟨_, _, _, hcons, _⟩
      · refine ⟨d', hd', ?_⟩
        have hn : ([] : List ConfigPair).length + 1 + n = n + 1 := Nat.add_comm _ _
        rw [hn, dumpCalls, hcall]
        change (dumpCalls s n d' >>= _) = _
        cases dumpCalls s n d' <;> rfl
      · cases hcons
  | cons mc rest ih =>
      rcases configDumpLoopNext_spec h with ⟨hnil, _⟩ | ⟨mc', rest', d₁, hcons, hcall, hd₁⟩
      · cases hnil
      · cases hcons
        obtain ⟨d', hd', heq⟩ := ih hd₁
        refine ⟨d', hd', ?_⟩
        have hn : (mc :: rest).length + 1 + n = rest.length + 1 + n + 1 := by
          rw [List.length_cons]
          omega
        rw [hn, dumpCalls, hcall]
        change (dumpCalls s (rest.length + 1 + n) d₁ >>= _) = _
        rw [heq]
        cases dumpCalls s n d' <;> rfl

theorem dumpCalls_rounds (rounds : Nat) {d : DumpLoop} (h : Pending s d s.pairs) :
    ∃ d', dumpCalls s (rounds * (s.pairs.length + 1)) d =
      some ((List.replicate rounds (dumpRound s.pairs)).flatten, d') := by
  induction rounds generalizing d with
  | zero => exact ⟨d, by rw [Nat.zero_mul]; rfl⟩
  | succ rounds ih =>
      obtain ⟨d₁, hd₁, heq⟩ := dumpCalls_rest (rounds * (s.pairs.length + 1)) h
      obtain ⟨d', hrounds⟩ := ih hd₁
      refine ⟨d', ?_⟩
      rw [Nat.succ_mul, Nat.add_comm, heq, hrounds]
      rfl

/-! ## Runs -/

/-- Calls that change the store after `config_init`. -/
inductive PairCall where
  | appendValue (key val : List UInt8)
  | updateValue (key val : List UInt8)

/-- What a call returns and the store it leaves. -/
def PairCall.run (s : Store) : PairCall → Int × Store
  | .appendValue key val => configAppendValue s key val
  | .updateValue key val => configUpdateValue s key val

/-- The value of `k` after a call, given the value before it: an append creates `k`, an update targets
a `k` that is there. -/
def PairCall.value (k : List UInt8) (before : Option (List UInt8)) : PairCall → Option (List UInt8)
  | .appendValue key val =>
      if key = k ∧ before = none ∧ val.length < configValSize then some val else before
  | .updateValue key val =>
      if key = k ∧ before ≠ none ∧ val.length < configValSize then some val else before

/-- The store after a list of calls. -/
def runCalls (s : Store) (calls : List PairCall) : Store := calls.foldl (fun s c => (c.run s).2) s

/-- The value that the calls leave for `k`, `none` when there was no append that created it. -/
def lastValue (calls : List PairCall) (k : List UInt8) : Option (List UInt8) :=
  calls.foldl (PairCall.value k) none

theorem PairCall.run_spec (h : StoreInv s) (c : PairCall) :
    StoreInv (c.run s).2 ∧
      ∀ k, configGetStrval (c.run s).2 k = c.value k (configGetStrval s k) := by
  cases c with
  | appendValue key val =>
      simp only [PairCall.run, PairCall.value]
      rcases configAppendValue_spec h key val with ⟨hlen, hnone, hinv, -, hget⟩ | ⟨hfail, heq⟩
      · refine ⟨hinv, fun k => ?_⟩
        rw [hget]
        by_cases hk : key = k
        · subst hk
          rw [Function.update_self, if_pos ⟨rfl, hnone, hlen⟩]
        · rw [Function.update_of_ne (Ne.symm hk), if_neg fun hc => hk hc.1]
      · rw [heq]
        refine ⟨h, fun k => ?_⟩
        rw [if_neg]
        rintro ⟨rfl, hnone, hlen⟩
        rcases hfail with hlong | hsome
        · exact absurd hlen (Nat.not_lt.mpr hlong)
        · exact hsome hnone
  | updateValue key val =>
      simp only [PairCall.run, PairCall.value]
      rcases configUpdateValue_spec h key val with
        ⟨hlen, ⟨old, hold, hne⟩, hinv, -, hget⟩ | ⟨hfail, heq⟩
      · refine ⟨hinv, fun k => ?_⟩
        rw [hget]
        by_cases hk : key = k
        · subst hk
          have hsome : configGetStrval s key ≠ none := by
            rw [hold]
            exact Option.some_ne_none old
          rw [Function.update_self, if_pos ⟨rfl, hsome, hlen⟩]
        · rw [Function.update_of_ne (Ne.symm hk), if_neg fun hc => hk hc.1]
      · rw [heq]
        refine ⟨h, fun k => ?_⟩
        by_cases hc : key = k ∧ configGetStrval s k ≠ none ∧ val.length < configValSize
        · rw [if_pos hc]
          obtain ⟨rfl, hsome, hlen⟩ := hc
          -- the value is there already
          rcases hfail with hlong | hnone | hsame
          · exact absurd hlen (Nat.not_lt.mpr hlong)
          · exact absurd hnone hsome
          · exact hsame
        · rw [if_neg hc]

theorem runCalls_spec (h : StoreInv s) (calls : List PairCall) :
    StoreInv (runCalls s calls) ∧ ∀ k, configGetStrval (runCalls s calls) k =
      calls.foldl (PairCall.value k) (configGetStrval s k) := by
  induction calls generalizing s with
  | nil => exact ⟨h, fun _ => rfl⟩
  | cons c calls ih =>
      obtain ⟨hinv, hget⟩ := c.run_spec h
      obtain ⟨hinv', hget'⟩ := ih hinv
      refine ⟨hinv', fun k => ?_⟩
      rw [List.foldl_cons, ← hget]
      exact hget' k

/-- The store of a program that has read an empty file. -/
def freshStore (heads : Fin 256 → List ConfigPair) : Store := (configInit ⟨false, heads⟩ (some [])).2

/-- The store is a map that takes every key to its last value and has one entry for each key, and
`config_dump_loop_next` walks over the entries, each once, and then starts over. -/
theorem configDump_enumerates (heads : Fin 256 → List ConfigPair) (calls : List PairCall) :
    let s := runCalls (freshStore heads) calls
    (∀ k, configGetStrval s k = lastValue calls k) ∧
    (∀ k, (s.pairs.map ConfigPair.key).count k = if (configGetStrval s k).isSome then 1 else 0) ∧
    (∀ k v, ⟨v, k⟩ ∈ s.pairs ↔ configGetStrval s k = some v) ∧
    (∀ k v, configGetStrval s k ≠ none → configAppendValue s k v = (-1, s)) ∧
    s.pairs.length = configDumpGetCount s ∧
    ∀ d rounds, ∃ d',
      dumpCalls s (rounds * (configDumpGetCount s + 1)) (configDumpLoopReset d) =
        some ((List.replicate rounds (dumpRound s.pairs)).flatten, d') := by
  intro s
  have hfresh : freshStore heads = ⟨true, fun _ => []⟩ := rfl
  have hrun := runCalls_spec (hfresh ▸ storeInv_empty : StoreInv (freshStore heads)) calls
  have hinv : StoreInv s := hrun.1
  refine ⟨hrun.2, fun k => ?_, fun k v => mem_pairs_iff hinv, fun k v hk => ?_,
    (configDumpGetCount_eq hinv).symm, fun d rounds => ?_⟩
  · cases hg : configGetStrval s k with
    | none =>
        refine List.count_eq_zero.mpr fun hmem => ?_
        obtain ⟨mc, hmc, rfl⟩ := List.mem_map.mp hmem
        have hsome := (mem_pairs_iff hinv).mp hmc
        rw [hg] at hsome
        cases hsome
    | some v =>
        have hmem := (mem_pairs_iff hinv).mpr hg
        exact List.count_eq_one_of_mem hinv.nodup_pairs
          (List.mem_map_of_mem hmem)
  · rcases configAppendValue_spec hinv k v with ⟨_, hnone, _⟩ | ⟨_, heq⟩
    · exact absurd hnone hk
    · exact heq
  · rw [configDumpGetCount_eq hinv]
    exact dumpCalls_rounds rounds (.inl ⟨rfl, rfl, rfl⟩)

end Taomee.Config
