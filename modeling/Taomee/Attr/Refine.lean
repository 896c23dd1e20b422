import Mathlib.Data.List.Induction
import Taomee.Attr.AttrApi

/-!
# The table refines a map

A key stands in at most one node, and the table answers as a map from keys to counters would.
-/

namespace Taomee.Attr

open Taomee.Probing

variable {table : Table} {key : UInt64}

/-! ## The rows -/

/-- Every row lies between `start` and the end of the rows, and its nodes belong to it. -/
theorem initRows_within : ∀ {nodesNum mods : List Nat} {start : Nat} {rows : List Row},
    initRows start nodesNum mods = some rows → ∀ row ∈ rows,
      0 < row.mod ∧ row.mod ≤ row.nodesNum ∧ row.start + row.nodesNum ≤ start + nodesNum.sum
  | n :: nodesNum, m :: mods, start, rows, h => by
      unfold initRows at h
      split at h
      · cases h
      split at h
      · cases h
      · obtain ⟨rest, hrest, rfl⟩ := Option.map_eq_some_iff.mp h
        intro row hrow
        rw [List.sum_cons]
        rcases List.mem_cons.mp hrow with rfl | hrow
        · refine ⟨?_, ?_, ?_⟩
          all_goals dsimp only
          all_goals omega
        · obtain ⟨hpos, hle, hend⟩ := initRows_within hrest row hrow
          exact ⟨hpos, hle, by omega⟩
  | [], [], _, rows, h => by
      obtain rfl : [] = rows := Option.some.inj h
      exact fun row hrow => absurd hrow List.not_mem_nil
  | [], _ :: _, _, _, h => by cases h
  | _ :: _, [], _, _, h => by cases h

/-- The node of a key in any row of an initialised table lies inside the table. -/
theorem hashTableInit_within {tableSize nodeSize : Nat} {nodesNum mods : List Nat} {htab : HashTable}
    (h : hashTableInit tableSize nodeSize nodesNum mods = some htab) (shortKey : UInt32) :
    ∀ row ∈ htab.rows, row.node shortKey < htab.totalNodeNum := by
  unfold hashTableInit at h
  split at h
  · cases h
  split at h
  · cases h
  split at h
  · cases h
  rename_i hrows
  split at h
  · cases h
  obtain rfl := Option.some.inj h
  intro row hrow
  obtain ⟨hpos, hle, hend⟩ := initRows_within hrows row hrow
  have hmod := Nat.mod_lt shortKey.toNat hpos
  unfold Row.node
  dsimp only
  omega

/-- No lookup leaves the table of attributes. -/
theorem attrNodesHtab_within (shortKey : UInt32) : ∀ row ∈ attrNodesHtab.rows,
    row.node shortKey < attrNodesHtab.totalNodeNum :=
  hashTableInit_within (Option.some_get _).symm shortKey

/-! ## Lookups -/

/-- The key of each node. -/
def keyAt (table : Table) (node : Nat) : UInt64 := (table node).key

/-- The nodes where a key may stand, row by row. -/
def probe (key : UInt64) : List Nat := attrNodesHtab.rows.map (·.node key.toUInt32)

theorem lookupNode_eq (key : UInt64) (shortKey : UInt32) (rows : List Row) :
    lookupNode table key shortKey rows = find (keyAt table) key (rows.map (·.node shortKey)) := by
  induction rows with
  | nil => rfl
  | cons row rows ih =>
      unfold lookupNode
      unfold find at ih ⊢
      rw [List.map_cons, List.find?_cons]
      by_cases hkey : (table (row.node shortKey)).key = key
      · simp [keyAt, hkey]
      · simp [keyAt, hkey, ih]

theorem lookupNodeEx_eq (e key : UInt64) (shortKey : UInt32) (rows : List Row) : ∀ emptyNode,
    lookupNodeEx table e key shortKey rows emptyNode =
      ((find (keyAt table) key (rows.map (·.node shortKey))).or
          (emptyNode.or (find (keyAt table) e (rows.map (·.node shortKey)))),
        (find (keyAt table) key (rows.map (·.node shortKey))).isSome) := by
  induction rows with
  | nil =>
      intro emptyNode
      simp [lookupNodeEx, find]
  | cons row rows ih =>
      intro emptyNode
      unfold lookupNodeEx
      rw [List.map_cons]
      unfold find at ih ⊢
      rw [List.find?_cons, List.find?_cons]
      by_cases hkey : (table (row.node shortKey)).key = key
      · simp [keyAt, hkey]
      · cases emptyNode with
        | some p => simp [keyAt, hkey, ih]
        | none =>
            by_cases he : (table (row.node shortKey)).key = e
            · have hne : e ≠ key := fun h => hkey (he.trans h)
              simp [keyAt, he, hne, ih]
            · simp [keyAt, hkey, he, ih]

theorem htabLookup_eq (table : Table) (key : UInt64) :
    htabLookup table key = find (keyAt table) key (probe key) := lookupNode_eq _ _ _

theorem htabLookupEx_eq (table : Table) (key : UInt64) :
    htabLookupEx table key = (place (keyAt table) emptyKey key (probe key),
      (find (keyAt table) key (probe key)).isSome) := lookupNodeEx_eq _ _ _ _ _

/-! ## The map -/

/-- What the table stands for: a counter for some of the keys. -/
abbrev AttrMap := UInt64 → Option Int64

/-- An update of a map, which always succeeds. -/
def AttrMap.update (m : AttrMap) (key : UInt64) (val : Int64) (method : Int) : AttrMap :=
  Function.update m key
    (some (if method = attrUpdateMethodIncr then (m key).getD 0 + val else val))

def AttrMap.erase (m : AttrMap) (key : UInt64) : AttrMap := Function.update m key none

/-- The table holds the counters of the map, each key once and where it is looked for. -/
structure Represents (table : Table) (m : AttrMap) : Prop where
  placed : Placed probe emptyKey (keyAt table)
  val : ∀ key, key ≠ emptyKey → m key = (find (keyAt table) key (probe key)).map fun p => (table p).val

namespace Represents

variable {m : AttrMap}

theorem zero : Represents zeroTable fun _ => none := by
  have hplaced : Placed probe emptyKey (keyAt zeroTable) := .empty fun _ => rfl
  refine ⟨hplaced, fun key hkey => ?_⟩
  have hnone := (hplaced.find_eq_none_iff hkey).mpr fun _ => hkey.symm
  rw [hnone]
  rfl

theorem eq_some (h : Represents table m) (hkey : key ≠ emptyKey) {p : Nat} (hp : (table p).key = key) :
    m key = some (table p).val := by
  rw [h.val key hkey, (h.placed.find_eq_some_iff hkey).mpr hp]
  rfl

theorem eq_none (h : Represents table m) (hkey : key ≠ emptyKey) :
    m key = none ↔ ∀ p, (table p).key ≠ key := by
  rw [h.val key hkey, Option.map_eq_none_iff]
  exact h.placed.find_eq_none_iff hkey

/-- A table and a map agree when they agree on every node and on the keys that no node holds. -/
theorem of_nodes (hplaced : Placed probe emptyKey (keyAt table))
    (hsome : ∀ p, (table p).key ≠ emptyKey → m (table p).key = some (table p).val)
    (hnone : ∀ key, key ≠ emptyKey → (∀ p, (table p).key ≠ key) → m key = none) :
    Represents table m := by
  refine ⟨hplaced, fun key hkey => ?_⟩
  cases hf : find (keyAt table) key (probe key) with
  | none => exact hnone key hkey ((hplaced.find_eq_none_iff hkey).mp hf)
  | some p =>
      obtain rfl : keyAt table p = key := keyAt_of_find hf
      exact hsome p hkey

theorem getAttr (h : Represents table m) (hkey : key ≠ emptyKey) :
    getAttr table key = (0, (m key).getD 0, (m key).isSome) := by
  unfold Attr.getAttr
  rw [htabLookup_eq, h.val key hkey]
  cases find (keyAt table) key (probe key) <;> rfl

/-! ### Writing a node -/

theorem keyAt_update (table : Table) (p : Nat) (node : AttrNode) :
    keyAt (Function.update table p node) = Function.update (keyAt table) p node.key := by
  funext q
  by_cases hq : q = p
  · subst hq
    simp [keyAt]
  · simp [keyAt, hq]

/-- A node written for a key where it has its place changes the map there and nowhere else. -/
theorem write (h : Represents table m) (hkey : key ≠ emptyKey) {p : Nat} {node : AttrNode}
    (hp : place (keyAt table) emptyKey key (probe key) = some p) (hnode : node.key = key) :
    Represents (Function.update table p node) (Function.update m key (some node.val)) := by
  refine of_nodes ?_ (fun q hq => ?_) (fun k hk hno => ?_)
  · rw [keyAt_update, hnode]
    exact h.placed.write hkey hp
  · by_cases hqp : q = p
    · subst hqp
      rw [Function.update_self, hnode, Function.update_self]
    · have hother : (table q).key ≠ key := by
        rintro rfl
        rw [Function.update_of_ne hqp] at hq
        rcases place_eq_some hp with hf | ⟨hf, -, -⟩
        · exact hqp (h.placed.unique q p hq (keyAt_of_find hf).symm)
        · exact (h.placed.find_eq_none_iff hkey).mp hf q rfl
      rw [Function.update_of_ne hqp] at hq ⊢
      rw [Function.update_of_ne hother]
      exact h.eq_some hq rfl
  · have hne : k ≠ key := by
      rintro rfl
      exact hno p (by rw [Function.update_self]; exact hnode)
    rw [Function.update_of_ne hne, h.eq_none hk]
    intro q hq
    by_cases hqp : q = p
    · subst hqp
      rcases place_eq_some hp with hf | ⟨-, he, -⟩
      · have hkeyp : keyAt table q = key := keyAt_of_find hf
        exact hne (hq.symm.trans hkeyp)
      · exact hk (hq.symm.trans he)
    · exact hno q (by rw [Function.update_of_ne hqp]; exact hq)

theorem clearNode (h : Represents table m) (p : Nat) :
    Represents (clearNode table p) (m.erase (table p).key) := by
  refine of_nodes ?_ (fun q hq => ?_) (fun k hk hno => ?_)
  · exact (keyAt_update table p ⟨0, 0, 0⟩).symm ▸ h.placed.erase p
  · have hqp : q ≠ p := by
      rintro rfl
      exact hq (by simp [Attr.clearNode, emptyKey])
    have hnode : Attr.clearNode table p q = table q := Function.update_of_ne hqp _ _
    rw [hnode] at hq ⊢
    have hne : (table q).key ≠ (table p).key := fun he => hqp (h.placed.unique q p hq he)
    unfold AttrMap.erase
    rw [Function.update_of_ne hne]
    exact h.eq_some hq rfl
  · unfold AttrMap.erase
    by_cases hkp : k = (table p).key
    · subst hkp
      exact Function.update_self _ _ _
    · rw [Function.update_of_ne hkp, h.eq_none hk]
      intro q hq
      have hqp : q ≠ p := by
        rintro rfl
        exact hkp hq.symm
      refine hno q ?_
      have hnode : Attr.clearNode table p q = table q := Function.update_of_ne hqp _ _
      rw [hnode]
      exact hq

end Represents

/-! ## update_attr -/

variable {m : AttrMap} {pid : UInt32} {attr : UInt64} {val : Int64} {method : Int}

/-- The two ways an update can go. -/
theorem updateAttr_cases (table : Table) (pid : UInt32) (attr : UInt64) (val : Int64) (method : Int) :
    (place (keyAt table) emptyKey (makeAttrKey attr pid) (probe (makeAttrKey attr pid)) = none ∧
      updateAttr table pid attr val method = (table, -1, none)) ∨
    ∃ p exist, place (keyAt table) emptyKey (makeAttrKey attr pid) (probe (makeAttrKey attr pid)) = some p ∧
      exist = (find (keyAt table) (makeAttrKey attr pid) (probe (makeAttrKey attr pid))).isSome ∧
      updateAttr table pid attr val method = (Function.update table p
        ((table p).updated exist (makeAttrKey attr pid) attr val method), 0, some exist) := by
  unfold updateAttr
  simp only [htabLookupEx_eq]
  cases hp : place (keyAt table) emptyKey (makeAttrKey attr pid) (probe (makeAttrKey attr pid)) with
  | none => exact .inl ⟨rfl, rfl⟩
  | some p => exact .inr ⟨p, _, rfl, rfl, rfl⟩

theorem AttrNode.updated_val (node : AttrNode) (exist : Bool) (key attr : UInt64) (val : Int64)
    (method : Int) : (node.updated exist key attr val method).val =
      if method = attrUpdateMethodIncr then (if exist then node.val else 0) + val else val := by
  unfold AttrNode.updated
  cases exist <;> dsimp only <;> split <;> rfl

theorem AttrNode.updated_key {node : AttrNode} {exist : Bool} {key : UInt64}
    (h : exist = true → node.key = key) (attr : UInt64) (val : Int64) (method : Int) :
    (node.updated exist key attr val method).key = key := by
  unfold AttrNode.updated
  cases exist with
  | false => dsimp only; split <;> rfl
  | true => dsimp only; split <;> exact h rfl

/-- What an update does, on a table that stands for the map `m`. -/
structure Updated (table : Table) (m : AttrMap) (key : UInt64) (val : Int64) (method : Int)
    (table' : Table) (ret : Int) (exist : Option Bool) : Prop where
  /-- It fails when the key is absent and other keys hold all its nodes. -/
  full : ret = -1 ↔ m key = none ∧ ∀ row ∈ attrNodesHtab.rows,
    (table (row.node key.toUInt32)).key ≠ key ∧ (table (row.node key.toUInt32)).key ≠ 0
  failed : ret = -1 → table' = table
  done : ret ≠ -1 → ret = 0 ∧ exist = some (m key).isSome ∧ Represents table' (m.update key val method)

theorem Represents.updateAttr (h : Represents table m) (hkey : makeAttrKey attr pid ≠ emptyKey) :
    Updated table m (makeAttrKey attr pid) val method (updateAttr table pid attr val method).1
      (updateAttr table pid attr val method).2.1 (updateAttr table pid attr val method).2.2 := by
  have hm := h.val _ hkey
  rcases updateAttr_cases table pid attr val method with ⟨hp, he⟩ | ⟨p, exist, hp, hexist, he⟩
  · rw [he]
    have hno := place_eq_none.mp hp
    have hfind := find_eq_none.mpr fun p hp => (hno p hp).1
    rw [hfind] at hm
    refine ⟨⟨fun _ => ⟨hm, fun row hrow => hno _ (List.mem_map_of_mem hrow)⟩, fun _ => rfl⟩, fun _ => rfl,
      fun hne => absurd rfl hne⟩
  · rw [he]
    have hold : exist = true → keyAt table p = makeAttrKey attr pid := by
      intro hex
      rcases place_eq_some hp with hf | ⟨hf, -, -⟩
      · exact keyAt_of_find hf
      · rw [hexist, hf] at hex
        cases hex
    have hvalue : (if exist then (table p).val else 0) = (m (makeAttrKey attr pid)).getD 0 := by
      rw [hm, hexist]
      rcases place_eq_some hp with hf | ⟨hf, -, -⟩
      · rw [hf]
        rfl
      · rw [hf]
        rfl
    refine ⟨⟨fun hret => ?_, fun ⟨_, hfull⟩ => ?_⟩, fun hret => ?_, fun _ => ⟨rfl, ?_, ?_⟩⟩
    · cases hret
    · have hnone : place (keyAt table) emptyKey (makeAttrKey attr pid) (probe (makeAttrKey attr pid)) = none := by
        refine place_eq_none.mpr fun q hq => ?_
        obtain ⟨row, hrow, rfl⟩ := List.mem_map.mp hq
        exact hfull row hrow
      rw [hnone] at hp
      cases hp
    · cases hret
    · rw [hexist, hm, Option.isSome_map]
    · have hw := h.write hkey hp (AttrNode.updated_key hold attr val method)
      rwa [AttrNode.updated_val, hvalue] at hw

/-! ## Runs -/

/-- What processes do to the table: the calls of attr_api, and clearing a node. -/
inductive Op where
  | update (pid : UInt32) (attr : UInt64) (val : Int64) (method : Int)
  | get (key : UInt64)
  | clear (node : Nat)

/-- The keys that are passed to attr_api are not the empty key. -/
def Op.KeyOk : Op → Prop
  | .update pid attr _ _ => makeAttrKey attr pid ≠ emptyKey
  | .get key => key ≠ emptyKey
  | .clear _ => True

/-- One operation on the table, and on the map it stands for: there an update that succeeds sets the
counter of its key, and clearing a node removes the key that stands in it. -/
def Op.run : Table × AttrMap → Op → Table × AttrMap
  | (table, m), .update pid attr val method =>
      let (table', ret, _) := updateAttr table pid attr val method
      (table', if ret = -1 then m else m.update (makeAttrKey attr pid) val method)
  | (table, m), .get _ => (table, m)
  | (table, m), .clear node => (clearNode table node, m.erase (table node).key)

/-- The table and the map after some operations on zero-filled memory. -/
def runOps (ops : List Op) : Table × AttrMap := ops.foldl Op.run (zeroTable, fun _ => none)

theorem Represents.run (h : Represents table m) {op : Op} (hop : op.KeyOk) :
    Represents (Op.run (table, m) op).1 (Op.run (table, m) op).2 := by
  cases op with
  | update pid attr val method =>
      have hu := @Represents.updateAttr _ _ pid attr val method h hop
      unfold Op.run
      dsimp only
      split
      · rename_i hret
        rw [hu.failed hret]
        exact h
      · rename_i hret
        exact (hu.done hret).2.2
  | get key => exact h
  | clear node => exact h.clearNode node

theorem represents_runOps {ops : List Op} (hops : ∀ op ∈ ops, op.KeyOk) :
    Represents (runOps ops).1 (runOps ops).2 := by
  unfold runOps
  induction ops using List.reverseRecOn with
  | nil => exact .zero
  | append_singleton ops op ih =>
      rw [List.foldl_append]
      have hrec := ih fun op hop => hops op (List.mem_append_left _ hop)
      exact hrec.run (hops op (by simp))

/-- The table answers as the map does, and an update changes one key of it or fails. -/
structure Refines (table : Table) (m : AttrMap) : Prop where
  once : ∀ p q, (table p).key ≠ 0 → (table p).key = (table q).key → p = q
  get : ∀ key, key ≠ 0 → getAttr table key = (0, (m key).getD 0, (m key).isSome)
  update : ∀ pid attr val method, makeAttrKey attr pid ≠ 0 →
    Updated table m (makeAttrKey attr pid) val method (updateAttr table pid attr val method).1
      (updateAttr table pid attr val method).2.1 (updateAttr table pid attr val method).2.2
  others : ∀ pid attr val method key, makeAttrKey attr pid ≠ 0 → key ≠ 0 → key ≠ makeAttrKey attr pid →
    getAttr (updateAttr table pid attr val method).1 key = getAttr table key

theorem Represents.refines (h : Represents table m) : Refines table m := by
  refine ⟨h.placed.unique, fun key hkey => h.getAttr hkey,
    fun pid attr val method hkey => h.updateAttr hkey, fun pid attr val method key hkey hk hne => ?_⟩
  have hu := @Represents.updateAttr _ _ pid attr val method h hkey
  by_cases hret : (Attr.updateAttr table pid attr val method).2.1 = -1
  · rw [hu.failed hret]
  · rw [(hu.done hret).2.2.getAttr hk, h.getAttr hk]
    unfold AttrMap.update
    rw [Function.update_of_ne hne]

/-- After any operations on zero-filled memory the table refines the map. -/
theorem runOps_refines (ops : List Op) (hops : ∀ op ∈ ops, op.KeyOk) :
    Refines (runOps ops).1 (runOps ops).2 := (represents_runOps hops).refines

/-- Two increments and a set, and the node of the first key is cleared. -/
theorem runOps_refines_sample :
    let ops : List Op := [.update 7 10001 100 0, .update 7 10001 100 0, .update 7 10002 5 1, .clear 41874]
    Refines (runOps ops).1 (runOps ops).2 :=
  runOps_refines _ (by
    have h1 : makeAttrKey 10001 7 ≠ emptyKey := by decide
    have h2 : makeAttrKey 10002 7 ≠ emptyKey := by decide
    simp only [List.mem_cons, List.not_mem_nil, or_false, forall_eq_or_imp, forall_eq]
    exact ⟨h1, h1, h2, trivial⟩)

end Taomee.Attr
