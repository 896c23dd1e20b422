import Taomee.Attr.HashTable

/-!
# The four lookups

All of them try the node of a key in each row. Two report where the node is, and two remember the
first empty node on the way.
-/

namespace Taomee.Attr.Bytes

variable {κ : Type}

/-! ## hash_table.c

As in `lookupLoop`, a lookup fails at a division by zero, and where `compare` would read outside of
the table. A node that `compare` has read is not at `NULL`, which is `none`. -/

/-- The loop of `hash_table_lookup_node_posinfo`, from row `i` on: the node, `*row_idx` and
`*col_idx`. -/
def lookupPosinfoLoop (htab : HashTable κ) (tableSize : UInt64) (key : κ) (shortKey : UInt32)
    (rowIdx colIdx : UInt32) : Nat → List Row → Option (Option UInt64 × UInt32 × UInt32)
  | _, [] => some (none, rowIdx, colIdx)
  | i, row :: rows =>
      if row.mod = 0 then none
      else
        let col := shortKey % row.mod
        let node := htab.node row col
        if ¬ htab.Within tableSize node then none
        else if htab.compare key node = 0 then some (some node, UInt32.ofNat i, col)
        else lookupPosinfoLoop htab tableSize key shortKey rowIdx colIdx (i + 1) rows

/-- `hash_table_lookup_node_posinfo`, with what `*row_idx` and `*col_idx` were before. -/
def hashTableLookupNodePosinfo (htab : HashTable κ) (tableSize : UInt64) (key : κ) (shortKey : UInt32)
    (rowIdx colIdx : UInt32) : Option (Option UInt64 × UInt32 × UInt32) :=
  lookupPosinfoLoop htab tableSize key shortKey rowIdx colIdx 0 htab.rows

/-- The loop of `hash_table_lookup_node_ex`: the node and `*exist`, where `exist` may be `NULL`. -/
def lookupExLoop (htab : HashTable κ) (tableSize : UInt64) (emptyKey key : κ) (shortKey : UInt32)
    (exist : Option Int) : List Row → Option UInt64 → Option (Option UInt64 × Option Int)
  | [], emptyNode => some (emptyNode, exist)
  | row :: rows, emptyNode =>
      if row.mod = 0 then none
      else
        let node := htab.node row (shortKey % row.mod)
        if ¬ htab.Within tableSize node then none
        else if htab.compare key node = 0 then some (some node, exist.map fun _ => 1)
        else if emptyNode = none ∧ htab.compare emptyKey node = 0 then
          lookupExLoop htab tableSize emptyKey key shortKey exist rows (some node)
        else lookupExLoop htab tableSize emptyKey key shortKey exist rows emptyNode

/-- `hash_table_lookup_node_ex(hash_table, empty_key, key, short_key, exist)` -/
def hashTableLookupNodeEx (htab : HashTable κ) (tableSize : UInt64) (emptyKey key : κ)
    (shortKey : UInt32) (exist : Option Int) : Option (Option UInt64 × Option Int) :=
  lookupExLoop htab tableSize emptyKey key shortKey exist htab.rows none

/-- The loop of `hash_table_lookup_node_ex_posinfo`, from row `i` on: the node, `*exist`, `*row_idx`
and `*col_idx`. The last two are `erow` and `ecol` when no node has the key. -/
def lookupExPosinfoLoop (htab : HashTable κ) (tableSize : UInt64) (emptyKey key : κ) (shortKey : UInt32)
    (exist : Option Int) : Nat → List Row → Option UInt64 → UInt32 → UInt32 →
      Option (Option UInt64 × Option Int × UInt32 × UInt32)
  | _, [], emptyNode, erow, ecol => some (emptyNode, exist, erow, ecol)
  | i, row :: rows, emptyNode, erow, ecol =>
      if row.mod = 0 then none
      else
        let col := shortKey % row.mod
        let node := htab.node row col
        if ¬ htab.Within tableSize node then none
        else if htab.compare key node = 0 then
          some (some node, exist.map fun _ => 1, UInt32.ofNat i, col)
        else if emptyNode = none ∧ htab.compare emptyKey node = 0 then
          lookupExPosinfoLoop htab tableSize emptyKey key shortKey exist (i + 1) rows (some node)
            (UInt32.ofNat i) col
        else
          lookupExPosinfoLoop htab tableSize emptyKey key shortKey exist (i + 1) rows emptyNode erow ecol

/-- `hash_table_lookup_node_ex_posinfo`. The variables `erow` and `ecol` are not initialised. -/
def hashTableLookupNodeExPosinfo (htab : HashTable κ) (tableSize : UInt64) (emptyKey key : κ)
    (shortKey : UInt32) (exist : Option Int) (erow ecol : UInt32) :
    Option (Option UInt64 × Option Int × UInt32 × UInt32) :=
  lookupExPosinfoLoop htab tableSize emptyKey key shortKey exist 0 htab.rows none erow ecol

/-! ## One result -/

/-- Where a row may hold a key. -/
def HashTable.candidate (htab : HashTable κ) (shortKey : UInt32) (row : Row) : UInt64 :=
  htab.node row (shortKey % row.mod)

/-- The first empty candidate, in the order of the rows. -/
def firstEmpty (htab : HashTable κ) (emptyKey : κ) (shortKey : UInt32) (rows : List Row) :
    Option UInt64 :=
  (rows.map (htab.candidate shortKey)).find? fun node => htab.compare emptyKey node = 0

section

variable {htab : HashTable κ} {tableSize : UInt64} {emptyKey key : κ} {shortKey : UInt32}
  {exist : Option Int} {rowIdx colIdx erow ecol : UInt32}

theorem lookupPosinfoLoop_node (rows : List Row) (i : Nat) :
    (lookupPosinfoLoop htab tableSize key shortKey rowIdx colIdx i rows).map (·.1) =
      lookupLoop htab tableSize key shortKey rows := by
  induction rows generalizing i with
  | nil => rfl
  | cons row rows ih =>
      unfold lookupPosinfoLoop lookupLoop
      simp only
      by_cases hmod : row.mod = 0
      · rw [if_pos hmod, if_pos hmod]
        rfl
      rw [if_neg hmod, if_neg hmod]
      by_cases hin : ¬ htab.Within tableSize (htab.node row (shortKey % row.mod))
      · rw [if_pos hin, if_pos hin]
        rfl
      rw [if_neg hin, if_neg hin]
      by_cases hkey : htab.compare key (htab.node row (shortKey % row.mod)) = 0
      · rw [if_pos hkey, if_pos hkey]
        rfl
      · rw [if_neg hkey, if_neg hkey]
        exact ih (i + 1)

theorem lookupExPosinfoLoop_node (rows : List Row) (i : Nat) (emptyNode : Option UInt64)
    (erow ecol : UInt32) :
    (lookupExPosinfoLoop htab tableSize emptyKey key shortKey exist i rows emptyNode erow ecol).map
        (fun r => (r.1, r.2.1)) =
      lookupExLoop htab tableSize emptyKey key shortKey exist rows emptyNode := by
  induction rows generalizing i emptyNode erow ecol with
  | nil => rfl
  | cons row rows ih =>
      unfold lookupExPosinfoLoop lookupExLoop
      simp only
      by_cases hmod : row.mod = 0
      · rw [if_pos hmod, if_pos hmod]
        rfl
      rw [if_neg hmod, if_neg hmod]
      by_cases hin : ¬ htab.Within tableSize (htab.node row (shortKey % row.mod))
      · rw [if_pos hin, if_pos hin]
        rfl
      rw [if_neg hin, if_neg hin]
      by_cases hkey : htab.compare key (htab.node row (shortKey % row.mod)) = 0
      · rw [if_pos hkey, if_pos hkey]
        rfl
      rw [if_neg hkey, if_neg hkey]
      by_cases hempty : emptyNode = none ∧
          htab.compare emptyKey (htab.node row (shortKey % row.mod)) = 0
      · rw [if_pos hempty, if_pos hempty]
        exact ih (i + 1) _ _ _
      · rw [if_neg hempty, if_neg hempty]
        exact ih (i + 1) _ _ _

/-- The loop of `hash_table_lookup_node_ex` from that of `hash_table_lookup_node`. -/
theorem lookupExLoop_eq (rows : List Row) (emptyNode : Option UInt64) :
    lookupExLoop htab tableSize emptyKey key shortKey exist rows emptyNode =
      (lookupLoop htab tableSize key shortKey rows).map fun found =>
        (found.or (emptyNode.or (firstEmpty htab emptyKey shortKey rows)),
          if found.isSome then exist.map fun _ => 1 else exist) := by
  induction rows generalizing emptyNode with
  | nil =>
      unfold lookupExLoop lookupLoop firstEmpty
      simp
  | cons row rows ih =>
      unfold lookupExLoop lookupLoop
      simp only
      by_cases hmod : row.mod = 0
      · rw [if_pos hmod, if_pos hmod]
        rfl
      rw [if_neg hmod, if_neg hmod]
      by_cases hin : ¬ htab.Within tableSize (htab.node row (shortKey % row.mod))
      · rw [if_pos hin, if_pos hin]
        rfl
      rw [if_neg hin, if_neg hin]
      by_cases hkey : htab.compare key (htab.node row (shortKey % row.mod)) = 0
      · rw [if_pos hkey, if_pos hkey]
        rfl
      rw [if_neg hkey, if_neg hkey, ih, ih]
      have hfirst : firstEmpty htab emptyKey shortKey (row :: rows) =
          if htab.compare emptyKey (htab.node row (shortKey % row.mod)) = 0 then
            some (htab.node row (shortKey % row.mod))
          else firstEmpty htab emptyKey shortKey rows := by
        unfold firstEmpty HashTable.candidate
        rw [List.map_cons, List.find?_cons]
        by_cases he : htab.compare emptyKey (htab.node row (shortKey % row.mod)) = 0 <;> simp [he]
      rw [hfirst]
      cases emptyNode with
      | some n => simp
      | none =>
          by_cases he : htab.compare emptyKey (htab.node row (shortKey % row.mod)) = 0 <;> simp [he]

/-! ## Positions -/

/-- Every row has a column for each remainder, and there are few rows. -/
structure Columns (htab : HashTable κ) : Prop where
  few : htab.rows.length ≤ hashMaxRow
  mod_le : ∀ row ∈ htab.rows, row.mod ≤ row.nodesNum

theorem Columns.built {compare : κ → UInt64 → Int} {table nodeSize : UInt64} {count : UInt32}
    {rows : List Attr.Row} {total : Nat} (htiles : Tiles 0 rows total) (hlen : rows.length ≤ hashMaxRow)
    (h32 : ∀ row ∈ rows, row.nodesNum < 2 ^ 32) : Columns (built compare table nodeSize count rows) := by
  refine ⟨?_, ?_⟩
  · unfold Bytes.built
    rw [List.length_map]
    exact hlen
  · intro row' hrow'
    obtain ⟨row, hrow, rfl⟩ := List.mem_map.mp hrow'
    obtain ⟨-, hle, -⟩ := htiles.row hrow
    have hnum := h32 row hrow
    unfold ofNodes
    rw [UInt32.le_iff_toNat_le, UInt32.toNat_ofNat_of_lt' hnum,
      UInt32.toNat_ofNat_of_lt' (Nat.lt_of_le_of_lt hle hnum)]
    exact hle

/-- A candidate is the node at the index of its row and the remainder of the short key. -/
theorem Columns.getNode (h : Columns htab) {i : Nat} {row : Row} (hr : htab.rows[i]? = some row)
    (hmod : row.mod ≠ 0) : hashTableGetNode htab (UInt32.ofNat i) (shortKey % row.mod) =
      some (htab.node row (shortKey % row.mod)) := by
  have hi : (UInt32.ofNat i).toNat = i := by
    obtain ⟨hlt, -⟩ := List.getElem?_eq_some_iff.mp hr
    exact UInt32.toNat_ofNat_of_lt' (Nat.lt_of_lt_of_le hlt (Nat.le_trans h.few (by decide)))
  have hcol : ¬ shortKey % row.mod ≥ row.nodesNum := by
    have hle := UInt32.le_iff_toNat_le.mp (h.mod_le row (List.mem_of_getElem? hr))
    have hpos : 0 < row.mod.toNat := Nat.pos_of_ne_zero fun h0 => hmod (UInt32.toNat_inj.mp h0)
    rw [ge_iff_le, UInt32.le_iff_toNat_le, UInt32.toNat_mod, Nat.not_le]
    exact Nat.lt_of_lt_of_le (Nat.mod_lt _ hpos) hle
  unfold hashTableGetNode
  rw [hi, hr]
  exact if_neg hcol

theorem drop_cons {rows : List Row} {row : Row} {i : Nat} (h : htab.rows.drop i = row :: rows) :
    htab.rows[i]? = some row ∧ htab.rows.drop (i + 1) = rows := by
  refine ⟨?_, ?_⟩
  · rw [← Nat.add_zero i, ← List.getElem?_drop, h, List.getElem?_cons_zero]
  · rw [← List.tail_drop, h, List.tail_cons]

theorem lookupPosinfoLoop_pos (hcols : Columns htab) {rows : List Row} {i : Nat}
    (hdrop : htab.rows.drop i = rows) {node : UInt64} {r c : UInt32}
    (h : lookupPosinfoLoop htab tableSize key shortKey rowIdx colIdx i rows = some (some node, r, c)) :
    hashTableGetNode htab r c = some node := by
  induction rows generalizing i with
  | nil => cases h
  | cons row rows ih =>
      obtain ⟨hr, hrest⟩ := drop_cons hdrop
      unfold lookupPosinfoLoop at h
      simp only at h
      by_cases hmod : row.mod = 0
      · rw [if_pos hmod] at h
        cases h
      rw [if_neg hmod] at h
      by_cases hin : ¬ htab.Within tableSize (htab.node row (shortKey % row.mod))
      · rw [if_pos hin] at h
        cases h
      rw [if_neg hin] at h
      by_cases hkey : htab.compare key (htab.node row (shortKey % row.mod)) = 0
      · rw [if_pos hkey] at h
        cases h
        exact hcols.getNode hr hmod
      · rw [if_neg hkey] at h
        exact ih hrest h

theorem lookupExPosinfoLoop_pos (hcols : Columns htab) {rows : List Row} {i : Nat}
    (hdrop : htab.rows.drop i = rows) {emptyNode : Option UInt64} {erow ecol : UInt32}
    (hempty : ∀ node, emptyNode = some node → hashTableGetNode htab erow ecol = some node)
    {node : UInt64} {exist' : Option Int} {r c : UInt32}
    (h : lookupExPosinfoLoop htab tableSize emptyKey key shortKey exist i rows emptyNode erow ecol =
      some (some node, exist', r, c)) : hashTableGetNode htab r c = some node := by
  induction rows generalizing i emptyNode erow ecol with
  | nil =>
      cases h
      exact hempty node rfl
  | cons row rows ih =>
      obtain ⟨hr, hrest⟩ := drop_cons hdrop
      unfold lookupExPosinfoLoop at h
      simp only at h
      by_cases hmod : row.mod = 0
      · rw [if_pos hmod] at h
        cases h
      rw [if_neg hmod] at h
      by_cases hin : ¬ htab.Within tableSize (htab.node row (shortKey % row.mod))
      · rw [if_pos hin] at h
        cases h
      rw [if_neg hin] at h
      have hnode : hashTableGetNode htab (UInt32.ofNat i) (shortKey % row.mod) = some _ :=
        hcols.getNode hr hmod
      by_cases hkey : htab.compare key (htab.node row (shortKey % row.mod)) = 0
      · rw [if_pos hkey] at h
        cases h
        exact hnode
      rw [if_neg hkey] at h
      by_cases he : emptyNode = none ∧ htab.compare emptyKey (htab.node row (shortKey % row.mod)) = 0
      · rw [if_pos he] at h
        refine ih hrest (fun node hsome => ?_) h
        rw [← Option.some.inj hsome]
        exact hnode
      · rw [if_neg he] at h
        exact ih hrest hempty h

end

/-- The four lookups agree on what they return, and the reported positions are those of the nodes. -/
structure LookupsAgree (htab : HashTable κ) (tableSize : UInt64) (emptyKey key : κ) (shortKey : UInt32)
    (exist : Option Int) (rowIdx colIdx erow ecol : UInt32) : Prop where
  posinfo : (hashTableLookupNodePosinfo htab tableSize key shortKey rowIdx colIdx).map (·.1) =
    hashTableLookupNode htab tableSize key shortKey
  exPosinfo : (hashTableLookupNodeExPosinfo htab tableSize emptyKey key shortKey exist erow ecol).map
      (fun r => (r.1, r.2.1)) = hashTableLookupNodeEx htab tableSize emptyKey key shortKey exist
  found : ∀ node, hashTableLookupNode htab tableSize key shortKey = some (some node) →
    hashTableLookupNodeEx htab tableSize emptyKey key shortKey exist = some (some node, exist.map fun _ => 1)
  absent : hashTableLookupNode htab tableSize key shortKey = some none →
    hashTableLookupNodeEx htab tableSize emptyKey key shortKey exist =
      some (firstEmpty htab emptyKey shortKey htab.rows, exist)
  fails : hashTableLookupNode htab tableSize key shortKey = none ↔
    hashTableLookupNodeEx htab tableSize emptyKey key shortKey exist = none
  pos : ∀ node r c, hashTableLookupNodePosinfo htab tableSize key shortKey rowIdx colIdx =
    some (some node, r, c) → hashTableGetNode htab r c = some node
  exPos : ∀ node exist' r c, hashTableLookupNodeExPosinfo htab tableSize emptyKey key shortKey exist
    erow ecol = some (some node, exist', r, c) → hashTableGetNode htab r c = some node

/-- The lookups agree in every table on which `hash_table_init` returned 0. -/
theorem hashTableLookup_agree (table tableSize nodeSize : UInt64) (rowNum : UInt32)
    (nodesNum mods : Nat → UInt32) (compare : Option (κ → UInt64 → Int)) (htab : HashTable κ)
    (h : hashTableInit table tableSize nodeSize rowNum nodesNum mods compare = some htab)
    (emptyKey key : κ) (shortKey : UInt32) (exist : Option Int) (rowIdx colIdx erow ecol : UInt32) :
    LookupsAgree htab tableSize emptyKey key shortKey exist rowIdx colIdx erow ecol := by
  have hcols : Columns htab := by
    obtain ⟨-, -, hmax, cmp, rows, hrows, rfl⟩ := hashTableInit_eq_some h
    obtain ⟨htiles, hlen, h32⟩ := initRows_layout hmax hrows
    exact .built htiles hlen h32
  have hex : hashTableLookupNodeEx htab tableSize emptyKey key shortKey exist =
      (hashTableLookupNode htab tableSize key shortKey).map fun found =>
        (found.or (firstEmpty htab emptyKey shortKey htab.rows),
          if found.isSome then exist.map fun _ => 1 else exist) := lookupExLoop_eq htab.rows none
  refine ⟨lookupPosinfoLoop_node htab.rows 0, lookupExPosinfoLoop_node htab.rows 0 none erow ecol,
    fun node hfound => ?_, fun habsent => ?_, ?_, fun node r c hpos => ?_,
    fun node exist' r c hpos => ?_⟩
  · rw [hex, hfound]
    rfl
  · rw [hex, habsent]
    rfl
  · rw [hex, Option.map_eq_none_iff]
  · exact lookupPosinfoLoop_pos hcols rfl hpos
  · refine lookupExPosinfoLoop_pos hcols rfl (fun node hnone => ?_) hpos
    cases hnone

/-- The key 7 stands in the second row, behind an empty node in the first. -/
theorem hashTableLookup_agree_sample :
    let compare := fun key node => if (node = 0x1030 ∧ key = 0) ∨ (node = 0x1060 ∧ key = 7) then 0 else 1
    LookupsAgree (built compare 0x1000 24 5 [⟨3, 3, 0⟩, ⟨2, 2, 3⟩] : HashTable UInt64) 120 0 7 5 (some 0)
      0 0 8 9 :=
  hashTableLookup_agree 0x1000 120 24 2 (fun i => if i = 0 then 3 else 2) (fun i => if i = 0 then 3 else 2)
    (some _) _ rfl 0 7 5 (some 0) 0 0 8 9

end Taomee.Attr.Bytes
