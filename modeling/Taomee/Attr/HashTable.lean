import Taomee.Attr.Refine
import Mathlib.Algebra.BigOperators.Group.Finset.Sigma
import Mathlib.Algebra.Order.BigOperators.Group.Finset
import Mathlib.Order.Interval.Finset.Nat

/-!
# The hash table in its memory (attr_api/hash_table.c)

The table in bytes, with the integers of C: `calc_hash_table_size` and `hash_table_init` add up the
nodes in 32 bits, sizes and addresses have 64. The check of `table_size` compares two sums that wrap
alike, so it refuses nothing that `calc_hash_table_size` has computed.
-/

namespace Taomee.Attr.Bytes

/-! ## hash_table.c -/

/-- An element of each of the arrays `nodes_num`, `mods`, `row_nodes_size` and `row_starts`. -/
structure Row where
  nodesNum : UInt32
  mod : UInt32
  nodesSize : UInt64
  start : UInt64

/-- `struct hash_table_t`, with keys in `κ`. The rows are `row_num` many. -/
structure HashTable (κ : Type) where
  compare : κ → UInt64 → Int
  table : UInt64
  nodeSize : UInt64
  totalNodeNum : UInt32
  rows : List Row

variable {κ : Type}

/-- `calc_hash_table_size(node_size, row_num, nodes_num)` -/
def calcHashTableSize (nodeSize : UInt64) (rowNum : UInt32) (nodesNum : Nat → UInt32) : UInt64 :=
  if rowNum.toNat > hashMaxRow then 0
  else
    let totNodeCount := (List.range rowNum.toNat).foldl (fun tot i => tot + nodesNum i) 0
    nodeSize * totNodeCount.toUInt64

/-- The loop of `hash_table_init`, for `left` rows from row `i` on, which starts at `row`. -/
def initLoop (nodeSize : UInt64) (nodesNum mods : Nat → UInt32) :
    Nat → Nat → UInt64 → UInt32 → Option (List Row × UInt32)
  | 0, _, _, count => some ([], count)
  | left + 1, i, row, count =>
      if mods i > nodesNum i then none
      else if nodesNum i = 0 then none
      else if mods i = 0 then none
      else
        let size := nodeSize * (nodesNum i).toUInt64
        (initLoop nodeSize nodesNum mods left (i + 1) (row + size) (count + nodesNum i)).map
          fun r => (⟨nodesNum i, mods i, size, row⟩ :: r.1, r.2)

/-- `hash_table_init`: the table, if it returns 0. The addresses `compare` and `table` may be null. -/
def hashTableInit (table tableSize nodeSize : UInt64) (rowNum : UInt32) (nodesNum mods : Nat → UInt32)
    (compare : Option (κ → UInt64 → Int)) : Option (HashTable κ) :=
  match compare with
  | none => none
  | some compare =>
      if table = 0 then none
      else if nodeSize = 0 then none
      else if rowNum = 0 then none
      else if rowNum.toNat > hashMaxRow then none
      else
        match initLoop nodeSize nodesNum mods rowNum.toNat 0 table 0 with
        | none => none
        | some (rows, count) =>
            if tableSize ≠ nodeSize * count.toUInt64 then none
            else some ⟨compare, table, nodeSize, count, rows⟩

/-- The address of a node of a row. -/
def HashTable.node (htab : HashTable κ) (row : Row) (col : UInt32) : UInt64 :=
  row.start + htab.nodeSize * col.toUInt64

/-- How far from the table an address is. -/
def HashTable.offset (htab : HashTable κ) (node : UInt64) : Nat := (node - htab.table).toNat

/-- The bytes of the node at an address are among the `table_size` bytes of the table. -/
def HashTable.Within (htab : HashTable κ) (tableSize node : UInt64) : Prop :=
  htab.offset node + htab.nodeSize.toNat ≤ tableSize.toNat

instance (htab : HashTable κ) (tableSize node : UInt64) : Decidable (htab.Within tableSize node) :=
  inferInstanceAs (Decidable (_ ≤ _))

/-- The loop of `hash_table_lookup_node`. It fails at a division by zero, and where `compare` reads a
node outside of the `table_size` bytes. -/
def lookupLoop (htab : HashTable κ) (tableSize : UInt64) (key : κ) (shortKey : UInt32) :
    List Row → Option (Option UInt64)
  | [] => some none
  | row :: rows =>
      if row.mod = 0 then none
      else
        let node := htab.node row (shortKey % row.mod)
        if ¬ htab.Within tableSize node then none
        else if htab.compare key node = 0 then some (some node)
        else lookupLoop htab tableSize key shortKey rows

/-- `hash_table_lookup_node(hash_table, key, short_key)` -/
def hashTableLookupNode (htab : HashTable κ) (tableSize : UInt64) (key : κ) (shortKey : UInt32) :
    Option (Option UInt64) :=
  lookupLoop htab tableSize key shortKey htab.rows

/-- `hash_table_get_node(hash_table, row_idx, col_idx)` -/
def hashTableGetNode (htab : HashTable κ) (rowIdx colIdx : UInt32) : Option UInt64 :=
  match htab.rows[rowIdx.toNat]? with
  | none => none
  | some row => if colIdx ≥ row.nodesNum then none else some (htab.node row colIdx)

/-! ## In bytes and in nodes -/

/-- The address of the node number `n`. -/
def nodeAddr (table nodeSize : UInt64) (n : Nat) : UInt64 := table + nodeSize * UInt64.ofNat n

theorem nodeAddr_zero (table nodeSize : UInt64) : nodeAddr table nodeSize 0 = table := by
  change table + nodeSize * 0 = table
  rw [UInt64.mul_zero, UInt64.add_zero]

theorem nodeAddr_add (table nodeSize : UInt64) (n : Nat) (k : UInt32) :
    nodeAddr table nodeSize n + nodeSize * k.toUInt64 = nodeAddr table nodeSize (n + k.toNat) := by
  unfold nodeAddr
  rw [UInt64.ofNat_add, UInt64.ofNat_uInt32ToNat, UInt64.mul_add, UInt64.add_assoc]

/-- The elements of an array from `i` on. -/
def elems (a : Nat → UInt32) (i left : Nat) : List Nat :=
  (List.range' i left).map fun j => (a j).toNat

theorem elems_succ (a : Nat → UInt32) (i left : Nat) :
    elems a i (left + 1) = (a i).toNat :: elems a (i + 1) left := by
  unfold elems
  rw [List.range'_succ, List.map_cons]

/-- A row in bytes, from the row counted in nodes. -/
def ofNodes (table nodeSize : UInt64) (row : Attr.Row) : Row :=
  ⟨UInt32.ofNat row.nodesNum, UInt32.ofNat row.mod, nodeSize * UInt64.ofNat row.nodesNum,
    nodeAddr table nodeSize row.start⟩

/-- The tests of a row, on the numbers. -/
theorem row_tests (nodes mod : UInt32) : (mod.toNat > nodes.toNat ↔ mod > nodes) ∧
    (nodes.toNat = 0 ↔ nodes = 0) ∧ (mod.toNat = 0 ↔ mod = 0) :=
  ⟨UInt32.lt_iff_toNat_lt.symm, @UInt32.toNat_inj nodes 0, @UInt32.toNat_inj mod 0⟩

/-- The loop in bytes computes the rows that the loop in nodes does, at addresses that wrap. -/
theorem initLoop_eq (table nodeSize : UInt64) (nodesNum mods : Nat → UInt32) (left i start : Nat)
    (count : UInt32) :
    initLoop nodeSize nodesNum mods left i (nodeAddr table nodeSize start) count =
      (initRows start (elems nodesNum i left) (elems mods i left)).map fun rows =>
        (rows.map (ofNodes table nodeSize), count + UInt32.ofNat (elems nodesNum i left).sum) := by
  induction left generalizing i start count with
  | zero =>
      change some ([], count) = some ([], count + 0)
      rw [UInt32.add_zero]
  | succ left ih =>
      rw [elems_succ, elems_succ, initLoop, initRows]
      obtain ⟨hgt, hn, hm⟩ := row_tests (nodesNum i) (mods i)
      by_cases h1 : mods i > nodesNum i
      · rw [if_pos h1, if_pos (hgt.mpr h1)]
        rfl
      rw [if_neg h1, if_neg (mt hgt.mp h1)]
      by_cases h2 : nodesNum i = 0
      · rw [if_pos h2, if_pos (.inl (hn.mpr h2))]
        rfl
      rw [if_neg h2]
      by_cases h3 : mods i = 0
      · rw [if_pos h3, if_pos (.inr (hm.mpr h3))]
        rfl
      rw [if_neg h3, if_neg (not_or.mpr ⟨mt hn.mp h2, mt hm.mp h3⟩)]
      simp only [nodeAddr_add, ih, Option.map_map]
      congr 1
      funext rows
      simp only [Function.comp, List.map_cons, List.sum_cons, ofNodes, UInt32.ofNat_toNat,
        UInt64.ofNat_uInt32ToNat, UInt32.ofNat_add, UInt32.add_assoc]

/-! ## The numbers of the nodes -/

/-- The rows are laid out one after the other, from node `start` to node `stop`. -/
inductive Tiles : Nat → List Attr.Row → Nat → Prop
  | nil (start : Nat) : Tiles start [] start
  | cons {row : Attr.Row} {rows : List Attr.Row} {stop : Nat} (hpos : 0 < row.mod)
      (hle : row.mod ≤ row.nodesNum) (hrows : Tiles (row.start + row.nodesNum) rows stop) :
      Tiles row.start (row :: rows) stop

theorem initRows_tiles : ∀ {nodesNum mods : List Nat} {start : Nat} {rows : List Attr.Row},
    initRows start nodesNum mods = some rows → Tiles start rows (start + nodesNum.sum)
  | n :: nodesNum, m :: mods, start, rows, h => by
      unfold initRows at h
      split at h
      · cases h
      split at h
      · cases h
      rename_i hgt hzero
      obtain ⟨rest, hrest, rfl⟩ := Option.map_eq_some_iff.mp h
      have htiles := initRows_tiles hrest
      rw [Nat.add_assoc, ← List.sum_cons] at htiles
      exact @Tiles.cons ⟨n, m, start⟩ rest _ (by dsimp only; omega) (by dsimp only; omega) htiles
  | [], [], start, rows, h => by
      obtain rfl : [] = rows := Option.some.inj h
      exact .nil start
  | [], _ :: _, _, _, h => by cases h
  | _ :: _, [], _, _, h => by cases h

theorem initRows_nodesNum : ∀ {nodesNum mods : List Nat} {start : Nat} {rows : List Attr.Row},
    initRows start nodesNum mods = some rows → rows.map Attr.Row.nodesNum = nodesNum
  | n :: nodesNum, m :: mods, start, rows, h => by
      unfold initRows at h
      split at h
      · cases h
      split at h
      · cases h
      obtain ⟨rest, hrest, rfl⟩ := Option.map_eq_some_iff.mp h
      rw [List.map_cons, initRows_nodesNum hrest]
  | [], [], _, rows, h => by
      obtain rfl : [] = rows := Option.some.inj h
      rfl
  | [], _ :: _, _, _, h => by cases h
  | _ :: _, [], _, _, h => by cases h

/-- The rows are refused for one of them. -/
theorem initRows_eq_none_iff (nodesNum mods : Nat → UInt32) (left i start : Nat) :
    initRows start (elems nodesNum i left) (elems mods i left) = none ↔
      ∃ j, i ≤ j ∧ j < i + left ∧ (mods j > nodesNum j ∨ nodesNum j = 0 ∨ mods j = 0) := by
  induction left generalizing i start with
  | zero =>
      refine iff_of_false (fun h => nomatch h) ?_
      rintro ⟨j, h1, h2, -⟩
      omega
  | succ left ih =>
      have hsplit : (∃ j, i ≤ j ∧ j < i + (left + 1) ∧
            (mods j > nodesNum j ∨ nodesNum j = 0 ∨ mods j = 0)) ↔
          (mods i > nodesNum i ∨ nodesNum i = 0 ∨ mods i = 0) ∨
            ∃ j, i + 1 ≤ j ∧ j < i + 1 + left ∧
              (mods j > nodesNum j ∨ nodesNum j = 0 ∨ mods j = 0) := by
        constructor
        · rintro ⟨j, h1, h2, hbad⟩
          rcases Nat.eq_or_lt_of_le h1 with rfl | hlt
          · exact .inl hbad
          · exact .inr ⟨j, hlt, by omega, hbad⟩
        · rintro (hbad | ⟨j, h1, h2, hbad⟩)
          · exact ⟨i, Nat.le_refl i, by omega, hbad⟩
          · exact ⟨j, by omega, by omega, hbad⟩
      obtain ⟨hgt, hn, hm⟩ := row_tests (nodesNum i) (mods i)
      rw [hsplit, ← ih (i + 1) (start + (nodesNum i).toNat), elems_succ, elems_succ, initRows,
        ← hgt, ← hn, ← hm]
      by_cases h1 : (mods i).toNat > (nodesNum i).toNat
      · rw [if_pos h1]
        exact iff_of_true rfl (.inl (.inl h1))
      by_cases h2 : (nodesNum i).toNat = 0 ∨ (mods i).toNat = 0
      · rw [if_neg h1, if_pos h2]
        exact iff_of_true rfl (.inl (.inr h2))
      rw [if_neg h1, if_neg h2, Option.map_eq_none_iff, or_iff_right (not_or.mpr ⟨h1, h2⟩)]

section Tiles

variable {start stop : Nat} {rows : List Attr.Row}

theorem Tiles.le (h : Tiles start rows stop) : start ≤ stop := by
  induction h with
  | nil start => exact Nat.le_refl _
  | cons _ _ _ ih => exact Nat.le_trans (Nat.le_add_right _ _) ih

theorem Tiles.row (h : Tiles start rows stop) {row : Attr.Row} (hrow : row ∈ rows) :
    0 < row.mod ∧ row.mod ≤ row.nodesNum ∧ start ≤ row.start ∧ row.start + row.nodesNum ≤ stop := by
  induction h with
  | nil start => cases hrow
  | @cons first rows stop hpos hle hrows ih =>
      rcases List.mem_cons.mp hrow with rfl | hrow
      · exact ⟨hpos, hle, Nat.le_refl _, hrows.le⟩
      · obtain ⟨h1, h2, h3, h4⟩ := ih hrow
        exact ⟨h1, h2, Nat.le_trans (Nat.le_add_right _ _) h3, h4⟩

/-- Later rows start after the nodes of a row. -/
theorem Tiles.later (h : Tiles start rows stop) {r r' : Nat} {row row' : Attr.Row}
    (hr : rows[r]? = some row) (hr' : rows[r']? = some row') (hlt : r < r') :
    row.start + row.nodesNum ≤ row'.start := by
  induction h generalizing r r' with
  | nil start => cases hr
  | @cons first rows stop hpos hle hrows ih =>
      obtain ⟨r', rfl⟩ : ∃ k, r' = k + 1 := ⟨r' - 1, by omega⟩
      rw [List.getElem?_cons_succ] at hr'
      cases r with
      | zero =>
          obtain rfl := Option.some.inj hr
          exact (hrows.row (List.mem_of_getElem? hr')).2.2.1
      | succ r =>
          rw [List.getElem?_cons_succ] at hr
          exact ih hr hr' (Nat.lt_of_succ_lt_succ hlt)

/-- Every number from `start` to `stop` is that of a node. -/
theorem Tiles.exists_node (h : Tiles start rows stop) {n : Nat} (hn : start ≤ n) (hn' : n < stop) :
    ∃ (r : Nat) (row : Attr.Row) (col : Nat), rows[r]? = some row ∧ col < row.nodesNum ∧ n = row.start + col := by
  induction h with
  | nil start => omega
  | @cons first rows stop hpos hle hrows ih =>
      by_cases hlt : n < first.start + first.nodesNum
      · exact ⟨0, first, n - first.start, rfl, by omega, by omega⟩
      · obtain ⟨r, row, col, hr, hcol, rfl⟩ := ih (by omega) hn'
        exact ⟨r + 1, row, col, hr, hcol, rfl⟩

/-- A number is that of one node only. -/
theorem Tiles.node_inj (h : Tiles start rows stop) {r r' col col' : Nat} {row row' : Attr.Row}
    (hr : rows[r]? = some row) (hr' : rows[r']? = some row') (hcol : col < row.nodesNum)
    (hcol' : col' < row'.nodesNum) (heq : row.start + col = row'.start + col') :
    r = r' ∧ col = col' := by
  rcases Nat.lt_trichotomy r r' with hlt | rfl | hlt
  · have hle := h.later hr hr' hlt
    omega
  · obtain rfl := Option.some.inj (hr.symm.trans hr')
    exact ⟨rfl, by omega⟩
  · have hle := h.later hr' hr hlt
    omega

end Tiles

/-! ## Ranges that do not overlap -/

/-- Ranges of `w` bytes that do not overlap take up at most the size of what they lie in. -/
theorem card_mul_le_of_disjoint {ι : Type*} [DecidableEq ι] (s : Finset ι) {off : ι → Nat} {w size : Nat}
    (hin : ∀ n ∈ s, off n + w ≤ size)
    (hdisj : ∀ n ∈ s, ∀ n' ∈ s, n ≠ n' → off n + w ≤ off n' ∨ off n' + w ≤ off n) :
    s.card * w ≤ size := by
  have hpair : Set.PairwiseDisjoint (↑s : Set ι) fun n => Finset.Ico (off n) (off n + w) := by
    intro n hn n' hn' hne
    refine Finset.disjoint_left.mpr fun b hb hb' => ?_
    rw [Finset.mem_Ico] at hb hb'
    rcases hdisj n hn n' hn' hne with hle | hle <;> omega
  have hsub : s.biUnion (fun n => Finset.Ico (off n) (off n + w)) ⊆ Finset.range size := by
    intro b hb
    obtain ⟨n, hn, hb⟩ := Finset.mem_biUnion.mp hb
    rw [Finset.mem_Ico] at hb
    exact Finset.mem_range.mpr (Nat.lt_of_lt_of_le hb.2 (hin n hn))
  calc s.card * w = ∑ n ∈ s, (Finset.Ico (off n) (off n + w)).card := by simp
    _ = (s.biUnion fun n => Finset.Ico (off n) (off n + w)).card := (Finset.card_biUnion hpair).symm
    _ ≤ (Finset.range size).card := Finset.card_le_card hsub
    _ = size := Finset.card_range size

/-! ## The table in its memory -/

/-- The nodes of the table lie inside its `table_size` bytes, no two of them overlap, and no lookup
divides by zero or reads a node outside. -/
structure InMemory (htab : HashTable κ) (tableSize : UInt64) : Prop where
  within : ∀ r c node, hashTableGetNode htab r c = some node → htab.Within tableSize node
  disjoint : ∀ r c node r' c' node', hashTableGetNode htab r c = some node →
    hashTableGetNode htab r' c' = some node' → (r, c) ≠ (r', c') →
      htab.offset node + htab.nodeSize.toNat ≤ htab.offset node' ∨
        htab.offset node' + htab.nodeSize.toNat ≤ htab.offset node
  lookup : ∀ key shortKey, hashTableLookupNode htab tableSize key shortKey ≠ none

section

variable {compare : κ → UInt64 → Int} {table nodeSize tableSize : UInt64} {count : UInt32}
  {rows : List Attr.Row} {total : Nat}

/-- The table that `hash_table_init` builds from rows in nodes. -/
def built (compare : κ → UInt64 → Int) (table nodeSize : UInt64) (count : UInt32)
    (rows : List Attr.Row) : HashTable κ :=
  ⟨compare, table, nodeSize, count, rows.map (ofNodes table nodeSize)⟩

theorem built_offset (n : Nat) :
    (built compare table nodeSize count rows).offset (nodeAddr table nodeSize n) =
      nodeSize.toNat * n % 2 ^ 64 := by
  unfold HashTable.offset built nodeAddr
  dsimp only
  have hsub : table + nodeSize * UInt64.ofNat n - table = nodeSize * UInt64.ofNat n := by
    rw [UInt64.add_comm, UInt64.add_sub_cancel]
  rw [hsub, UInt64.toNat_mul, UInt64.toNat_ofNat', Nat.mul_mod_mod]

theorem built_offset_of_lt (hsize : nodeSize.toNat * total ≤ tableSize.toNat) {n : Nat} (hn : n < total) :
    (built compare table nodeSize count rows).offset (nodeAddr table nodeSize n) =
      nodeSize.toNat * n := by
  rw [built_offset]
  refine Nat.mod_eq_of_lt (Nat.lt_of_le_of_lt (Nat.mul_le_mul_left _ (Nat.le_of_lt hn)) ?_)
  exact Nat.lt_of_le_of_lt hsize tableSize.toNat_lt

theorem built_within (hsize : nodeSize.toNat * total ≤ tableSize.toNat) {n : Nat} (hn : n < total) :
    (built compare table nodeSize count rows).Within tableSize (nodeAddr table nodeSize n) := by
  unfold HashTable.Within
  rw [built_offset_of_lt hsize hn]
  change nodeSize.toNat * n + nodeSize.toNat ≤ _
  rw [← Nat.mul_succ]
  exact Nat.le_trans (Nat.mul_le_mul_left _ hn) hsize

/-- A lookup stays inside a table that is as large as its rows. -/
theorem lookupLoop_ne_none (hsize : nodeSize.toNat * total ≤ tableSize.toNat) (key : κ)
    (shortKey : UInt32) : ∀ {rest : List Attr.Row},
      (∀ row ∈ rest, row.nodesNum < 2 ^ 32 ∧ 0 < row.mod ∧ row.mod ≤ row.nodesNum ∧
        row.start + row.nodesNum ≤ total) →
      lookupLoop (built compare table nodeSize count rows) tableSize key shortKey
        (rest.map (ofNodes table nodeSize)) ≠ none
  | [], _ => Option.some_ne_none _
  | row :: rest, hrest => by
      obtain ⟨hnum, hpos, hle, hend⟩ := hrest row List.mem_cons_self
      have hmod : (ofNodes table nodeSize row).mod.toNat = row.mod :=
        UInt32.toNat_ofNat_of_lt' (Nat.lt_of_le_of_lt hle hnum)
      have hne : (ofNodes table nodeSize row).mod ≠ 0 := by
        intro h0
        rw [h0] at hmod
        exact absurd hmod.symm (Nat.ne_of_gt hpos)
      have hcol : (shortKey % (ofNodes table nodeSize row).mod).toNat < row.mod := by
        rw [UInt32.toNat_mod, hmod]
        exact Nat.mod_lt _ hpos
      have hnode : (built compare table nodeSize count rows).node (ofNodes table nodeSize row)
          (shortKey % (ofNodes table nodeSize row).mod) =
            nodeAddr table nodeSize
              (row.start + (shortKey % (ofNodes table nodeSize row).mod).toNat) := nodeAddr_add _ _ _ _
      have hwithin : (built compare table nodeSize count rows).Within tableSize
          ((built compare table nodeSize count rows).node (ofNodes table nodeSize row)
            (shortKey % (ofNodes table nodeSize row).mod)) := by
        rw [hnode]
        exact built_within hsize (by omega)
      rw [List.map_cons, lookupLoop, if_neg hne]
      simp only [if_neg (not_not_intro hwithin)]
      split
      · exact Option.some_ne_none _
      · exact lookupLoop_ne_none hsize key shortKey fun row hrow => hrest row (List.mem_cons_of_mem _ hrow)

variable (hrows : Tiles 0 rows total) (hlen : rows.length ≤ hashMaxRow)
  (h32 : ∀ row ∈ rows, row.nodesNum < 2 ^ 32)

include h32

theorem built_getNode_iff {r c : UInt32} {node : UInt64} :
    hashTableGetNode (built compare table nodeSize count rows) r c = some node ↔
      ∃ row, rows[r.toNat]? = some row ∧ c.toNat < row.nodesNum ∧
        node = nodeAddr table nodeSize (row.start + c.toNat) := by
  have hget : (built compare table nodeSize count rows).rows[r.toNat]? =
      rows[r.toNat]?.map (ofNodes table nodeSize) := List.getElem?_map
  unfold hashTableGetNode
  rw [hget]
  cases hr : rows[r.toNat]? with
  | none => simp
  | some row =>
      have hnum : row.nodesNum < 2 ^ 32 := h32 row (List.mem_of_getElem? hr)
      have hge : c ≥ (ofNodes table nodeSize row).nodesNum ↔ row.nodesNum ≤ c.toNat := by
        unfold ofNodes
        rw [ge_iff_le, UInt32.le_iff_toNat_le, UInt32.toNat_ofNat_of_lt' hnum]
      have hnode : (built compare table nodeSize count rows).node (ofNodes table nodeSize row) c =
          nodeAddr table nodeSize (row.start + c.toNat) := nodeAddr_add _ _ _ _
      simp only [Option.map_some]
      by_cases hc : c ≥ (ofNodes table nodeSize row).nodesNum
      · rw [if_pos hc]
        simp only [reduceCtorEq, Option.some.injEq, exists_eq_left', false_iff, not_and]
        exact fun hlt => absurd (hge.mp hc) (Nat.not_le.mpr hlt)
      · rw [if_neg hc, hnode]
        have hlt : c.toNat < row.nodesNum := Nat.lt_of_not_le (mt hge.mpr hc)
        simp only [Option.some.injEq, exists_eq_left', hlt, true_and]
        exact eq_comm

include hrows hlen

/-- The table is in its memory exactly when that has room for all nodes: the nodes do not overlap, so
they take up that much in any case. -/
theorem built_inMemory_iff : InMemory (built compare table nodeSize count rows) tableSize ↔
    nodeSize.toNat * total ≤ tableSize.toNat := by
  constructor
  · intro h
    -- the node of each number, with the index of its row as the code has it
    have hnode : ∀ n < total, ∃ r c, hashTableGetNode (built compare table nodeSize count rows) r c =
        some (nodeAddr table nodeSize n) ∧ ∃ row, rows[r.toNat]? = some row ∧ n = row.start + c.toNat := by
      intro n hn
      obtain ⟨r, row, col, hr, hcol, rfl⟩ := hrows.exists_node (Nat.zero_le n) hn
      have hr32 : (UInt32.ofNat r).toNat = r := by
        obtain ⟨hlt, -⟩ := List.getElem?_eq_some_iff.mp hr
        exact UInt32.toNat_ofNat_of_lt' (Nat.lt_of_lt_of_le hlt (Nat.le_trans hlen (by decide)))
      have hc32 : (UInt32.ofNat col).toNat = col :=
        UInt32.toNat_ofNat_of_lt' (Nat.lt_trans hcol (h32 row (List.mem_of_getElem? hr)))
      refine ⟨UInt32.ofNat r, UInt32.ofNat col, (built_getNode_iff h32).mpr ⟨row, ?_, ?_, ?_⟩, row, ?_, ?_⟩
      · rw [hr32]
        exact hr
      · rw [hc32]
        exact hcol
      · rw [hc32]
      · rw [hr32]
        exact hr
      · rw [hc32]
    rw [Nat.mul_comm, ← Finset.card_range total]
    refine @card_mul_le_of_disjoint Nat _ (Finset.range total)
      (fun n => (built compare table nodeSize count rows).offset (nodeAddr table nodeSize n))
      nodeSize.toNat tableSize.toNat (fun n hn => ?_) fun n hn n' hn' hne => ?_
    · obtain ⟨r, c, hget, -⟩ := hnode n (Finset.mem_range.mp hn)
      exact h.within r c _ hget
    · obtain ⟨r, c, hget, row, hr, hn⟩ := hnode n (Finset.mem_range.mp hn)
      obtain ⟨r', c', hget', row', hr', hn'⟩ := hnode n' (Finset.mem_range.mp hn')
      refine h.disjoint r c _ r' c' _ hget hget' fun heq => hne ?_
      obtain ⟨rfl, rfl⟩ := Prod.mk.inj heq
      obtain rfl := Option.some.inj (hr.symm.trans hr')
      rw [hn, hn']
  · intro hsize
    refine ⟨fun r c node hget => ?_, fun r c node r' c' node' hget hget' hne => ?_,
      fun key shortKey => ?_⟩
    · obtain ⟨row, hr, hc, rfl⟩ := (built_getNode_iff h32).mp hget
      have hend := (hrows.row (List.mem_of_getElem? hr)).2.2.2
      exact built_within hsize (by omega)
    · obtain ⟨row, hr, hc, rfl⟩ := (built_getNode_iff h32).mp hget
      obtain ⟨row', hr', hc', rfl⟩ := (built_getNode_iff h32).mp hget'
      have hend := (hrows.row (List.mem_of_getElem? hr)).2.2.2
      have hend' := (hrows.row (List.mem_of_getElem? hr')).2.2.2
      rw [built_offset_of_lt hsize (by omega), built_offset_of_lt hsize (by omega)]
      change nodeSize.toNat * _ + nodeSize.toNat ≤ _ ∨ nodeSize.toNat * _ + nodeSize.toNat ≤ _
      rw [← Nat.mul_succ, ← Nat.mul_succ]
      rcases Nat.lt_trichotomy (row.start + c.toNat) (row'.start + c'.toNat) with hlt | heq | hlt
      · exact .inl (Nat.mul_le_mul_left _ hlt)
      · obtain ⟨hrr, hcc⟩ := hrows.node_inj hr hr' hc hc' heq
        exact absurd (Prod.ext (UInt32.toNat_inj.mp hrr) (UInt32.toNat_inj.mp hcc)) hne
      · exact .inr (Nat.mul_le_mul_left _ hlt)
    · refine lookupLoop_ne_none hsize key shortKey fun row hrow => ?_
      obtain ⟨hpos, hle, -, hend⟩ := hrows.row hrow
      exact ⟨h32 row hrow, hpos, hle, hend⟩

end

/-! ## Sizes that wrap -/

/-- How many nodes there are in all rows. -/
def totalNodes (rowNum : UInt32) (nodesNum : Nat → UInt32) : Nat := (elems nodesNum 0 rowNum.toNat).sum

/-- What `hash_table_init` refuses, whatever the size. -/
def Refused (table nodeSize : UInt64) (rowNum : UInt32) (nodesNum mods : Nat → UInt32)
    (compare : Option (κ → UInt64 → Int)) : Prop :=
  compare = none ∨ table = 0 ∨ nodeSize = 0 ∨ rowNum = 0 ∨ rowNum.toNat > hashMaxRow ∨
    ∃ i, i < rowNum.toNat ∧ (mods i > nodesNum i ∨ nodesNum i = 0 ∨ mods i = 0)

/-- Neither the number of nodes nor the size of the table wraps. -/
def Fits (nodeSize : UInt64) (rowNum : UInt32) (nodesNum : Nat → UInt32) : Prop :=
  totalNodes rowNum nodesNum < 2 ^ 32 ∧ nodeSize.toNat * totalNodes rowNum nodesNum < 2 ^ 64

theorem foldl_add_nodesNum (nodesNum : Nat → UInt32) (left i : Nat) (tot : UInt32) :
    (List.range' i left).foldl (fun tot i => tot + nodesNum i) tot =
      tot + UInt32.ofNat (elems nodesNum i left).sum := by
  induction left generalizing i tot with
  | zero => exact (UInt32.add_zero tot).symm
  | succ left ih =>
      rw [List.range'_succ, List.foldl_cons, ih, elems_succ, List.sum_cons, UInt32.ofNat_add,
        UInt32.ofNat_toNat, UInt32.add_assoc]

variable {table nodeSize : UInt64} {rowNum : UInt32} {nodesNum mods : Nat → UInt32}

theorem calcHashTableSize_eq (h : rowNum.toNat ≤ hashMaxRow) :
    calcHashTableSize nodeSize rowNum nodesNum =
      nodeSize * (UInt32.ofNat (totalNodes rowNum nodesNum)).toUInt64 := by
  unfold calcHashTableSize
  rw [if_neg (Nat.not_lt.mpr h)]
  simp only
  rw [List.range_eq_range', foldl_add_nodesNum, UInt32.zero_add]
  rfl

/-- The computed size has room for all nodes exactly when it has not wrapped. -/
theorem le_calcHashTableSize_iff (h : rowNum.toNat ≤ hashMaxRow) (hsize : nodeSize ≠ 0) :
    nodeSize.toNat * totalNodes rowNum nodesNum ≤ (calcHashTableSize nodeSize rowNum nodesNum).toNat ↔
      Fits nodeSize rowNum nodesNum := by
  rw [calcHashTableSize_eq h, UInt64.toNat_mul, UInt32.toNat_toUInt64, UInt32.toNat_ofNat']
  unfold Fits
  generalize totalNodes rowNum nodesNum = total
  have hpos : 0 < nodeSize.toNat := Nat.pos_of_ne_zero fun h0 => hsize (UInt64.toNat_inj.mp h0)
  constructor
  · intro hle
    have h32 : total < 2 ^ 32 := by
      refine Nat.lt_of_not_le fun hwrap => ?_
      have hmod : total % 2 ^ 32 < total := Nat.lt_of_lt_of_le (Nat.mod_lt _ (by decide)) hwrap
      have hlt := Nat.mul_lt_mul_of_pos_left hmod hpos
      exact absurd (Nat.le_trans hle (Nat.mod_le _ _)) (Nat.not_le.mpr hlt)
    rw [Nat.mod_eq_of_lt h32] at hle
    exact ⟨h32, Nat.lt_of_le_of_lt hle (Nat.mod_lt _ (by decide))⟩
  · rintro ⟨h32, h64⟩
    rw [Nat.mod_eq_of_lt h32, Nat.mod_eq_of_lt h64]

/-- With the size of `calc_hash_table_size`, `hash_table_init` fails only on what it refuses. -/
theorem hashTableInit_cases (table nodeSize : UInt64) (rowNum : UInt32) (nodesNum mods : Nat → UInt32)
    (compare : Option (κ → UInt64 → Int)) :
    (Refused table nodeSize rowNum nodesNum mods compare ∧ hashTableInit table
      (calcHashTableSize nodeSize rowNum nodesNum) nodeSize rowNum nodesNum mods compare = none) ∨
    (¬ Refused table nodeSize rowNum nodesNum mods compare ∧ ∃ cmp rows,
      initRows 0 (elems nodesNum 0 rowNum.toNat) (elems mods 0 rowNum.toNat) = some rows ∧
      hashTableInit table (calcHashTableSize nodeSize rowNum nodesNum) nodeSize rowNum nodesNum mods
        compare = some (built cmp table nodeSize (UInt32.ofNat (totalNodes rowNum nodesNum)) rows)) := by
  unfold Refused hashTableInit
  cases compare with
  | none => exact .inl ⟨.inl rfl, rfl⟩
  | some cmp =>
      simp only [reduceCtorEq, false_or]
      by_cases h1 : table = 0
      · exact .inl ⟨.inl h1, if_pos h1⟩
      by_cases h2 : nodeSize = 0
      · exact .inl ⟨.inr (.inl h2), by rw [if_neg h1, if_pos h2]⟩
      by_cases h3 : rowNum = 0
      · exact .inl ⟨.inr (.inr (.inl h3)), by rw [if_neg h1, if_neg h2, if_pos h3]⟩
      by_cases h4 : rowNum.toNat > hashMaxRow
      · exact .inl ⟨.inr (.inr (.inr (.inl h4))), by rw [if_neg h1, if_neg h2, if_neg h3, if_pos h4]⟩
      rw [if_neg h1, if_neg h2, if_neg h3, if_neg h4, calcHashTableSize_eq (Nat.le_of_not_lt h4)]
      have hloop := initLoop_eq table nodeSize nodesNum mods rowNum.toNat 0 0 0
      rw [nodeAddr_zero] at hloop
      rw [hloop]
      have hbad := initRows_eq_none_iff nodesNum mods rowNum.toNat 0 0
      simp only [Nat.zero_le, true_and, Nat.zero_add] at hbad
      simp only [h1, h2, h3, h4, false_or, ← hbad]
      cases hrows : initRows 0 (elems nodesNum 0 rowNum.toNat) (elems mods 0 rowNum.toNat) with
      | none => exact .inl ⟨rfl, rfl⟩
      | some rows =>
          refine .inr ⟨Option.some_ne_none _, cmp, rows, rfl, ?_⟩
          simp only [Option.map_some, UInt32.zero_add]
          exact if_neg (not_not_intro rfl)

theorem initRows_layout {rows : List Attr.Row} (hmax : rowNum.toNat ≤ hashMaxRow)
    (hrows : initRows 0 (elems nodesNum 0 rowNum.toNat) (elems mods 0 rowNum.toNat) = some rows) :
    Tiles 0 rows (totalNodes rowNum nodesNum) ∧ rows.length ≤ hashMaxRow ∧
      ∀ row ∈ rows, row.nodesNum < 2 ^ 32 := by
  have hnums := initRows_nodesNum hrows
  have htiles := initRows_tiles hrows
  rw [Nat.zero_add] at htiles
  refine ⟨htiles, ?_, fun row hrow => ?_⟩
  · rw [← List.length_map Attr.Row.nodesNum, hnums, elems, List.length_map, List.length_range']
    exact hmax
  · have hmem : row.nodesNum ∈ elems nodesNum 0 rowNum.toNat := hnums ▸ List.mem_map_of_mem hrow
    obtain ⟨j, -, hj⟩ := List.mem_map.mp hmem
    rw [← hj]
    exact (nodesNum j).toNat_lt

/-- What `hash_table_init` has built when it returns 0. -/
theorem hashTableInit_eq_some {tableSize : UInt64} {compare : Option (κ → UInt64 → Int)} {htab : HashTable κ}
    (h : hashTableInit table tableSize nodeSize rowNum nodesNum mods compare = some htab) :
    table ≠ 0 ∧ nodeSize ≠ 0 ∧ rowNum.toNat ≤ hashMaxRow ∧ ∃ cmp rows,
      initRows 0 (elems nodesNum 0 rowNum.toNat) (elems mods 0 rowNum.toNat) = some rows ∧
      htab = built cmp table nodeSize (UInt32.ofNat (totalNodes rowNum nodesNum)) rows := by
  unfold hashTableInit at h
  cases compare with
  | none => cases h
  | some cmp =>
      simp only at h
      by_cases h1 : table = 0
      · rw [if_pos h1] at h
        cases h
      by_cases h2 : nodeSize = 0
      · rw [if_neg h1, if_pos h2] at h
        cases h
      by_cases h3 : rowNum = 0
      · rw [if_neg h1, if_neg h2, if_pos h3] at h
        cases h
      by_cases h4 : rowNum.toNat > hashMaxRow
      · rw [if_neg h1, if_neg h2, if_neg h3, if_pos h4] at h
        cases h
      have hloop := initLoop_eq table nodeSize nodesNum mods rowNum.toNat 0 0 0
      rw [nodeAddr_zero] at hloop
      rw [if_neg h1, if_neg h2, if_neg h3, if_neg h4, hloop] at h
      cases hrows : initRows 0 (elems nodesNum 0 rowNum.toNat) (elems mods 0 rowNum.toNat) with
      | none =>
          rw [hrows] at h
          cases h
      | some rows =>
          simp only [hrows, Option.map_some, UInt32.zero_add] at h
          by_cases h5 : tableSize ≠ nodeSize *
              (UInt32.ofNat (elems nodesNum 0 rowNum.toNat).sum).toUInt64
          · rw [if_pos h5] at h
            cases h
          · rw [if_neg h5] at h
            exact ⟨h1, h2, Nat.le_of_not_lt h4, cmp, rows, rfl, (Option.some.inj h).symm⟩

/-- An initialised table is in its memory exactly when no size wraps. -/
theorem built_inMemory_iff_fits {compare : κ → UInt64 → Int} {count : UInt32} {rows : List Attr.Row}
    (hmax : rowNum.toNat ≤ hashMaxRow) (hsize : nodeSize ≠ 0)
    (hrows : initRows 0 (elems nodesNum 0 rowNum.toNat) (elems mods 0 rowNum.toNat) = some rows) :
    InMemory (built compare table nodeSize count rows) (calcHashTableSize nodeSize rowNum nodesNum) ↔
      Fits nodeSize rowNum nodesNum := by
  obtain ⟨htiles, hlen, h32⟩ := initRows_layout hmax hrows
  rw [built_inMemory_iff htiles hlen h32]
  exact le_calcHashTableSize_iff hmax hsize

theorem hashTableInit_inMemory {compare : Option (κ → UInt64 → Int)}
    (hfits : Fits nodeSize rowNum nodesNum) {htab : HashTable κ}
    (h : hashTableInit table (calcHashTableSize nodeSize rowNum nodesNum) nodeSize rowNum nodesNum mods
      compare = some htab) : InMemory htab (calcHashTableSize nodeSize rowNum nodesNum) := by
  rcases hashTableInit_cases table nodeSize rowNum nodesNum mods compare with
    ⟨-, hinit⟩ | ⟨hok, cmp, rows, hrows, hinit⟩
  · rw [hinit] at h
    cases h
  · rw [hinit] at h
    obtain rfl := Option.some.inj h
    have hsize : nodeSize ≠ 0 := fun h => hok (.inr (.inr (.inl h)))
    have hmax : rowNum.toNat ≤ hashMaxRow :=
      Nat.le_of_not_lt fun h => hok (.inr (.inr (.inr (.inr (.inl h)))))
    exact (built_inMemory_iff_fits hmax hsize hrows).mpr hfits

/-- The table that `get_attr_shm` initialises is in its memory. -/
theorem attrNodesHtab_inMemory {compare : Option (κ → UInt64 → Int)} {htab : HashTable κ} :
    let nodesNum := fun i => UInt32.ofNat (Attr.nodesNum.getD i 0)
    let mods := fun i => UInt32.ofNat (Attr.mods.getD i 0)
    hashTableInit table (calcHashTableSize 24 20 nodesNum) 24 20 nodesNum mods compare = some htab →
      InMemory htab (calcHashTableSize 24 20 nodesNum) :=
  fun h => hashTableInit_inMemory (by unfold Fits; decide) h

/-- A table of the size that `calc_hash_table_size` gives lies in its memory whenever
`hash_table_init` accepts it, exactly when the arguments are refused or no size wraps. -/
theorem hashTable_inMemory_iff (table nodeSize : UInt64) (rowNum : UInt32) (nodesNum mods : Nat → UInt32)
    (compare : Option (κ → UInt64 → Int)) :
    (∀ htab, hashTableInit table (calcHashTableSize nodeSize rowNum nodesNum) nodeSize rowNum nodesNum mods
        compare = some htab → InMemory htab (calcHashTableSize nodeSize rowNum nodesNum)) ↔
      Refused table nodeSize rowNum nodesNum mods compare ∨ Fits nodeSize rowNum nodesNum := by
  constructor
  · intro h
    rcases hashTableInit_cases table nodeSize rowNum nodesNum mods compare with
      ⟨href, -⟩ | ⟨hok, cmp, rows, hrows, hinit⟩
    · exact .inl href
    · have hsize : nodeSize ≠ 0 := fun h => hok (.inr (.inr (.inl h)))
      have hmax : rowNum.toNat ≤ hashMaxRow :=
        Nat.le_of_not_lt fun h => hok (.inr (.inr (.inr (.inr (.inl h)))))
      exact .inr ((built_inMemory_iff_fits hmax hsize hrows).mp (h _ hinit))
  · rintro (href | hfits) htab h
    · rcases hashTableInit_cases table nodeSize rowNum nodesNum mods compare with ⟨-, hinit⟩ | ⟨hok, -⟩
      · rw [hinit] at h
        cases h
      · exact absurd href hok
    · exact hashTableInit_inMemory hfits h

/-- Two rows of 2^32 - 1 and 2 nodes. -/
def wrappingNodes : Nat → UInt32 := fun i => if i = 0 then 0xFFFFFFFF else 2

/-- The table is not always in its memory: two rows with 2^32 + 1 nodes in all get the size of one. -/
theorem not_hashTable_inMemory :
    ¬ ∀ (table nodeSize : UInt64) (rowNum : UInt32) (nodesNum mods : Nat → UInt32)
      (compare : Option (UInt64 → UInt64 → Int)), rowNum.toNat ≤ hashMaxRow → ∀ htab,
        hashTableInit table (calcHashTableSize nodeSize rowNum nodesNum) nodeSize rowNum nodesNum mods
          compare = some htab → InMemory htab (calcHashTableSize nodeSize rowNum nodesNum) := by
  intro h
  have hmem := h 0x1000 24 2 wrappingNodes (fun _ => 1) (some fun _ _ => 1) (by decide) _ rfl
  have hout := hmem.within 0 1 0x1018 (by decide)
  exact absurd hout (by decide)

end Taomee.Attr.Bytes
