import Taomee.Attr.HashTable

/-!
# Walking a table node by node

A walk meets the nodes in the order of their numbers, across the ends of the rows. Their addresses
increase in that order as long as none of them wraps.
-/

namespace Taomee.Attr.Bytes

variable {κ : Type}

/-! ## hash_table.c -/

/-- `hash_table_walk(hash_table, &row_idx, &col_idx)`: the node, which is 0 for `NULL`, and the
position. -/
def hashTableWalk (htab : HashTable κ) (rowIdx colIdx : UInt32) : UInt64 × UInt32 × UInt32 :=
  let node := (hashTableGetNode htab rowIdx colIdx).getD 0
  if node = 0 then (0, rowIdx, colIdx)
  else if colIdx + 1 ≥ htab.rows[rowIdx.toNat]?.elim 0 Row.nodesNum then (node, rowIdx + 1, 0)
  else (node, rowIdx, colIdx + 1)

/-- The position after `n` calls, from (0, 0). -/
def walkPos (htab : HashTable κ) : Nat → UInt32 × UInt32
  | 0 => (0, 0)
  | n + 1 => (hashTableWalk htab (walkPos htab n).1 (walkPos htab n).2).2

/-- The node that call number `n` returns, where the first call has number 0. -/
def walkNode (htab : HashTable κ) (n : Nat) : UInt64 :=
  (hashTableWalk htab (walkPos htab n).1 (walkPos htab n).2).1

/-- The calls return every node once, at increasing addresses, and then `NULL` without moving. -/
structure Walked (htab : HashTable κ) : Prop where
  nonnull : ∀ n < htab.totalNodeNum.toNat, walkNode htab n ≠ 0
  node : ∀ n < htab.totalNodeNum.toNat,
    hashTableGetNode htab (walkPos htab n).1 (walkPos htab n).2 = some (walkNode htab n)
  increasing : ∀ n n', n < n' → n' < htab.totalNodeNum.toNat → walkNode htab n < walkNode htab n'
  covers : ∀ r c node, hashTableGetNode htab r c = some node →
    ∃ n < htab.totalNodeNum.toNat, walkPos htab n = (r, c) ∧ walkNode htab n = node
  ends : ∀ n ≥ htab.totalNodeNum.toNat, walkNode htab n = 0 ∧ walkPos htab (n + 1) = walkPos htab n

/-! ## Positions and numbers -/

theorem Tiles.first {start stop : Nat} {rows : List Attr.Row} (h : Tiles start rows stop) :
    (rows.length = 0 ∧ start = stop) ∨ ∃ row, rows[0]? = some row ∧ row.start = start := by
  cases h with
  | nil => exact .inl ⟨rfl, rfl⟩
  | cons hpos hle hrows => exact .inr ⟨_, rfl, rfl⟩

/-- After a row comes the end of the table, or another row that starts where this one ends. -/
theorem Tiles.next {start stop r : Nat} {rows : List Attr.Row} {row : Attr.Row}
    (h : Tiles start rows stop) (hr : rows[r]? = some row) :
    (rows.length = r + 1 ∧ row.start + row.nodesNum = stop) ∨
      ∃ row', rows[r + 1]? = some row' ∧ row'.start = row.start + row.nodesNum := by
  induction h generalizing r with
  | nil start => cases hr
  | @cons first rest stop hpos hle hrest ih =>
      cases r with
      | zero =>
          obtain rfl := Option.some.inj hr
          rcases hrest.first with ⟨hlen, hstop⟩ | hnext
          · exact .inl ⟨congrArg (· + 1) hlen, hstop⟩
          · exact .inr hnext
      | succ r =>
          rw [List.getElem?_cons_succ] at hr
          rcases ih hr with ⟨hlen, hstop⟩ | hnext
          · exact .inl ⟨congrArg (· + 1) hlen, hstop⟩
          · exact .inr hnext

/-- The position of node number `n`, or the one after all rows when there are only `n` nodes. -/
def At (rows : List Attr.Row) (total n : Nat) (pos : UInt32 × UInt32) : Prop :=
  (∃ row, rows[pos.1.toNat]? = some row ∧ pos.2.toNat < row.nodesNum ∧ n = row.start + pos.2.toNat) ∨
    pos.1.toNat = rows.length ∧ n = total

section

variable {compare : κ → UInt64 → Int} {table nodeSize : UInt64} {count : UInt32}
  {rows : List Attr.Row} {total n : Nat} {pos : UInt32 × UInt32}
  (hrows : Tiles 0 rows total) (hlen : rows.length ≤ hashMaxRow)
  (h32 : ∀ row ∈ rows, row.nodesNum < 2 ^ 32)

theorem At.row (h : At rows total n pos) (hn : n < total) : ∃ row, rows[pos.1.toNat]? = some row ∧
    pos.2.toNat < row.nodesNum ∧ n = row.start + pos.2.toNat := by
  rcases h with h | ⟨-, rfl⟩
  · exact h
  · exact absurd hn (Nat.lt_irrefl _)

include hrows

theorem At.zero : At rows total 0 (0, 0) := by
  rcases hrows.first with ⟨hlen, rfl⟩ | ⟨row, hr, hstart⟩
  · exact .inr ⟨hlen.symm, rfl⟩
  · obtain ⟨hpos, hle, -⟩ := hrows.row (List.mem_of_getElem? hr)
    exact .inl ⟨row, hr, Nat.lt_of_lt_of_le hpos hle, hstart.symm⟩

theorem At.past (h : At rows total total pos) : rows[pos.1.toNat]? = none := by
  rcases h with ⟨row, hr, hc, htotal⟩ | ⟨hlen, -⟩
  · have hend := (hrows.row (List.mem_of_getElem? hr)).2.2.2
    omega
  · exact List.getElem?_eq_none_iff.mpr (Nat.le_of_eq hlen.symm)

include hlen h32

/-- A call at node number `n` returns it and goes on to the next, in the same row or the following. -/
theorem walk_step (h : At rows total n pos) (hn : n < total) (hnode : nodeAddr table nodeSize n ≠ 0) :
    let htab := built compare table nodeSize count rows
    hashTableGetNode htab pos.1 pos.2 = some (nodeAddr table nodeSize n) ∧
      (hashTableWalk htab pos.1 pos.2).1 = nodeAddr table nodeSize n ∧
      At rows total (n + 1) (hashTableWalk htab pos.1 pos.2).2 := by
  intro htab
  obtain ⟨row, hr, hc, rfl⟩ := h.row hn
  have hget : hashTableGetNode htab pos.1 pos.2 = some (nodeAddr table nodeSize (row.start + pos.2.toNat)) :=
    (built_getNode_iff h32).mpr ⟨row, hr, hc, rfl⟩
  have hnum : row.nodesNum < 2 ^ 32 := h32 row (List.mem_of_getElem? hr)
  have hrow : htab.rows[pos.1.toNat]?.elim 0 Row.nodesNum = UInt32.ofNat row.nodesNum := by
    have hmap : htab.rows[pos.1.toNat]? = rows[pos.1.toNat]?.map (ofNodes table nodeSize) := List.getElem?_map
    rw [hmap, hr]
    rfl
  have hcol : (pos.2 + 1).toNat = pos.2.toNat + 1 := by
    rw [UInt32.toNat_add]
    exact Nat.mod_eq_of_lt (by change pos.2.toNat + 1 < 2 ^ 32; omega)
  have hidx : (pos.1 + 1).toNat = pos.1.toNat + 1 := by
    obtain ⟨hlt, -⟩ := List.getElem?_eq_some_iff.mp hr
    have hmax : hashMaxRow = 100 := rfl
    rw [UInt32.toNat_add]
    exact Nat.mod_eq_of_lt (by change pos.1.toNat + 1 < 2 ^ 32; omega)
  have hge : pos.2 + 1 ≥ UInt32.ofNat row.nodesNum ↔ row.nodesNum ≤ pos.2.toNat + 1 := by
    rw [ge_iff_le, UInt32.le_iff_toNat_le, UInt32.toNat_ofNat_of_lt' hnum, hcol]
  refine ⟨hget, ?_⟩
  unfold hashTableWalk
  rw [hget, hrow]
  simp only [Option.getD_some, if_neg hnode]
  by_cases hlast : pos.2 + 1 ≥ UInt32.ofNat row.nodesNum
  · rw [if_pos hlast]
    refine ⟨rfl, ?_⟩
    have hend : row.start + pos.2.toNat + 1 = row.start + row.nodesNum := by
      have hle := hge.mp hlast
      omega
    rw [hend]
    rcases hrows.next hr with ⟨hlength, hstop⟩ | ⟨row', hr', hstart⟩
    · exact .inr ⟨hidx.trans hlength.symm, hstop⟩
    · obtain ⟨hpos, hle, -⟩ := hrows.row (List.mem_of_getElem? hr')
      exact .inl ⟨row', by rw [hidx]; exact hr', Nat.lt_of_lt_of_le hpos hle, hstart.symm⟩
  · rw [if_neg hlast]
    refine ⟨rfl, .inl ⟨row, hr, ?_, ?_⟩⟩
    · rw [hcol]
      exact Nat.lt_of_not_le (mt hge.mpr hlast)
    · rw [hcol, Nat.add_assoc]

/-! ## Walks -/

omit hlen h32 hrows in
/-- A walk that has passed all nodes stays where it is. -/
theorem walk_past (h : rows[pos.1.toNat]? = none) :
    hashTableWalk (built compare table nodeSize count rows) pos.1 pos.2 = (0, pos) := by
  have hnone : (built compare table nodeSize count rows).rows[pos.1.toNat]? = none := by
    have hmap : (built compare table nodeSize count rows).rows[pos.1.toNat]? =
        rows[pos.1.toNat]?.map (ofNodes table nodeSize) := List.getElem?_map
    rw [hmap, h]
    rfl
  have hget : hashTableGetNode (built compare table nodeSize count rows) pos.1 pos.2 = none := by
    unfold hashTableGetNode
    rw [hnone]
  unfold hashTableWalk
  rw [hget]
  exact if_pos rfl

/-- Until a node is at address 0, the calls are at the nodes by number. -/
theorem walkPos_at (hn : n ≤ total) (hnodes : ∀ k < n, nodeAddr table nodeSize k ≠ 0) :
    At rows total n (walkPos (built compare table nodeSize count rows) n) := by
  induction n with
  | zero => exact .zero hrows
  | succ n ih =>
      have hat := ih (by omega) fun k hk => hnodes k (by omega)
      exact (walk_step hrows hlen h32 hat hn (hnodes n (Nat.lt_succ_self n))).2.2

/-- From the end on, nothing moves. -/
theorem walkPos_past (hnodes : ∀ k < total, nodeAddr table nodeSize k ≠ 0) (hn : total ≤ n) :
    let htab := built compare table nodeSize count rows
    walkPos htab n = walkPos htab total ∧
      hashTableWalk htab (walkPos htab n).1 (walkPos htab n).2 = (0, walkPos htab n) := by
  intro htab
  have hat : At rows total total (walkPos htab total) :=
    walkPos_at hrows hlen h32 (Nat.le_refl _) hnodes
  have hwalk : hashTableWalk htab (walkPos htab total).1 (walkPos htab total).2 = (0, walkPos htab total) :=
    walk_past (hat.past hrows)
  induction n, hn using Nat.le_induction with
  | base => exact ⟨rfl, hwalk⟩
  | succ n hn ih =>
      have hstay : walkPos htab (n + 1) = walkPos htab total := by
        rw [← ih.1]
        exact congrArg Prod.snd ih.2
      rw [hstay]
      exact ⟨rfl, hwalk⟩

/-! ## Addresses that do not wrap -/

omit hlen h32 hrows in
theorem nodeAddr_succ (n : Nat) :
    nodeAddr table nodeSize (n + 1) = nodeAddr table nodeSize n + nodeSize := by
  have hadd : nodeAddr table nodeSize n + nodeSize * 1 = nodeAddr table nodeSize (n + 1) :=
    nodeAddr_add table nodeSize n 1
  rw [← hadd, UInt64.mul_one]

omit hlen h32 hrows in
theorem nodeAddr_toNat (hfits : table.toNat + nodeSize.toNat * (total - 1) < 2 ^ 64) (hn : n < total) :
    (nodeAddr table nodeSize n).toNat = table.toNat + nodeSize.toNat * n := by
  have hle : nodeSize.toNat * n ≤ nodeSize.toNat * (total - 1) := Nat.mul_le_mul_left _ (by omega)
  unfold nodeAddr
  rw [UInt64.toNat_add, UInt64.toNat_mul, UInt64.toNat_ofNat', Nat.mul_mod_mod, Nat.add_mod_mod,
    Nat.mod_eq_of_lt (by omega)]

omit hlen h32 hrows in
/-- The address of a node has not wrapped when it increases at every step. -/
theorem nodeAddr_toNat_of_lt (hlt : ∀ k < n, nodeAddr table nodeSize k < nodeAddr table nodeSize (k + 1)) :
    (nodeAddr table nodeSize n).toNat = table.toNat + nodeSize.toNat * n := by
  induction n with
  | zero => rw [nodeAddr_zero, Nat.mul_zero, Nat.add_zero]
  | succ n ih =>
      have hn := ih fun k hk => hlt k (Nat.lt_succ_of_lt hk)
      have hstep := UInt64.lt_iff_toNat_lt.mp (hlt n (Nat.lt_succ_self n))
      have hbound := nodeSize.toNat_lt
      have hbound' := (nodeAddr table nodeSize n).toNat_lt
      rw [nodeAddr_succ, UInt64.toNat_add] at hstep ⊢
      rw [Nat.mul_succ, ← Nat.add_assoc, ← hn]
      omega

/-- The walk of a table is the one expected exactly when the address of the last node does not wrap. -/
theorem built_walked_iff (htable : table ≠ 0) (hsize : nodeSize ≠ 0) (hcount : count.toNat = total) :
    Walked (built compare table nodeSize count rows) ↔
      table.toNat + nodeSize.toNat * (total - 1) < 2 ^ 64 := by
  have htotal : (built compare table nodeSize count rows).totalNodeNum.toNat = total := hcount
  constructor
  · intro hw
    have hnode : ∀ n < total, nodeAddr table nodeSize n ≠ 0 ∧
        walkNode (built compare table nodeSize count rows) n = nodeAddr table nodeSize n := by
      intro n
      induction n using Nat.strong_induction_on with
      | _ n ih =>
          intro hn
          have hat : At rows total n (walkPos (built compare table nodeSize count rows) n) :=
            walkPos_at hrows hlen h32 (Nat.le_of_lt hn) fun k hk => (ih k hk (Nat.lt_trans hk hn)).1
          obtain ⟨row, hr, hc, hnum⟩ := hat.row hn
          have hget : hashTableGetNode (built compare table nodeSize count rows) _ _ =
              some (nodeAddr table nodeSize n) := (built_getNode_iff h32).mpr
                ⟨row, hr, hc, congrArg (nodeAddr table nodeSize) hnum⟩
          have heq := Option.some.inj ((hw.node n (htotal.symm ▸ hn)).symm.trans hget)
          exact ⟨heq ▸ hw.nonnull n (htotal.symm ▸ hn), heq⟩
    rcases Nat.eq_zero_or_pos total with rfl | hpos
    · exact table.toNat_lt
    · rw [← nodeAddr_toNat_of_lt fun k hk => ?_]
      · exact UInt64.toNat_lt _
      · rw [← (hnode k (by omega)).2, ← (hnode (k + 1) (by omega)).2]
        exact hw.increasing k (k + 1) (Nat.lt_succ_self k) (by omega)
  · intro hfits
    have haddr : ∀ n < total, (nodeAddr table nodeSize n).toNat = table.toNat + nodeSize.toNat * n :=
      fun n hn => nodeAddr_toNat hfits hn
    have hne : ∀ n < total, nodeAddr table nodeSize n ≠ 0 := by
      intro n hn h0
      have htoNat := haddr n hn
      rw [h0] at htoNat
      refine htable (UInt64.toNat_inj.mp ?_)
      change _ = 0
      change 0 = _ at htoNat
      omega
    have hat : ∀ n ≤ total, At rows total n (walkPos (built compare table nodeSize count rows) n) :=
      fun n hn => walkPos_at hrows hlen h32 hn fun k hk => hne k (by omega)
    have hnode : ∀ n < total, walkNode (built compare table nodeSize count rows) n =
        nodeAddr table nodeSize n :=
      fun n hn => (walk_step hrows hlen h32 (hat n (Nat.le_of_lt hn)) hn (hne n hn)).2.1
    refine ⟨fun n hn => ?_, fun n hn => ?_, fun n n' hlt hn' => ?_, fun r c node hget => ?_, fun n hn => ?_⟩
    · rw [htotal] at hn
      rw [hnode n hn]
      exact hne n hn
    · rw [htotal] at hn
      rw [hnode n hn]
      exact (walk_step hrows hlen h32 (hat n (Nat.le_of_lt hn)) hn (hne n hn)).1
    · rw [htotal] at hn'
      have hn := Nat.lt_trans hlt hn'
      rw [hnode n hn, hnode n' hn', UInt64.lt_iff_toNat_lt, haddr n hn, haddr n' hn']
      have hpos : 0 < nodeSize.toNat := Nat.pos_of_ne_zero fun h0 => hsize (UInt64.toNat_inj.mp h0)
      exact Nat.add_lt_add_left (Nat.mul_lt_mul_of_pos_left hlt hpos) _
    · obtain ⟨row, hr, hc, rfl⟩ := (built_getNode_iff h32).mp hget
      have hend := (hrows.row (List.mem_of_getElem? hr)).2.2.2
      have hn : row.start + c.toNat < total := by omega
      obtain ⟨row', hr', hc', hnum⟩ := (hat _ (Nat.le_of_lt hn)).row hn
      obtain ⟨hrow, hcol⟩ := hrows.node_inj hr' hr hc' hc hnum.symm
      exact ⟨row.start + c.toNat, htotal.symm ▸ hn,
        Prod.ext (UInt32.toNat_inj.mp hrow) (UInt32.toNat_inj.mp hcol), hnode _ hn⟩
    · rw [ge_iff_le, htotal] at hn
      have hpast : hashTableWalk (built compare table nodeSize count rows) _ _ = (0, _) :=
        (walkPos_past hrows hlen h32 hne hn).2
      exact ⟨congrArg Prod.fst hpast, congrArg Prod.snd hpast⟩

end

section

variable {table tableSize nodeSize : UInt64} {rowNum : UInt32} {nodesNum mods : Nat → UInt32}
  {compare : Option (κ → UInt64 → Int)} {htab : HashTable κ}

/-- What `hash_table_init` has built, with its rows one behind the other. -/
theorem hashTableInit_tiled
    (h : hashTableInit table tableSize nodeSize rowNum nodesNum mods compare = some htab) :
    table ≠ 0 ∧ nodeSize ≠ 0 ∧ ∃ cmp rows,
      htab = built cmp table nodeSize (UInt32.ofNat (totalNodes rowNum nodesNum)) rows ∧
      Tiles 0 rows (totalNodes rowNum nodesNum) ∧ rows.length ≤ hashMaxRow ∧ ∀ row ∈ rows, row.nodesNum < 2 ^ 32 := by
  obtain ⟨htable, hsize, hmax, cmp, rows, hrows, heq⟩ := hashTableInit_eq_some h
  exact ⟨htable, hsize, cmp, rows, heq, initRows_layout hmax hrows⟩

end

/-- A walk of a table on which `hash_table_init` returned 0 meets every node once, in the order of
the addresses, exactly when the address of the last node does not wrap. -/
theorem hashTableWalk_walked_iff (table tableSize nodeSize : UInt64) (rowNum : UInt32)
    (nodesNum mods : Nat → UInt32) (compare : Option (κ → UInt64 → Int)) (htab : HashTable κ)
    (h : hashTableInit table tableSize nodeSize rowNum nodesNum mods compare = some htab)
    (htotal : totalNodes rowNum nodesNum < 2 ^ 32) :
    Walked htab ↔ table.toNat + nodeSize.toNat * (totalNodes rowNum nodesNum - 1) < 2 ^ 64 := by
  obtain ⟨htable, hsize, cmp, rows, rfl, htiles, hlen, h32⟩ := hashTableInit_tiled h
  exact built_walked_iff htiles hlen h32 htable hsize (UInt32.toNat_ofNat_of_lt' htotal)

/-- Rows of 3 and 2 nodes of 24 bytes. -/
theorem hashTableWalk_walked_iff_sample :
    Walked (built (fun _ _ => 1 : UInt64 → UInt64 → Int) 0x1000 24 5 [⟨3, 3, 0⟩, ⟨2, 1, 3⟩]) :=
  (hashTableWalk_walked_iff 0x1000 120 24 2 (fun i => if i = 0 then 3 else 2)
    (fun i => if i = 0 then 3 else 1) (some fun _ _ => 1) _ rfl (by decide)).mpr (by decide)

/-- 2^31 nodes of 2^33 + 8 bytes take 2^64 + 2^34 bytes, and `hash_table_init` accepts a table of
2^34 bytes for them: the addresses of a walk do not always increase. -/
theorem not_hashTableWalk_walked :
    ¬ ∀ (table tableSize nodeSize : UInt64) (rowNum : UInt32) (nodesNum mods : Nat → UInt32)
      (compare : Option (UInt64 → UInt64 → Int)) (htab : HashTable UInt64),
        hashTableInit table tableSize nodeSize rowNum nodesNum mods compare = some htab →
          totalNodes rowNum nodesNum < 2 ^ 32 → Walked htab := by
  intro h
  obtain ⟨htab, hinit⟩ : ∃ htab, hashTableInit 0x7F0000000000 0x400000000 0x200000008 1
      (fun _ => 0x80000000) (fun _ => 1) (some fun (_ : UInt64) _ => 1) = some htab := ⟨_, rfl⟩
  have hw := h _ _ _ _ _ _ _ _ hinit (by decide)
  obtain ⟨htable, hsize, cmp, rows, rfl, htiles, hlen, h32⟩ := hashTableInit_tiled hinit
  exact absurd ((built_walked_iff htiles hlen h32 htable hsize (UInt32.toNat_ofNat_of_lt' (by decide))).mp hw) (by decide)

end Taomee.Attr.Bytes
