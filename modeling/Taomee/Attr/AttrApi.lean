import Taomee.Lib.Probing

/-!
# Attribute counters (attr_api/attr_api.c, attr_api/hash_table.c)

A hash table of counters in shared memory. Addresses are counted in nodes from the start of the
table. The table is attached; what is printed is left out.
-/

namespace Taomee.Attr

/-! ## hash_table.c -/

def hashMaxRow : Nat := 100

/-- One row: an element of each of the arrays `nodes_num`, `mods` and `row_starts`. -/
structure Row where
  nodesNum : Nat
  mod : Nat
  start : Nat

/-- `struct hash_table_t`. -/
structure HashTable where
  rows : List Row
  totalNodeNum : Nat

/-- `calc_hash_table_size`. -/
def calcHashTableSize (nodeSize : Nat) (nodesNum : List Nat) : Nat :=
  if nodesNum.length > hashMaxRow then 0 else nodeSize * nodesNum.sum

/-- The loop of `hash_table_init`, for the rows from `start` on. -/
def initRows : Nat → List Nat → List Nat → Option (List Row)
  | start, n :: nodesNum, m :: mods =>
      if m > n then none
      else if n = 0 ∨ m = 0 then none
      else (initRows (start + n) nodesNum mods).map (⟨n, m, start⟩ :: ·)
  | _, [], [] => some []
  | _, _, _ => none

/-- `hash_table_init`. -/
def hashTableInit (tableSize nodeSize : Nat) (nodesNum mods : List Nat) : Option HashTable :=
  if nodeSize = 0 ∨ nodesNum.length = 0 then none
  else if nodesNum.length > hashMaxRow then none
  else
    match initRows 0 nodesNum mods with
    | none => none
    | some rows =>
        if tableSize ≠ nodeSize * nodesNum.sum then none else some ⟨rows, nodesNum.sum⟩

/-- `struct attr_node_t`. -/
structure AttrNode where
  key : UInt64
  attr : UInt64
  val : Int64

/-- The nodes in shared memory. -/
abbrev Table := Nat → AttrNode

/-- The node of a row where a short key belongs. -/
def Row.node (row : Row) (shortKey : UInt32) : Nat := row.start + shortKey.toNat % row.mod

/-- The loop of `hash_table_lookup_node`, comparing with `attr_node_compare`. -/
def lookupNode (table : Table) (key : UInt64) (shortKey : UInt32) : List Row → Option Nat
  | [] => none
  | row :: rows =>
      if (table (row.node shortKey)).key = key then some (row.node shortKey)
      else lookupNode table key shortKey rows

/-- The loop of `hash_table_lookup_node_ex`: the node and `*exist`. -/
def lookupNodeEx (table : Table) (emptyKey key : UInt64) (shortKey : UInt32) :
    List Row → Option Nat → Option Nat × Bool
  | [], emptyNode => (emptyNode, false)
  | row :: rows, emptyNode =>
      let node := row.node shortKey
      if (table node).key = key then (some node, true)
      else
        lookupNodeEx table emptyKey key shortKey rows
          (if emptyNode = none ∧ (table node).key = emptyKey then some node else emptyNode)

/-! ## api_util.c -/

/-- `make_attr_key`. -/
def makeAttrKey (attr : UInt64) (pid : UInt32) : UInt64 :=
  let attrH8 := attr &&& 0xFF00
  let attrL8 := attr &&& 0xFF
  let pidH8 := (pid &&& 0xFF00).toUInt64
  let pidL8 := (pid &&& 0xFF).toUInt64
  let keyH16 := ((attrH8 ^^^ pidH8) ||| (attrL8 ||| pidL8)) &&& 0xFFFF
  let keyL16 := ((attrH8 ||| pidH8) ||| (attrL8 ^^^ pidL8)) &&& 0xFFFF
  let keyL32 := (keyH16 <<< 16) ||| keyL16
  (attr <<< 32) ||| (keyL32 &&& 0xFFFFFFFF)

/-! ## attr_api.c -/

def nodesNum : List Nat := List.replicate 20 50000

def mods : List Nat :=
  [49999, 49993, 49991, 49957, 49943, 49939, 49937, 49927, 49921, 49919,
   49891, 49877, 49871, 49853, 49843, 49831, 49823, 49811, 49807, 49801]

def emptyKey : UInt64 := 0

def attrUpdateMethodIncr : Int := 0

/-- `sizeof(struct attr_node_t)`. -/
def nodeSize : Nat := 24

/-- `attr_nodes_htab`, as `get_attr_shm` initialises it. -/
def attrNodesHtab : HashTable :=
  (hashTableInit (calcHashTableSize nodeSize nodesNum) nodeSize nodesNum mods).get (by decide)

/-- `HTAB_LOOKUP(attr_nodes_htab, key)`. -/
def htabLookup (table : Table) (key : UInt64) : Option Nat :=
  lookupNode table key key.toUInt32 attrNodesHtab.rows

/-- `HTAB_LOOKUP_EX(attr_nodes_htab, key, exist)`. -/
def htabLookupEx (table : Table) (key : UInt64) : Option Nat × Bool :=
  lookupNodeEx table emptyKey key key.toUInt32 attrNodesHtab.rows none

/-- The node as `update_attr` leaves it. -/
def AttrNode.updated (node : AttrNode) (exist : Bool) (key attr : UInt64) (val : Int64) (method : Int) :
    AttrNode :=
  let node := if exist then node else { key := key, attr := attr, val := 0 }
  if method = attrUpdateMethodIncr then { node with val := node.val + val } else { node with val := val }

/-- `update_attr` of a process: the table, the return value and what is written to `*exist`. -/
def updateAttr (table : Table) (pid : UInt32) (attr : UInt64) (val : Int64) (method : Int) :
    Table × Int × Option Bool :=
  let key := makeAttrKey attr pid
  match htabLookupEx table key with
  | (none, _) => (table, -1, none)
  | (some node, exist) =>
      (Function.update table node ((table node).updated exist key attr val method), 0, some exist)

/-- `get_attr`: the return value, `*val` and `*exist`. -/
def getAttr (table : Table) (key : UInt64) : Int × Int64 × Bool :=
  match htabLookup table key with
  | none => (0, 0, false)
  | some node => (0, (table node).val, true)

/-- Another process clears a whole node. -/
def clearNode (table : Table) (node : Nat) : Table := Function.update table node ⟨0, 0, 0⟩

/-- The table in zero-filled shared memory. -/
def zeroTable : Table := fun _ => ⟨0, 0, 0⟩

end Taomee.Attr
