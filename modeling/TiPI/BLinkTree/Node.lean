import Mathlib.Logic.Function.Basic

/-!
# Nodes and the file they are in

A node in memory as `node.h` lays it out: `key_buff` and the union behind it are one array of
words, which `memmove` and indices past the live slots do not tell apart. `L` is the compile-time
constant of that name.
-/

namespace TiPI.BLinkTree

/-- A 64-bit word. No operation here computes with the words it stores. -/
abbrev Word := Nat

abbrev Key := Word

abbrev Offset := Word

/-- The 16 bytes of `data`. -/
abbrev Value := Word × Word

def INVALID_OFFSET : Offset := 1

def INITIAL_ROOT_OFFSET : Offset := 100

def ROOT_NODE : BitVec 32 := 0x0002#32
def LEAF_NODE : BitVec 32 := 0x0001#32
def INTERNAL_NODE : BitVec 32 := 0x0004#32

/-- What lies in the words of a memory block. -/
abbrev Memory := Nat → Word

/-- `n` words of `source` from `start` on, moved to `dest`. -/
def memmove (mem : Memory) (dest : Nat) (source : Memory) (start n : Nat) : Memory :=
  fun i => if dest ≤ i ∧ i < dest + n then source (start + (i - dest)) else mem i

structure BTNode (L : Nat) where
  self : Offset
  right : Offset
  highKey : Key
  flag : BitVec 32
  buffSize : Nat
  keyBuffSize : Nat
  /-- `key_buff` and, from word `2 * L` on, the union -/
  mem : Memory

/-- The words of `key_buff` and the union. -/
def blockWords (L : Nat) : Nat := 2 * L + max (2 * L + 1) (4 * L)

/-- `sizeof(BTNode)`: the structure is packed. -/
def NODE_SIZE (L : Nat) : Nat := 44 + 8 * blockWords L

namespace BTNode

variable {L : Nat}

def keyBuff (node : BTNode L) (i : Nat) : Key := node.mem i

def nodeBuff (node : BTNode L) (i : Nat) : Offset := node.mem (2 * L + i)

def valueBuff (node : BTNode L) (i : Nat) : Value :=
  (node.mem (2 * L + 2 * i), node.mem (2 * L + 2 * i + 1))

def btnodeFlag (node : BTNode L) (flag : BitVec 32) : Bool := node.flag &&& flag != 0#32

/-- The loop of `fgoe`, with fuel for its passes. -/
def fgoeLoop (nums : Nat → Key) (key : Key) : Nat → Int → Int → Int
  | 0, low, _ => low
  | fuel + 1, low, high =>
    if low ≤ high then
      let mid := (low + high) / 2
      if nums mid.toNat = key then mid
      else if key < nums mid.toNat then fgoeLoop nums key fuel low (mid - 1)
      else fgoeLoop nums key fuel (mid + 1) high
    else low

/-- First greater or equal. For an empty buffer `nums[high - 1]` is the word in front of
`key_buff`, which is `key_buff_size`. -/
def fgoe (node : BTNode L) (key : Key) : Nat :=
  let high := node.keyBuffSize
  let last := if high = 0 then node.keyBuffSize else node.keyBuff (high - 1)
  if last < key then high else (fgoeLoop node.keyBuff key (high + 2) 0 high).toNat

def btnodeChildByKey (node : BTNode L) (key : Key) : Offset :=
  if node.btnodeFlag LEAF_NODE then INVALID_OFFSET
  else
    let i := node.fgoe key
    if node.keyBuff i = key then node.nodeBuff (i + 1) else node.nodeBuff i

def btnodeValueByKey (node : BTNode L) (key : Key) : Value :=
  let ind := node.fgoe key
  if node.keyBuff ind ≠ key ∨ !node.btnodeFlag LEAF_NODE then (0, 0) else node.valueBuff ind

/-- `memcpy` of a value into slot `i` of `value_buff`. -/
def setValue (L : Nat) (mem : Memory) (i : Nat) (val : Value) : Memory :=
  Function.update (Function.update mem (2 * L + 2 * i) val.1) (2 * L + 2 * i + 1) val.2

def btnodeAddKeyValue (node : BTNode L) (key : Key) (val : Value) : BTNode L :=
  let sz := node.keyBuffSize
  if sz = 2 * L ∨ !node.btnodeFlag LEAF_NODE then node
  else
    let res := node.fgoe key
    if node.keyBuff res ≠ key ∨ res = sz then
      let mem := memmove node.mem (res + 1) node.mem res (sz - res)
      let mem := Function.update mem res key
      let mem := memmove mem (2 * L + 2 * (res + 1)) mem (2 * L + 2 * res) (2 * (sz - res))
      { node with
        mem := setValue L mem res val
        keyBuffSize := sz + 1
        buffSize := node.buffSize + 1 }
    else { node with mem := setValue L node.mem res val }

/-- `btnodeSplit`: the node itself, then the new right node, whose block `fresh` comes from
`malloc`. The last `memmove` has `sizeof(sz - mid)`, which is 8, for its count. -/
def btnodeSplit (node : BTNode L) (other : Offset) (fresh : Memory) : BTNode L × BTNode L :=
  let flag := node.flag &&& ~~~ROOT_NODE
  let sz := node.keyBuffSize
  let mid := sz / 2
  let left : BTNode L := { node with flag := flag, right := other, highKey := node.keyBuff mid }
  if left.btnodeFlag LEAF_NODE then
    let mem := memmove fresh 0 node.mem mid (sz - mid)
    ({ left with keyBuffSize := mid, buffSize := mid },
     { self := other, right := node.right, highKey := node.highKey, flag := flag
       keyBuffSize := sz - mid
       buffSize := sz - mid
       mem := memmove mem (2 * L) node.mem (2 * L + 2 * mid) (2 * (sz - mid)) })
  else
    let mem := memmove fresh 0 node.mem (mid + 1) (sz - mid - 1)
    ({ left with keyBuffSize := mid, buffSize := mid + 1 },
     { self := other, right := node.right, highKey := node.highKey, flag := flag
       keyBuffSize := sz - mid - 1
       buffSize := sz - mid
       mem := memmove mem (2 * L) node.mem (2 * L + mid + 1) 8 })

def btnodeAddKeyChild (parent : BTNode L) (curHighKey : Key) (newRighthand : Offset) :
    BTNode L :=
  let ind := parent.fgoe curHighKey
  let sz := parent.keyBuffSize
  let mem := memmove parent.mem (ind + 1) parent.mem ind (sz - ind)
  let mem := Function.update mem ind curHighKey
  let mem := memmove mem (2 * L + ind + 2) mem (2 * L + ind + 1) (sz - ind)
  { parent with
    mem := Function.update mem (2 * L + ind + 1) newRighthand
    keyBuffSize := sz + 1
    buffSize := parent.buffSize + 1 }

/-- The node `write` puts above the two halves of the old root. -/
def newRoot (rootOffset : Offset) (key : Key) (left right : Offset) (fresh : Memory) :
    BTNode L :=
  { self := rootOffset, right := INVALID_OFFSET, highKey := 0, flag := ROOT_NODE
    buffSize := 2
    keyBuffSize := 1
    mem := Function.update (Function.update (Function.update fresh 0 key) (2 * L) left)
      (2 * L + 1) right }

/-! ### What a node holds -/

def keys (node : BTNode L) : List Key := (List.range node.keyBuffSize).map node.keyBuff

/-- The live slots of a leaf. -/
def entries (node : BTNode L) : List (Key × Value) :=
  (List.range node.keyBuffSize).map fun i => (node.keyBuff i, node.valueBuff i)

def children (node : BTNode L) : List Offset := (List.range node.buffSize).map node.nodeBuff

end BTNode

/-- The root of an empty tree. -/
def rootLeaf (L : Nat) : BTNode L where
  self := INITIAL_ROOT_OFFSET
  right := INVALID_OFFSET
  highKey := 0
  flag := ROOT_NODE ||| LEAF_NODE
  buffSize := 0
  keyBuffSize := 0
  mem _ := 0

/-! ### The service file -/

/-- The two words in front (root offset, free space) and the nodes written so far. A read at an
offset no node was written to fails, which ends the process. Every I/O call succeeds otherwise. -/
structure ServiceFile (L : Nat) where
  root : Offset
  free : Offset
  node : Offset → Option (BTNode L)

namespace ServiceFile

/-- `readNode`: the block of `NODE_SIZE` bytes comes from the file, what lies behind it in
memory is `fresh`. -/
def readNode (file : ServiceFile L) (offset : Offset) (fresh : Memory) : Option (BTNode L) :=
  (file.node offset).map fun node =>
    { node with mem := fun i => if i < blockWords L then node.mem i else fresh i }

def writeNode (file : ServiceFile L) (current : BTNode L) : ServiceFile L :=
  { file with node := Function.update file.node current.self (some current) }

def setRootOffset (file : ServiceFile L) (newRoot : Offset) : ServiceFile L :=
  { file with root := newRoot }

/-- `addNode` as one atomic step: `mut_free_space` is held from its read to its write. -/
def addNode (file : ServiceFile L) : Offset × ServiceFile L :=
  (file.free, { file with free := file.free + NODE_SIZE L })

def createEmptyServiceFile (L : Nat) : ServiceFile L where
  root := INITIAL_ROOT_OFFSET
  free := INITIAL_ROOT_OFFSET + NODE_SIZE L
  node := Function.update (fun _ => none) INITIAL_ROOT_OFFSET (some (rootLeaf L))

end ServiceFile

end TiPI.BLinkTree
