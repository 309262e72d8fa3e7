import TiPI.BLinkTree.Node

/-!
# Threads in the tree

`BLinkTree::write` and `BLinkTree::read` run step by step: a step takes or gives back one lock,
reads or writes one node, or reads or writes one word of the service file's header (`mut_root` and
`mut_free_space` make those atomic). Steps named after a test of the source touch only the
thread's own variables.
-/

namespace TiPI.BLinkTree

variable {L : Nat}

abbrev Tid := Nat

/-- A `pthread_rwlock_t`. It is free when it is made, and `getNodeRWLock` makes the lock of an
offset before anyone uses it. -/
structure RwLock where
  readers : List Tid := []
  writer : Option Tid := none
  deriving DecidableEq

/-- What the threads share. -/
structure Store (L : Nat) where
  file : ServiceFile L
  lock : Offset → RwLock

namespace Store

def rdLock (s : Store L) (t : Tid) (o : Offset) : Option (Store L) :=
  let lock := s.lock o
  if lock.writer = none then
    some { s with lock := Function.update s.lock o { lock with readers := t :: lock.readers } }
  else none

def wrLock (s : Store L) (t : Tid) (o : Offset) : Option (Store L) :=
  let lock := s.lock o
  if lock.writer = none ∧ lock.readers = [] then
    some { s with lock := Function.update s.lock o { lock with writer := some t } }
  else none

def unLock (s : Store L) (t : Tid) (o : Offset) : Store L :=
  let lock := s.lock o
  let lock' :=
    if lock.writer = some t then { lock with writer := none }
    else { lock with readers := lock.readers.erase t }
  { s with lock := Function.update s.lock o lock' }

def writeNode (s : Store L) (node : BTNode L) : Store L := { s with file := s.file.writeNode node }

end Store

/-- The variables of the split loop of `write`; `lock` is the offset whose lock is held. -/
structure SplitVars (L : Nat) where
  stk : List Offset
  lock : Offset
  current : BTNode L
  nodeToAdd : Offset
  keyToAdd : Key

/-- Where a call of `write` is. A constructor is the next step with the variables still used. -/
inductive WritePc (L : Nat)
  | getRootOffset
  | rdLock (stk : List Offset) (offset : Offset)
  | readNode (stk : List Offset) (offset : Offset)
  | whileNotLeaf (stk : List Offset) (lock : Offset) (current : BTNode L)
  | unLockPrev (stk : List Offset) (prev offset : Offset)
  | unLockLeaf (stk : List Offset) (lock tmpOffset : Offset)
  | wrLockLeaf (stk : List Offset) (lock offset : Offset)
  | readLeaf (stk : List Offset) (lock offset : Offset)
  | unLockLeft (stk : List Offset) (prev offset : Offset)
  | isSafe (stk : List Offset) (lock : Offset) (current : BTNode L)
  | writeLeaf (lock : Offset) (current : BTNode L)
  | unLock (lock : Offset)
  | whileUnsafe (v : SplitVars L)
  | wrLockParent (v : SplitVars L) (parentOffset : Offset)
  | readParent (v : SplitVars L) (parentOffset : Offset)
  | unLockParent (v : SplitVars L) (parentOffset right : Offset)
  | addNode (v : SplitVars L) (parentOffset : Offset) (parent : BTNode L)
  | writeLeft (v : SplitVars L) (parentOffset : Offset) (parent left right : BTNode L)
  | writeRight (v : SplitVars L) (parentOffset : Offset) (parent left right : BTNode L)
  | unLockChild (prev : Offset) (v : SplitVars L)
  | writeParent (v : SplitVars L)
  | addRootRight (v : SplitVars L)
  | writeRootLeft (v : SplitVars L) (left right : BTNode L)
  | writeRootRight (v : SplitVars L) (left right : BTNode L)
  | addRoot (v : SplitVars L) (left right : BTNode L)
  | wrLockRoot (v : SplitVars L) (left right : BTNode L) (rootOffset : Offset)
  | setRootOffset (v : SplitVars L) (left right : BTNode L) (rootOffset : Offset)
  | writeRoot (v : SplitVars L) (left right : BTNode L) (rootOffset : Offset)
  | unLockOldRoot (lock rootOffset : Offset)
  | unLockRoot (rootOffset : Offset)
  /-- `stk.top()` of an empty stack: undefined -/
  | topOfEmpty
  | ret

/-- `btnodeSplit` of the current node and what is added to one of the halves. -/
def SplitVars.split (v : SplitVars L) (key : Key) (value : Value) (rightOffset : Offset)
    (fresh : Memory) : BTNode L × BTNode L :=
  let (left, right) := v.current.btnodeSplit rightOffset fresh
  if left.btnodeFlag LEAF_NODE then
    if key < left.highKey then (left.btnodeAddKeyValue key value, right)
    else (left, right.btnodeAddKeyValue key value)
  else if key < left.highKey then (left.btnodeAddKeyChild v.keyToAdd v.nodeToAdd, right)
  else (left, right.btnodeAddKeyChild v.keyToAdd v.nodeToAdd)

/-- The end of a pass of the split loop. -/
def SplitVars.next (v : SplitVars L) (parentOffset : Offset) (parent left right : BTNode L) :
    SplitVars L :=
  { stk := v.stk, lock := parentOffset, current := parent, nodeToAdd := right.self
    keyToAdd := left.highKey }

namespace WritePc

/-- One step of `write(key, value)` in thread `t`; `fresh` is the memory a `malloc` of the step
returns. -/
def step (key : Key) (value : Value) (t : Tid) (fresh : Memory) (s : Store L) :
    WritePc L → Option (Store L × WritePc L)
  | .getRootOffset => some (s, .rdLock [] s.file.root)
  | .rdLock stk offset => (s.rdLock t offset).map fun s => (s, .readNode stk offset)
  | .readNode stk offset =>
    (s.file.readNode offset fresh).map fun current => (s, .whileNotLeaf stk offset current)
  | .whileNotLeaf stk lock current =>
    if current.btnodeFlag LEAF_NODE then some (s, .unLockLeaf stk lock current.self)
    else
      let offset := current.btnodeChildByKey key
      if offset = INVALID_OFFSET then
        -- the early return keeps the read lock
        if current.right = INVALID_OFFSET then some (s, .ret)
        else some (s, .unLockPrev stk lock current.right)
      else some (s, .unLockPrev (current.self :: stk) lock offset)
  | .unLockPrev stk prev offset => some (s.unLock t prev, .rdLock stk offset)
  | .unLockLeaf stk lock tmpOffset => some (s.unLock t lock, .wrLockLeaf stk lock tmpOffset)
  | .wrLockLeaf stk lock offset => (s.wrLock t lock).map fun s => (s, .readLeaf stk lock offset)
  | .readLeaf stk lock offset =>
    (s.file.readNode offset fresh).map fun current =>
      if current.right ≠ INVALID_OFFSET ∧ current.highKey ≤ key then
        (s, .unLockLeft stk lock current.right)
      else (s, .isSafe stk lock current)
  | .unLockLeft stk prev offset => some (s.unLock t prev, .wrLockLeaf stk offset offset)
  | .isSafe stk lock current =>
    let ind := current.fgoe key
    if current.keyBuffSize < 2 * L ∨ ind < current.keyBuffSize ∧ current.keyBuff ind = key then
      some (s, .writeLeaf lock (current.btnodeAddKeyValue key value))
    else some (s, .whileUnsafe ⟨stk, lock, current, INVALID_OFFSET, key⟩)
  | .writeLeaf lock current => some (s.writeNode current, .unLock lock)
  | .unLock lock => some (s.unLock t lock, .ret)
  | .whileUnsafe v =>
    if v.current.keyBuffSize = 2 * L then
      if v.current.btnodeFlag ROOT_NODE then some (s, .addRootRight v)
      else
        match v.stk with
        | [] => some (s, .topOfEmpty)
        | parentOffset :: stk => some (s, .wrLockParent { v with stk := stk } parentOffset)
    else
      let current := v.current.btnodeAddKeyChild v.keyToAdd v.nodeToAdd
      some (s, .writeParent { v with current := current })
  | .wrLockParent v parentOffset =>
    (s.wrLock t parentOffset).map fun s => (s, .readParent v parentOffset)
  | .readParent v parentOffset =>
    (s.file.readNode parentOffset fresh).map fun parent =>
      if parent.right ≠ INVALID_OFFSET ∧ parent.highKey ≤ v.keyToAdd then
        (s, .unLockParent v parentOffset parent.right)
      else (s, .addNode v parentOffset parent)
  | .unLockParent v parentOffset right =>
    some (s.unLock t parentOffset, .wrLockParent v right)
  | .addNode v parentOffset parent =>
    let (rightOffset, file) := s.file.addNode
    let (left, right) := v.split key value rightOffset fresh
    some ({ s with file := file }, .writeLeft v parentOffset parent left right)
  | .writeLeft v parentOffset parent left right =>
    some (s.writeNode left, .writeRight v parentOffset parent left right)
  | .writeRight v parentOffset parent left right =>
    some (s.writeNode right, .unLockChild v.lock (v.next parentOffset parent left right))
  | .unLockChild prev v => some (s.unLock t prev, .whileUnsafe v)
  | .writeParent v => some (s.writeNode v.current, .unLock v.lock)
  | .addRootRight v =>
    let (rightOffset, file) := s.file.addNode
    let (left, right) := v.split key value rightOffset fresh
    some ({ s with file := file }, .writeRootLeft v left right)
  | .writeRootLeft v left right => some (s.writeNode left, .writeRootRight v left right)
  | .writeRootRight v left right => some (s.writeNode right, .addRoot v left right)
  | .addRoot v left right =>
    let (rootOffset, file) := s.file.addNode
    some ({ s with file := file }, .wrLockRoot v left right rootOffset)
  | .wrLockRoot v left right rootOffset =>
    (s.wrLock t rootOffset).map fun s => (s, .setRootOffset v left right rootOffset)
  | .setRootOffset v left right rootOffset =>
    some ({ s with file := s.file.setRootOffset rootOffset }, .writeRoot v left right rootOffset)
  | .writeRoot v left right rootOffset =>
    some (s.writeNode (.newRoot rootOffset left.highKey left.self right.self fresh),
      .unLockOldRoot v.lock rootOffset)
  | .unLockOldRoot lock rootOffset => some (s.unLock t lock, .unLockRoot rootOffset)
  | .unLockRoot rootOffset => some (s.unLock t rootOffset, .ret)
  | .topOfEmpty | .ret => none

end WritePc

/-- Where a call of `read` is; `atLeaf` says which of its two loops it is in. -/
inductive ReadPc (L : Nat)
  | getRootOffset
  | rdLock (atLeaf : Bool) (offset : Offset)
  | readNode (atLeaf : Bool) (offset : Offset)
  | whileNotLeaf (lock : Offset) (current : BTNode L)
  | whileRight (lock : Offset) (current : BTNode L)
  | unLockPrev (atLeaf : Bool) (prev offset : Offset)
  | unLock (lock : Offset) (res : Value)
  | ret (res : Value)

namespace ReadPc

/-- One step of `read(key)` in thread `t`. -/
def step (key : Key) (t : Tid) (fresh : Memory) (s : Store L) :
    ReadPc L → Option (Store L × ReadPc L)
  | .getRootOffset => some (s, .rdLock false s.file.root)
  | .rdLock atLeaf offset => (s.rdLock t offset).map fun s => (s, .readNode atLeaf offset)
  | .readNode atLeaf offset =>
    (s.file.readNode offset fresh).map fun current =>
      (s, if atLeaf then .whileRight offset current else .whileNotLeaf offset current)
  | .whileNotLeaf lock current =>
    if current.btnodeFlag LEAF_NODE then some (s, .whileRight lock current)
    else
      let offset := current.btnodeChildByKey key
      if offset = INVALID_OFFSET then some (s, .unLockPrev false lock current.right)
      else some (s, .unLockPrev false lock offset)
  | .whileRight lock current =>
    if current.right ≠ INVALID_OFFSET ∧ current.highKey < key then
      some (s, .unLockPrev true lock current.right)
    else some (s, .unLock lock (current.btnodeValueByKey key))
  | .unLockPrev atLeaf prev offset => some (s.unLock t prev, .rdLock atLeaf offset)
  | .unLock lock res => some (s.unLock t lock, .ret res)
  | .ret _ => none

end ReadPc

inductive Op
  | write (key : Key) (value : Value)
  | read (key : Key)
  deriving DecidableEq

inductive Job (L : Nat)
  | write (key : Key) (value : Value) (pc : WritePc L)
  | read (key : Key) (pc : ReadPc L)

/-- A call begins. -/
def Op.call : Op → Job L
  | .write key value => .write key value .getRootOffset
  | .read key => .read key .getRootOffset

/-- A thread with the calls it has yet to make, the one it is in and those that have returned, a
`read` with its value. -/
structure Thread (L : Nat) where
  todo : List Op
  job : Option (Job L) := none
  done : List (Op × Option Value) := []

def Thread.step (th : Thread L) (t : Tid) (fresh : Memory) (s : Store L) :
    Option (Store L × Thread L) :=
  match th.job with
  | none =>
    match th.todo with
    | [] => none
    | op :: todo => some (s, { th with todo := todo, job := some op.call })
  | some (.write key value .ret) =>
    some (s, { th with job := none, done := th.done ++ [(.write key value, none)] })
  | some (.write key value pc) =>
    (pc.step key value t fresh s).map fun (s, pc) =>
      (s, { th with job := some (.write key value pc) })
  | some (.read key (.ret res)) =>
    some (s, { th with job := none, done := th.done ++ [(.read key, some res)] })
  | some (.read key pc) =>
    (pc.step key t fresh s).map fun (s, pc) => (s, { th with job := some (.read key pc) })

structure System (L : Nat) where
  store : Store L
  thread : Tid → Thread L

/-- The thread that takes the step and the memory that a `malloc` of the step returns. -/
abbrev Act := Tid × Memory

namespace System

def step (s : System L) (a : Act) : Option (System L) :=
  ((s.thread a.1).step a.1 a.2 s.store).map fun (store, th) =>
    { store := store, thread := Function.update s.thread a.1 th }

/-- An empty service file, and every thread with the calls it is to make. -/
def init (L : Nat) (program : Tid → List Op) : System L where
  store := { file := .createEmptyServiceFile L, lock := fun _ => {} }
  thread t := { todo := program t }

end System

end TiPI.BLinkTree
