import TiPI.BLinkTree.Locks
import TiPI.BLinkTree.Split

/-!
# What a thread knows at each place of its call

The copies of nodes in a thread's variables are the tree's nodes, its stack leads from its node up
to the level of the root it began at, and what it is about to add has its place. `skip` allows that
a value is not stored, `m` is the level of the root at which the call began.
-/

namespace TiPI.BLinkTree

variable {L : Nat} {T T' : Tree} {file file' : ServiceFile L} {key : Key} {value : Value}
  {skip : Prop} {m : Nat}

/-! ### What is the thread's own -/

namespace WritePc

/-- Offsets the thread has from `addNode` that are not in the tree yet. -/
def reserved : WritePc L → Set Offset
  | .writeLeft _ _ _ _ right | .writeRight _ _ _ _ right | .writeRootLeft _ _ right
  | .writeRootRight _ _ right | .addRoot _ _ right => {right.self}
  | .wrLockRoot _ _ right rootOffset | .setRootOffset _ _ right rootOffset =>
    {right.self, rootOffset}
  | _ => ∅

/-- The node of the tree that the thread is to list. -/
def orphans : WritePc L → Set Offset
  | .whileUnsafe v | .wrLockParent v _ | .readParent v _ | .unLockParent v _ _ | .addNode v _ _
  | .writeLeft v _ _ _ _ | .writeRight v _ _ _ _ | .unLockChild _ v | .writeParent v
  | .addRootRight v | .writeRootLeft v _ _ | .writeRootRight v _ _ | .addRoot v _ _
  | .wrLockRoot v _ _ _ | .setRootOffset v _ _ _ => v.orphan
  | _ => ∅

/-- Nodes that the file has otherwise than the tree: a split is half written. -/
def dirty : WritePc L → Set Offset
  | .writeRight v _ _ _ _ | .writeRootRight v _ _ | .addRoot v _ _ | .wrLockRoot v _ _ _
  | .setRootOffset v _ _ _ => {v.lock}
  | .writeRoot _ _ _ rootOffset => {rootOffset}
  | _ => ∅

end WritePc

namespace Thread

def reserved (th : Thread L) : Set Offset :=
  match th.job with
  | some (.write _ _ pc) => pc.reserved
  | _ => ∅

def orphans (th : Thread L) : Set Offset :=
  match th.job with
  | some (.write _ _ pc) => pc.orphans
  | _ => ∅

def dirty (th : Thread L) : Set Offset :=
  match th.job with
  | some (.write _ _ pc) => pc.dirty
  | _ => ∅

end Thread

lemma WritePc.dirty_subset (pc : WritePc L) : ∀ o ∈ pc.dirty, o ∈ pc.writeLocks := by
  cases pc with
  | writeRight | writeRootRight | addRoot | wrLockRoot | setRootOffset | writeRoot =>
    rintro o rfl
    simp [writeLocks]
  | _ => exact fun o ho => ho.elim

/-! ### The assertions -/

/-- The stack of a call at level `l`: one node for each level up to `m`. -/
def Stack (T : Tree) (key : Key) (m : Nat) : Nat → List Offset → Prop
  | l, [] => l = m
  | l, p :: stk => (p ∈ T.nodes ∧ T.level p = l + 1 ∧ T.low p ≤ key) ∧ Stack T key m (l + 1) stk

/-- The call is on its way to the leaf of the key, or at it. -/
structure Descent (T : Tree) (key : Key) (m : Nat) (stk : List Offset) (o : Offset) : Prop where
  mem : o ∈ T.nodes
  low : T.low o ≤ key
  stack : Stack T key m (T.level o) stk

namespace SplitVars

variable {v : SplitVars L} {p r root : Offset} {parent left right : BTNode L}

/-- The current node of the loop, which is full when it is a leaf. -/
structure Ready (v : SplitVars L) (T : Tree) (key : Key) : Prop extends v.Here T key where
  root : v.current.btnodeFlag ROOT_NODE = true ↔ T.level v.lock = T.top
  full : T.level v.lock = 0 → v.current.keyBuffSize = 2 * L

/-- A full node below the top. -/
structure Splits (v : SplitVars L) (T : Tree) (key : Key) (m : Nat) : Prop
    extends v.Here T key where
  full : v.current.keyBuffSize = 2 * L
  stack : Stack T key m (T.level v.lock + 1) v.stk

/-- A node above that starts in front of what the split adds, so that it or a node to its right is
the parent. -/
structure Above (v : SplitVars L) (T : Tree) (p : Offset) : Prop where
  mem : p ∈ T.nodes
  level : T.level p = T.level v.lock + 1
  low : T.low p ≤ v.keyToAdd

structure Parent (v : SplitVars L) (T : Tree) (p : Offset) (parent : BTNode L) : Prop where
  mem : p ∈ T.nodes
  level : T.level p = T.level v.lock + 1
  covers : T.Covers p v.keyToAdd
  isNode : IsNode T p parent

/-- The nodes that `btnodeSplit` and the insertion have made. -/
structure Halves (v : SplitVars L) (key : Key) (value : Value) (left right : BTNode L) :
    Prop where
  copies : v.CopiesChildren
  eq : ∃ fresh, v.split key value right.self fresh = (left, right)

/-- The full root. -/
structure SplitsRoot (v : SplitVars L) (T : Tree) (key : Key) : Prop extends v.Here T key where
  full : v.current.keyBuffSize = 2 * L
  top : T.level v.lock = T.top

end SplitVars

/-- The new root above the halves of the old one, before it is written. -/
structure NewRoot (T : Tree) (root : Offset) (left right : BTNode L) : Prop where
  mem : root ∈ T.nodes
  pos : 0 < T.level root
  top : T.level root = T.top
  next : T.next root = none
  kids : T.kids root = {left.self, right.self}
  low : T.low left.self = T.low root
  high : left.highKey = T.low right.self
  front : T.low root < T.low right.self

def WritePc.Ok (T : Tree) (file : ServiceFile L) (key : Key) (value : Value) (skip : Prop)
    (m : Nat) : WritePc L → Prop
  | .getRootOffset | .unLock _ | .unLockOldRoot _ _ | .unLockRoot _ | .ret => True
  | .topOfEmpty => False
  | .rdLock stk offset | .readNode stk offset | .unLockPrev stk _ offset =>
    Descent T key m stk offset
  | .whileNotLeaf stk lock current => Descent T key m stk lock ∧ IsNode T lock current
  | .unLockLeaf stk lock offset | .wrLockLeaf stk lock offset | .readLeaf stk lock offset =>
    offset = lock ∧ Descent T key m stk lock ∧ T.level lock = 0
  | .unLockLeft stk _ offset => Descent T key m stk offset ∧ T.level offset = 0
  | .isSafe stk lock current =>
    Descent T key m stk lock ∧ T.level lock = 0 ∧ IsNode T lock current ∧ T.Covers lock key
  | .writeLeaf lock current =>
    lock ∈ T.nodes ∧ T.level lock = 0 ∧ T.Covers lock key ∧
      ∃ val, (skip ∨ val = value) ∧ IsNode (T.put lock key val) lock current
  | .whileUnsafe v => v.Ready T key ∧ Stack T key m (T.level v.lock) v.stk
  | .unLockChild _ v =>
    v.Ready T key ∧ Stack T key m (T.level v.lock) v.stk ∧ 0 < T.level v.lock
  | .wrLockParent v p | .readParent v p | .unLockParent v _ p => v.Splits T key m ∧ v.Above T p
  | .addNode v p parent => v.Splits T key m ∧ v.Parent T p parent
  | .writeLeft v p parent left right =>
    v.Splits T key m ∧ v.Parent T p parent ∧ v.Halves key value left right
  | .writeRight v p parent left right =>
    v.Splits T key m ∧ v.Parent T p parent ∧ v.Halves key value left right ∧
      file.node v.lock = some left
  | .writeParent v =>
    ∃ u : SplitVars L, u.Ready T key ∧ u.current.keyBuffSize < 2 * L ∧ 0 < T.level u.lock ∧
      v = { u with current := u.current.btnodeAddKeyChild u.keyToAdd u.nodeToAdd }
  | .addRootRight v => v.SplitsRoot T key
  | .writeRootLeft v left right => v.SplitsRoot T key ∧ v.Halves key value left right
  | .writeRootRight v left right =>
    v.SplitsRoot T key ∧ v.Halves key value left right ∧ file.node v.lock = some left
  | .addRoot v left right =>
    v.SplitsRoot T key ∧ v.Halves key value left right ∧ file.node v.lock = some left ∧
      file.node right.self = some right
  | .wrLockRoot v left right root | .setRootOffset v left right root =>
    v.SplitsRoot T key ∧ v.Halves key value left right ∧ file.node v.lock = some left ∧
      file.node right.self = some right ∧ right.self ≠ root
  | .writeRoot _ left right root => NewRoot T root left right

/-- A reader's node starts at or in front of the key. -/
def ReadPc.Ok (T : Tree) (key : Key) : ReadPc L → Prop
  | .getRootOffset | .unLock _ _ | .ret _ => True
  | .rdLock atLeaf o | .readNode atLeaf o | .unLockPrev atLeaf _ o =>
    o ∈ T.nodes ∧ T.low o ≤ key ∧ (atLeaf = true → T.level o = 0)
  | .whileNotLeaf lock current => lock ∈ T.nodes ∧ T.low lock ≤ key ∧ IsNode T lock current
  | .whileRight lock current =>
    lock ∈ T.nodes ∧ T.low lock ≤ key ∧ T.level lock = 0 ∧ IsNode T lock current

def Thread.Ok (T : Tree) (file : ServiceFile L) (skip : Prop) (m : Nat) (th : Thread L) : Prop :=
  match th.job with
  | none => True
  | some (.write key value pc) => pc.Ok T file key value skip m
  | some (.read key pc) => pc.Ok T key

/-! ### What other threads cannot disturb -/

/-- The tree and the file as a thread sees them change that holds the locks `held` and owns the
offsets `own`. -/
structure Undisturbed (T T' : Tree) (file file' : ServiceFile L) (held : Offset → Prop)
    (own : Set Offset) : Prop where
  grows : T.Grows T'
  agree : ∀ o ∈ T.nodes, held o → T.AgreeAt T' o
  root : ∀ o ∈ T.nodes, held o → (T'.level o = T'.top ↔ T.level o = T.top)
  node : ∀ o ∈ T.nodes, held o → file'.node o = file.node o
  own : ∀ o ∈ own, file'.node o = file.node o

lemma Stack.grows (hg : T.Grows T') {l : Nat} {stk : List Offset} (h : Stack T key m l stk) :
    Stack T' key m l stk := by
  induction stk generalizing l with
  | nil => exact h
  | cons p stk ih =>
    obtain ⟨⟨hp, hlevel, hlow⟩, hstk⟩ := h
    exact ⟨⟨hg.mem p hp, by rw [hg.level p hp, hlevel], by rwa [hg.low p hp]⟩, ih hstk⟩

/-- The stack has a node for each level from the call's node to the root it began at. -/
lemma Stack.length {l : Nat} {stk : List Offset} (h : Stack T key m l stk) :
    l + stk.length = m := by
  induction stk generalizing l with
  | nil => exact h
  | cons p stk ih =>
    have := ih h.2
    rw [List.length_cons]
    omega

lemma Descent.grows {stk : List Offset} {o : Offset} (hg : T.Grows T')
    (h : Descent T key m stk o) : Descent T' key m stk o where
  mem := hg.mem o h.mem
  low := by rw [hg.low o h.mem]; exact h.low
  stack := by rw [hg.level o h.mem]; exact h.stack.grows hg

lemma IsNode.congr {o : Offset} {node : BTNode L} (h : IsNode T o node) (ha : T.AgreeAt T' o)
    (hroot : T'.level o = T'.top ↔ T.level o = T.top) : IsNode T' o node :=
  ⟨h.toLayout.congr ha, h.root.trans hroot.symm⟩

namespace Undisturbed

variable {held : Offset → Prop} {own : Set Offset} (hu : Undisturbed T T' file file' held own)

include hu

lemma isNode {o : Offset} {node : BTNode L} (ho : o ∈ T.nodes) (hh : held o)
    (h : IsNode T o node) : IsNode T' o node :=
  h.congr (hu.agree o ho hh) (hu.root o ho hh)

variable {v : SplitVars L} {p : Offset} {parent left right : BTNode L}

lemma here (hh : held v.lock) (h : v.Here T key) : v.Here T' key :=
  h.congr hu.grows (hu.agree _ h.mem hh)

lemma ready (hh : held v.lock) (h : v.Ready T key) : v.Ready T' key where
  toHere := hu.here hh h.toHere
  root := h.root.trans (hu.root _ h.mem hh).symm
  full h0 := h.full ((hu.grows.level _ h.mem).symm.trans h0)

lemma splits (hh : held v.lock) (h : v.Splits T key m) : v.Splits T' key m where
  toHere := hu.here hh h.toHere
  full := h.full
  stack := by rw [hu.grows.level _ h.mem]; exact h.stack.grows hu.grows

lemma splitsRoot (hh : held v.lock) (h : v.SplitsRoot T key) : v.SplitsRoot T' key where
  toHere := hu.here hh h.toHere
  full := h.full
  top := (hu.root _ h.mem hh).2 h.top

lemma above (hv : v.lock ∈ T.nodes) (h : v.Above T p) : v.Above T' p where
  mem := hu.grows.mem p h.mem
  level := by rw [hu.grows.level p h.mem, hu.grows.level _ hv, h.level]
  low := by rw [hu.grows.low p h.mem]; exact h.low

lemma parentOf (hv : v.lock ∈ T.nodes) (hh : held p) (h : v.Parent T p parent) :
    v.Parent T' p parent where
  mem := hu.grows.mem p h.mem
  level := by rw [hu.grows.level p h.mem, hu.grows.level _ hv, h.level]
  covers := (hu.agree p h.mem hh).covers_iff.2 h.covers
  isNode := hu.isNode h.mem hh h.isNode

lemma newRoot (hh : held p) (h : NewRoot T p left right) : NewRoot T' p left right := by
  have ha := hu.agree p h.mem hh
  have hleft : left.self ∈ T.kids p := h.kids ▸ .inl rfl
  have hright : right.self ∈ T.kids p := h.kids ▸ .inr rfl
  exact
    { mem := hu.grows.mem p h.mem
      pos := ha.level ▸ h.pos
      top := (hu.root p h.mem hh).2 h.top
      next := ha.next.trans h.next
      kids := ha.kids.trans h.kids
      low := by rw [ha.kids_low _ hleft, ha.low, h.low]
      high := by rw [ha.kids_low _ hright, h.high]
      front := by
        rw [ha.low, ha.kids_low _ hright]
        exact h.front }

lemma writeLeaf {o : Offset} {node : BTNode L} {val : Value} (ho : o ∈ T.nodes) (hh : held o)
    (h : IsNode (T.put o key val) o node) : IsNode (T'.put o key val) o node := by
  have ha := hu.agree o ho hh
  refine h.congr ⟨ha.level, ha.low, ha.next, ha.kids, ?_, ha.next_low, ha.kids_low⟩
    (hu.root o ho hh)
  show (T'.put o key val).value o = (T.put o key val).value o
  simp [BLink.put, ha.value]

end Undisturbed

lemma WritePc.Ok.stable {pc : WritePc L} (h : pc.Ok T file key value skip m)
    (hu : Undisturbed T T' file file' (fun o => o ∈ pc.writeLocks ∨ o ∈ pc.readLocks)
      pc.reserved) : pc.Ok T' file' key value skip m := by
  cases pc with
  | getRootOffset | unLock | unLockOldRoot | unLockRoot | ret => trivial
  | topOfEmpty => exact h
  | rdLock | readNode | unLockPrev => exact Descent.grows hu.grows h
  | whileNotLeaf stk lock current =>
    exact ⟨h.1.grows hu.grows, hu.isNode h.1.mem (.inr (by simp [readLocks])) h.2⟩
  | unLockLeaf | wrLockLeaf | readLeaf =>
    exact ⟨h.1, h.2.1.grows hu.grows, by rw [hu.grows.level _ h.2.1.mem]; exact h.2.2⟩
  | unLockLeft => exact ⟨h.1.grows hu.grows, by rw [hu.grows.level _ h.1.mem]; exact h.2⟩
  | isSafe stk lock current =>
    obtain ⟨hd, h0, hnode, hcov⟩ := h
    have hh : lock ∈ (isSafe stk lock current).writeLocks ∨
        lock ∈ (isSafe stk lock current).readLocks := .inl (by simp [writeLocks])
    exact ⟨hd.grows hu.grows, (hu.grows.level _ hd.mem).trans h0, hu.isNode hd.mem hh hnode,
      (hu.agree _ hd.mem hh).covers_iff.2 hcov⟩
  | writeLeaf lock current =>
    obtain ⟨hmem, h0, hcov, val, hval, hnode⟩ := h
    have hh : lock ∈ (writeLeaf lock current).writeLocks ∨
        lock ∈ (writeLeaf lock current).readLocks := .inl (by simp [writeLocks])
    exact ⟨hu.grows.mem _ hmem, (hu.grows.level _ hmem).trans h0,
      (hu.agree _ hmem hh).covers_iff.2 hcov, val, hval, hu.writeLeaf hmem hh hnode⟩
  | whileUnsafe =>
    exact ⟨hu.ready (.inl (by simp [writeLocks])) h.1,
      by rw [hu.grows.level _ h.1.mem]; exact h.2.grows hu.grows⟩
  | unLockChild =>
    refine ⟨hu.ready (.inl (by simp [writeLocks])) h.1, ?_⟩
    rw [hu.grows.level _ h.1.mem]
    exact ⟨h.2.1.grows hu.grows, h.2.2⟩
  | wrLockParent | readParent | unLockParent =>
    exact ⟨hu.splits (.inl (by simp [writeLocks])) h.1, hu.above h.1.mem h.2⟩
  | addNode =>
    exact ⟨hu.splits (.inl (by simp [writeLocks])) h.1,
      hu.parentOf h.1.mem (.inl (by simp [writeLocks])) h.2⟩
  | writeLeft =>
    exact ⟨hu.splits (.inl (by simp [writeLocks])) h.1,
      hu.parentOf h.1.mem (.inl (by simp [writeLocks])) h.2.1, h.2.2⟩
  | writeRight =>
    refine ⟨hu.splits (.inl (by simp [writeLocks])) h.1,
      hu.parentOf h.1.mem (.inl (by simp [writeLocks])) h.2.1, h.2.2.1, ?_⟩
    rw [hu.node _ h.1.mem (.inl (by simp [writeLocks]))]
    exact h.2.2.2
  | writeParent v =>
    obtain ⟨u, hready, hroom, hpos, rfl⟩ := h
    exact ⟨u, hu.ready (.inl (by simp [writeLocks])) hready, hroom,
      by rwa [hu.grows.level _ hready.mem], rfl⟩
  | addRootRight => exact hu.splitsRoot (.inl (by simp [writeLocks])) h
  | writeRootLeft => exact ⟨hu.splitsRoot (.inl (by simp [writeLocks])) h.1, h.2⟩
  | writeRootRight =>
    refine ⟨hu.splitsRoot (.inl (by simp [writeLocks])) h.1, h.2.1, ?_⟩
    rw [hu.node _ h.1.mem (.inl (by simp [writeLocks]))]
    exact h.2.2
  | addRoot v left right =>
    refine ⟨hu.splitsRoot (.inl (by simp [writeLocks])) h.1, h.2.1, ?_, ?_⟩
    · rw [hu.node _ h.1.mem (.inl (by simp [writeLocks]))]
      exact h.2.2.1
    · rw [hu.own right.self rfl]
      exact h.2.2.2
  | wrLockRoot v left right | setRootOffset v left right =>
    refine ⟨hu.splitsRoot (.inl (by simp [writeLocks])) h.1, h.2.1, ?_, ?_, h.2.2.2.2⟩
    · rw [hu.node _ h.1.mem (.inl (by simp [writeLocks]))]
      exact h.2.2.1
    · rw [hu.own right.self (.inl rfl)]
      exact h.2.2.2.1
  | writeRoot => exact hu.newRoot (.inl (by simp [writeLocks])) h

lemma ReadPc.Ok.stable {pc : ReadPc L} (h : pc.Ok T key)
    (hu : Undisturbed T T' file file' (fun o => o ∈ pc.readLocks) ∅) : pc.Ok T' key := by
  cases pc with
  | getRootOffset | unLock | ret => trivial
  | rdLock | readNode | unLockPrev =>
    obtain ⟨hmem, hlow, h0⟩ := h
    exact ⟨hu.grows.mem _ hmem, by rwa [hu.grows.low _ hmem],
      fun hl => (hu.grows.level _ hmem).trans (h0 hl)⟩
  | whileNotLeaf lock current =>
    obtain ⟨hmem, hlow, hnode⟩ := h
    exact ⟨hu.grows.mem _ hmem, by rwa [hu.grows.low _ hmem],
      hu.isNode hmem (by simp [readLocks]) hnode⟩
  | whileRight lock current =>
    obtain ⟨hmem, hlow, h0, hnode⟩ := h
    exact ⟨hu.grows.mem _ hmem, by rwa [hu.grows.low _ hmem], (hu.grows.level _ hmem).trans h0,
      hu.isNode hmem (by simp [readLocks]) hnode⟩

lemma Thread.Ok.stable {th : Thread L} (h : th.Ok T file skip m)
    (hu : Undisturbed T T' file file' (fun o => o ∈ th.writeLocks ∨ o ∈ th.readLocks)
      th.reserved) : th.Ok T' file' skip m := by
  unfold Thread.Ok at h ⊢
  split at h
  · trivial
  · next key value pc hjob =>
    refine WritePc.Ok.stable h ?_
    simpa [Thread.writeLocks, Thread.readLocks, Thread.reserved, hjob] using hu
  · next key pc hjob =>
    have hu' : Undisturbed T T' file file' (fun o => o ∈ pc.readLocks) ∅ := by
      simpa [Thread.writeLocks, Thread.readLocks, Thread.reserved, hjob] using hu
    exact ReadPc.Ok.stable h hu'

end TiPI.BLinkTree
