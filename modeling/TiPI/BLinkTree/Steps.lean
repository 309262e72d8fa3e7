import TiPI.BLinkTree.Tree
import Mathlib.Order.Nat
import Mathlib.Tactic.SplitIfs

/-!
# What a step of a thread is

`WriteCase` and `ReadCase` have one constructor for each branch of `write` and `read`,
`ThreadCase` adds the beginning and the end of a call. The lemmas named `step_cases` are the
inversions of the step functions.
-/

namespace TiPI.BLinkTree

variable {L : Nat}

inductive WriteCase (key : Key) (value : Value) (t : Tid) (fresh : Memory) (s : Store L) :
    WritePc L → Store L → WritePc L → Prop
  | getRootOffset : WriteCase key value t fresh s .getRootOffset s (.rdLock [] s.file.root)
  | rdLock (stk : List Offset) (offset : Offset) (s' : Store L)
      (free : s.rdLock t offset = some s') :
      WriteCase key value t fresh s (.rdLock stk offset) s' (.readNode stk offset)
  | readNode (stk : List Offset) (offset : Offset) (current : BTNode L)
      (read : s.file.readNode offset fresh = some current) :
      WriteCase key value t fresh s (.readNode stk offset) s (.whileNotLeaf stk offset current)
  | atLeaf (stk : List Offset) (lock : Offset) (current : BTNode L)
      (leaf : current.btnodeFlag LEAF_NODE = true) :
      WriteCase key value t fresh s (.whileNotLeaf stk lock current) s
        (.unLockLeaf stk lock current.self)
  | noChild (stk : List Offset) (lock : Offset) (current : BTNode L)
      (inner : current.btnodeFlag LEAF_NODE = false)
      (child : current.btnodeChildByKey key = INVALID_OFFSET) (pc : WritePc L) :
      WriteCase key value t fresh s (.whileNotLeaf stk lock current) s pc
  | toChild (stk : List Offset) (lock : Offset) (current : BTNode L)
      (inner : current.btnodeFlag LEAF_NODE = false)
      (child : current.btnodeChildByKey key ≠ INVALID_OFFSET) :
      WriteCase key value t fresh s (.whileNotLeaf stk lock current) s
        (.unLockPrev (current.self :: stk) lock (current.btnodeChildByKey key))
  | unLockPrev (stk : List Offset) (prev offset : Offset) :
      WriteCase key value t fresh s (.unLockPrev stk prev offset) (s.unLock t prev)
        (.rdLock stk offset)
  | unLockLeaf (stk : List Offset) (lock tmpOffset : Offset) :
      WriteCase key value t fresh s (.unLockLeaf stk lock tmpOffset) (s.unLock t lock)
        (.wrLockLeaf stk lock tmpOffset)
  | wrLockLeaf (stk : List Offset) (lock offset : Offset) (s' : Store L)
      (free : s.wrLock t lock = some s') :
      WriteCase key value t fresh s (.wrLockLeaf stk lock offset) s' (.readLeaf stk lock offset)
  | leafToRight (stk : List Offset) (lock offset : Offset) (current : BTNode L)
      (read : s.file.readNode offset fresh = some current)
      (right : current.right ≠ INVALID_OFFSET) (high : current.highKey ≤ key) :
      WriteCase key value t fresh s (.readLeaf stk lock offset) s
        (.unLockLeft stk lock current.right)
  | readLeaf (stk : List Offset) (lock offset : Offset) (current : BTNode L)
      (read : s.file.readNode offset fresh = some current)
      (here : current.right = INVALID_OFFSET ∨ key < current.highKey) :
      WriteCase key value t fresh s (.readLeaf stk lock offset) s (.isSafe stk lock current)
  | unLockLeft (stk : List Offset) (prev offset : Offset) :
      WriteCase key value t fresh s (.unLockLeft stk prev offset) (s.unLock t prev)
        (.wrLockLeaf stk offset offset)
  | isSafe (stk : List Offset) (lock : Offset) (current : BTNode L)
      (room : current.keyBuffSize < 2 * L ∨
        current.fgoe key < current.keyBuffSize ∧ current.keyBuff (current.fgoe key) = key) :
      WriteCase key value t fresh s (.isSafe stk lock current) s
        (.writeLeaf lock (current.btnodeAddKeyValue key value))
  | unsafeLeaf (stk : List Offset) (lock : Offset) (current : BTNode L)
      (full : 2 * L ≤ current.keyBuffSize) :
      WriteCase key value t fresh s (.isSafe stk lock current) s
        (.whileUnsafe ⟨stk, lock, current, INVALID_OFFSET, key⟩)
  | writeLeaf (lock : Offset) (current : BTNode L) :
      WriteCase key value t fresh s (.writeLeaf lock current) (s.writeNode current) (.unLock lock)
  | unLock (lock : Offset) :
      WriteCase key value t fresh s (.unLock lock) (s.unLock t lock) .ret
  | splitRoot (v : SplitVars L) (full : v.current.keyBuffSize = 2 * L)
      (root : v.current.btnodeFlag ROOT_NODE = true) :
      WriteCase key value t fresh s (.whileUnsafe v) s (.addRootRight v)
  | topOfEmpty (v : SplitVars L) (full : v.current.keyBuffSize = 2 * L)
      (root : v.current.btnodeFlag ROOT_NODE = false) (empty : v.stk = []) :
      WriteCase key value t fresh s (.whileUnsafe v) s .topOfEmpty
  | popParent (v : SplitVars L) (full : v.current.keyBuffSize = 2 * L)
      (root : v.current.btnodeFlag ROOT_NODE = false) (parentOffset : Offset) (stk : List Offset)
      (top : v.stk = parentOffset :: stk) :
      WriteCase key value t fresh s (.whileUnsafe v) s
        (.wrLockParent { v with stk := stk } parentOffset)
  | hasRoom (v : SplitVars L) (room : v.current.keyBuffSize ≠ 2 * L) :
      WriteCase key value t fresh s (.whileUnsafe v) s (.writeParent
        { v with current := v.current.btnodeAddKeyChild v.keyToAdd v.nodeToAdd })
  | wrLockParent (v : SplitVars L) (parentOffset : Offset) (s' : Store L)
      (free : s.wrLock t parentOffset = some s') :
      WriteCase key value t fresh s (.wrLockParent v parentOffset) s' (.readParent v parentOffset)
  | parentToRight (v : SplitVars L) (parentOffset : Offset) (parent : BTNode L)
      (read : s.file.readNode parentOffset fresh = some parent)
      (right : parent.right ≠ INVALID_OFFSET) (high : parent.highKey ≤ v.keyToAdd) :
      WriteCase key value t fresh s (.readParent v parentOffset) s
        (.unLockParent v parentOffset parent.right)
  | readParent (v : SplitVars L) (parentOffset : Offset) (parent : BTNode L)
      (read : s.file.readNode parentOffset fresh = some parent)
      (here : parent.right = INVALID_OFFSET ∨ v.keyToAdd < parent.highKey) :
      WriteCase key value t fresh s (.readParent v parentOffset) s (.addNode v parentOffset parent)
  | unLockParent (v : SplitVars L) (parentOffset right : Offset) :
      WriteCase key value t fresh s (.unLockParent v parentOffset right) (s.unLock t parentOffset)
        (.wrLockParent v right)
  | addNode (v : SplitVars L) (parentOffset : Offset) (parent : BTNode L) :
      WriteCase key value t fresh s (.addNode v parentOffset parent)
        { s with file := { s.file with free := s.file.free + NODE_SIZE L } }
        (.writeLeft v parentOffset parent (v.split key value s.file.free fresh).1
          (v.split key value s.file.free fresh).2)
  | writeLeft (v : SplitVars L) (parentOffset : Offset) (parent left right : BTNode L) :
      WriteCase key value t fresh s (.writeLeft v parentOffset parent left right)
        (s.writeNode left) (.writeRight v parentOffset parent left right)
  | writeRight (v : SplitVars L) (parentOffset : Offset) (parent left right : BTNode L) :
      WriteCase key value t fresh s (.writeRight v parentOffset parent left right)
        (s.writeNode right) (.unLockChild v.lock (v.next parentOffset parent left right))
  | unLockChild (prev : Offset) (v : SplitVars L) :
      WriteCase key value t fresh s (.unLockChild prev v) (s.unLock t prev) (.whileUnsafe v)
  | writeParent (v : SplitVars L) :
      WriteCase key value t fresh s (.writeParent v) (s.writeNode v.current) (.unLock v.lock)
  | addRootRight (v : SplitVars L) :
      WriteCase key value t fresh s (.addRootRight v)
        { s with file := { s.file with free := s.file.free + NODE_SIZE L } }
        (.writeRootLeft v (v.split key value s.file.free fresh).1
          (v.split key value s.file.free fresh).2)
  | writeRootLeft (v : SplitVars L) (left right : BTNode L) :
      WriteCase key value t fresh s (.writeRootLeft v left right) (s.writeNode left)
        (.writeRootRight v left right)
  | writeRootRight (v : SplitVars L) (left right : BTNode L) :
      WriteCase key value t fresh s (.writeRootRight v left right) (s.writeNode right)
        (.addRoot v left right)
  | addRoot (v : SplitVars L) (left right : BTNode L) :
      WriteCase key value t fresh s (.addRoot v left right)
        { s with file := { s.file with free := s.file.free + NODE_SIZE L } }
        (.wrLockRoot v left right s.file.free)
  | wrLockRoot (v : SplitVars L) (left right : BTNode L) (rootOffset : Offset) (s' : Store L)
      (free : s.wrLock t rootOffset = some s') :
      WriteCase key value t fresh s (.wrLockRoot v left right rootOffset) s'
        (.setRootOffset v left right rootOffset)
  | setRootOffset (v : SplitVars L) (left right : BTNode L) (rootOffset : Offset) :
      WriteCase key value t fresh s (.setRootOffset v left right rootOffset)
        { s with file := s.file.setRootOffset rootOffset } (.writeRoot v left right rootOffset)
  | writeRoot (v : SplitVars L) (left right : BTNode L) (rootOffset : Offset) :
      WriteCase key value t fresh s (.writeRoot v left right rootOffset)
        (s.writeNode (.newRoot rootOffset left.highKey left.self right.self fresh))
        (.unLockOldRoot v.lock rootOffset)
  | unLockOldRoot (lock rootOffset : Offset) :
      WriteCase key value t fresh s (.unLockOldRoot lock rootOffset) (s.unLock t lock)
        (.unLockRoot rootOffset)
  | unLockRoot (rootOffset : Offset) :
      WriteCase key value t fresh s (.unLockRoot rootOffset) (s.unLock t rootOffset) .ret

namespace WritePc

variable {key : Key} {value : Value} {t : Tid} {fresh : Memory} {s s' : Store L}
  {pc pc' : WritePc L}

lemma step_cases (h : pc.step key value t fresh s = some (s', pc')) :
    WriteCase key value t fresh s pc s' pc' := by
  cases pc with
  | getRootOffset =>
    obtain ⟨rfl, rfl⟩ : s = s' ∧ _ = pc' := by simpa [step] using h
    exact .getRootOffset
  | rdLock stk offset =>
    obtain ⟨s₁, hs, rfl, rfl⟩ : ∃ s₁, s.rdLock t offset = some s₁ ∧ s₁ = s' ∧ _ = pc' := by
      simpa [step] using h
    exact .rdLock stk offset _ hs
  | readNode stk offset =>
    obtain ⟨current, hread, rfl, rfl⟩ :
        ∃ current, s.file.readNode offset fresh = some current ∧ s = s' ∧ _ = pc' := by
      simpa [step] using h
    exact .readNode stk offset current hread
  | whileNotLeaf stk lock current =>
    by_cases hleaf : current.btnodeFlag LEAF_NODE = true
    · obtain ⟨rfl, rfl⟩ : s = s' ∧ _ = pc' := by simpa [step, hleaf] using h
      exact .atLeaf stk lock current hleaf
    · rw [Bool.not_eq_true] at hleaf
      by_cases hchild : current.btnodeChildByKey key = INVALID_OFFSET
      · have hs : s = s' := by
          simp only [step, hleaf, Bool.false_eq_true, if_false, hchild, if_true] at h
          split_ifs at h
          · exact congrArg Prod.fst (Option.some.inj h)
          · exact congrArg Prod.fst (Option.some.inj h)
        exact hs ▸ .noChild stk lock current hleaf hchild pc'
      · obtain ⟨rfl, rfl⟩ : s = s' ∧ _ = pc' := by simpa [step, hleaf, hchild] using h
        exact .toChild stk lock current hleaf hchild
  | unLockPrev stk prev offset =>
    obtain ⟨rfl, rfl⟩ : _ = s' ∧ _ = pc' := by simpa [step] using h
    exact .unLockPrev stk prev offset
  | unLockLeaf stk lock tmpOffset =>
    obtain ⟨rfl, rfl⟩ : _ = s' ∧ _ = pc' := by simpa [step] using h
    exact .unLockLeaf stk lock tmpOffset
  | wrLockLeaf stk lock offset =>
    obtain ⟨s₁, hs, rfl, rfl⟩ : ∃ s₁, s.wrLock t lock = some s₁ ∧ s₁ = s' ∧ _ = pc' := by
      simpa [step] using h
    exact .wrLockLeaf stk lock offset _ hs
  | readLeaf stk lock offset =>
    obtain ⟨current, hread, hcase⟩ : ∃ current, s.file.readNode offset fresh = some current ∧
        (if current.right ≠ INVALID_OFFSET ∧ current.highKey ≤ key then
          (s, unLockLeft stk lock current.right)
        else (s, isSafe stk lock current)) = (s', pc') := by
      simpa [step] using h
    split_ifs at hcase with hright
    · obtain ⟨rfl, rfl⟩ := Prod.mk.inj hcase
      exact .leafToRight stk lock offset current hread hright.1 hright.2
    · obtain ⟨rfl, rfl⟩ := Prod.mk.inj hcase
      refine .readLeaf stk lock offset current hread ?_
      rwa [not_and_or, not_not, not_le] at hright
  | unLockLeft stk prev offset =>
    obtain ⟨rfl, rfl⟩ : _ = s' ∧ _ = pc' := by simpa [step] using h
    exact .unLockLeft stk prev offset
  | isSafe stk lock current =>
    simp only [step] at h
    split_ifs at h with hroom
    · obtain ⟨rfl, rfl⟩ := Prod.mk.inj (Option.some.inj h)
      exact .isSafe stk lock current hroom
    · obtain ⟨rfl, rfl⟩ := Prod.mk.inj (Option.some.inj h)
      exact .unsafeLeaf stk lock current (not_lt.1 fun hlt => hroom (.inl hlt))
  | writeLeaf lock current =>
    obtain ⟨rfl, rfl⟩ : _ = s' ∧ _ = pc' := by simpa [step] using h
    exact .writeLeaf lock current
  | unLock lock =>
    obtain ⟨rfl, rfl⟩ : _ = s' ∧ _ = pc' := by simpa [step] using h
    exact .unLock lock
  | whileUnsafe v =>
    by_cases hfull : v.current.keyBuffSize = 2 * L
    · by_cases hroot : v.current.btnodeFlag ROOT_NODE = true
      · obtain ⟨rfl, rfl⟩ : s = s' ∧ _ = pc' := by simpa [step, hfull, hroot] using h
        exact .splitRoot v hfull hroot
      · rw [Bool.not_eq_true] at hroot
        cases hstk : v.stk with
        | nil =>
          obtain ⟨rfl, rfl⟩ : s = s' ∧ _ = pc' := by simpa [step, hfull, hroot, hstk] using h
          exact .topOfEmpty v hfull hroot hstk
        | cons parentOffset stk =>
          obtain ⟨rfl, rfl⟩ : s = s' ∧ _ = pc' := by simpa [step, hfull, hroot, hstk] using h
          exact .popParent v hfull hroot parentOffset stk hstk
    · obtain ⟨rfl, rfl⟩ : s = s' ∧ _ = pc' := by simpa [step, hfull] using h
      exact .hasRoom v hfull
  | wrLockParent v parentOffset =>
    obtain ⟨s₁, hs, rfl, rfl⟩ :
        ∃ s₁, s.wrLock t parentOffset = some s₁ ∧ s₁ = s' ∧ _ = pc' := by simpa [step] using h
    exact .wrLockParent v parentOffset _ hs
  | readParent v parentOffset =>
    obtain ⟨parent, hread, hcase⟩ :
        ∃ parent, s.file.readNode parentOffset fresh = some parent ∧
        (if parent.right ≠ INVALID_OFFSET ∧ parent.highKey ≤ v.keyToAdd then
          (s, unLockParent v parentOffset parent.right)
        else (s, addNode v parentOffset parent)) = (s', pc') := by
      simpa [step] using h
    split_ifs at hcase with hright
    · obtain ⟨rfl, rfl⟩ := Prod.mk.inj hcase
      exact .parentToRight v parentOffset parent hread hright.1 hright.2
    · obtain ⟨rfl, rfl⟩ := Prod.mk.inj hcase
      refine .readParent v parentOffset parent hread ?_
      rwa [not_and_or, not_not, not_le] at hright
  | unLockParent v parentOffset right =>
    obtain ⟨rfl, rfl⟩ : _ = s' ∧ _ = pc' := by simpa [step] using h
    exact .unLockParent v parentOffset right
  | addNode v parentOffset parent =>
    obtain ⟨rfl, rfl⟩ : _ = s' ∧ _ = pc' := by simpa [step, ServiceFile.addNode] using h
    exact .addNode v parentOffset parent
  | writeLeft v parentOffset parent left right =>
    obtain ⟨rfl, rfl⟩ : _ = s' ∧ _ = pc' := by simpa [step] using h
    exact .writeLeft v parentOffset parent left right
  | writeRight v parentOffset parent left right =>
    obtain ⟨rfl, rfl⟩ : _ = s' ∧ _ = pc' := by simpa [step] using h
    exact .writeRight v parentOffset parent left right
  | unLockChild prev v =>
    obtain ⟨rfl, rfl⟩ : _ = s' ∧ _ = pc' := by simpa [step] using h
    exact .unLockChild prev v
  | writeParent v =>
    obtain ⟨rfl, rfl⟩ : _ = s' ∧ _ = pc' := by simpa [step] using h
    exact .writeParent v
  | addRootRight v =>
    obtain ⟨rfl, rfl⟩ : _ = s' ∧ _ = pc' := by simpa [step, ServiceFile.addNode] using h
    exact .addRootRight v
  | writeRootLeft v left right =>
    obtain ⟨rfl, rfl⟩ : _ = s' ∧ _ = pc' := by simpa [step] using h
    exact .writeRootLeft v left right
  | writeRootRight v left right =>
    obtain ⟨rfl, rfl⟩ : _ = s' ∧ _ = pc' := by simpa [step] using h
    exact .writeRootRight v left right
  | addRoot v left right =>
    obtain ⟨rfl, rfl⟩ : _ = s' ∧ _ = pc' := by simpa [step, ServiceFile.addNode] using h
    exact .addRoot v left right
  | wrLockRoot v left right rootOffset =>
    obtain ⟨s₁, hs, rfl, rfl⟩ :
        ∃ s₁, s.wrLock t rootOffset = some s₁ ∧ s₁ = s' ∧ _ = pc' := by simpa [step] using h
    exact .wrLockRoot v left right rootOffset _ hs
  | setRootOffset v left right rootOffset =>
    obtain ⟨rfl, rfl⟩ : _ = s' ∧ _ = pc' := by simpa [step] using h
    exact .setRootOffset v left right rootOffset
  | writeRoot v left right rootOffset =>
    obtain ⟨rfl, rfl⟩ : _ = s' ∧ _ = pc' := by simpa [step] using h
    exact .writeRoot v left right rootOffset
  | unLockOldRoot lock rootOffset =>
    obtain ⟨rfl, rfl⟩ : _ = s' ∧ _ = pc' := by simpa [step] using h
    exact .unLockOldRoot lock rootOffset
  | unLockRoot rootOffset =>
    obtain ⟨rfl, rfl⟩ : _ = s' ∧ _ = pc' := by simpa [step] using h
    exact .unLockRoot rootOffset
  | topOfEmpty => simp [step] at h
  | ret => simp [step] at h

end WritePc

inductive ReadCase (key : Key) (t : Tid) (fresh : Memory) (s : Store L) :
    ReadPc L → Store L → ReadPc L → Prop
  | getRootOffset : ReadCase key t fresh s .getRootOffset s (.rdLock false s.file.root)
  | rdLock (atLeaf : Bool) (offset : Offset) (s' : Store L)
      (free : s.rdLock t offset = some s') :
      ReadCase key t fresh s (.rdLock atLeaf offset) s' (.readNode atLeaf offset)
  | readNode (offset : Offset) (current : BTNode L)
      (read : s.file.readNode offset fresh = some current) :
      ReadCase key t fresh s (.readNode false offset) s (.whileNotLeaf offset current)
  | readLeaf (offset : Offset) (current : BTNode L)
      (read : s.file.readNode offset fresh = some current) :
      ReadCase key t fresh s (.readNode true offset) s (.whileRight offset current)
  | atLeaf (lock : Offset) (current : BTNode L) (leaf : current.btnodeFlag LEAF_NODE = true) :
      ReadCase key t fresh s (.whileNotLeaf lock current) s (.whileRight lock current)
  | noChild (lock : Offset) (current : BTNode L)
      (inner : current.btnodeFlag LEAF_NODE = false)
      (child : current.btnodeChildByKey key = INVALID_OFFSET) (pc : ReadPc L) :
      ReadCase key t fresh s (.whileNotLeaf lock current) s pc
  | toChild (lock : Offset) (current : BTNode L)
      (inner : current.btnodeFlag LEAF_NODE = false)
      (child : current.btnodeChildByKey key ≠ INVALID_OFFSET) :
      ReadCase key t fresh s (.whileNotLeaf lock current) s
        (.unLockPrev false lock (current.btnodeChildByKey key))
  | toRight (lock : Offset) (current : BTNode L) (right : current.right ≠ INVALID_OFFSET)
      (high : current.highKey < key) :
      ReadCase key t fresh s (.whileRight lock current) s (.unLockPrev true lock current.right)
  | whileRight (lock : Offset) (current : BTNode L)
      (here : current.right = INVALID_OFFSET ∨ key ≤ current.highKey) :
      ReadCase key t fresh s (.whileRight lock current) s
        (.unLock lock (current.btnodeValueByKey key))
  | unLockPrev (atLeaf : Bool) (prev offset : Offset) :
      ReadCase key t fresh s (.unLockPrev atLeaf prev offset) (s.unLock t prev)
        (.rdLock atLeaf offset)
  | unLock (lock : Offset) (res : Value) :
      ReadCase key t fresh s (.unLock lock res) (s.unLock t lock) (.ret res)

namespace ReadPc

variable {key : Key} {t : Tid} {fresh : Memory} {s s' : Store L} {pc pc' : ReadPc L}

lemma step_cases (h : pc.step key t fresh s = some (s', pc')) :
    ReadCase key t fresh s pc s' pc' := by
  cases pc with
  | getRootOffset =>
    obtain ⟨rfl, rfl⟩ : s = s' ∧ _ = pc' := by simpa [step] using h
    exact .getRootOffset
  | rdLock atLeaf offset =>
    obtain ⟨s₁, hs, rfl, rfl⟩ : ∃ s₁, s.rdLock t offset = some s₁ ∧ s₁ = s' ∧ _ = pc' := by
      simpa [step] using h
    exact .rdLock atLeaf offset _ hs
  | readNode atLeaf offset =>
    obtain ⟨current, hread, rfl, rfl⟩ :
        ∃ current, s.file.readNode offset fresh = some current ∧ s = s' ∧ _ = pc' := by
      simpa [step] using h
    cases atLeaf with
    | false => exact .readNode offset current hread
    | true => exact .readLeaf offset current hread
  | whileNotLeaf lock current =>
    by_cases hleaf : current.btnodeFlag LEAF_NODE = true
    · obtain ⟨rfl, rfl⟩ : s = s' ∧ _ = pc' := by simpa [step, hleaf] using h
      exact .atLeaf lock current hleaf
    · rw [Bool.not_eq_true] at hleaf
      by_cases hchild : current.btnodeChildByKey key = INVALID_OFFSET
      · obtain ⟨rfl, -⟩ : s = s' ∧ _ = pc' := by simpa [step, hleaf, hchild] using h
        exact .noChild lock current hleaf hchild pc'
      · obtain ⟨rfl, rfl⟩ : s = s' ∧ _ = pc' := by simpa [step, hleaf, hchild] using h
        exact .toChild lock current hleaf hchild
  | whileRight lock current =>
    simp only [step] at h
    split_ifs at h with hright
    · obtain ⟨rfl, rfl⟩ := Prod.mk.inj (Option.some.inj h)
      exact .toRight lock current hright.1 hright.2
    · obtain ⟨rfl, rfl⟩ := Prod.mk.inj (Option.some.inj h)
      refine .whileRight lock current ?_
      rwa [not_and_or, not_not, not_lt] at hright
  | unLockPrev atLeaf prev offset =>
    obtain ⟨rfl, rfl⟩ : _ = s' ∧ _ = pc' := by simpa [step] using h
    exact .unLockPrev atLeaf prev offset
  | unLock lock res =>
    obtain ⟨rfl, rfl⟩ : _ = s' ∧ _ = pc' := by simpa [step] using h
    exact .unLock lock res
  | ret res => simp [step] at h

end ReadPc

inductive ThreadCase (t : Tid) (fresh : Memory) (s : Store L) (th : Thread L) :
    Store L → Thread L → Prop
  | call (op : Op) (todo : List Op) (idle : th.job = none) (next : th.todo = op :: todo) :
      ThreadCase t fresh s th s { th with todo := todo, job := some op.call }
  | writeRet (key : Key) (value : Value) (job : th.job = some (.write key value .ret)) :
      ThreadCase t fresh s th s
        { th with job := none, done := th.done ++ [(.write key value, none)] }
  | readRet (key : Key) (res : Value) (job : th.job = some (.read key (.ret res))) :
      ThreadCase t fresh s th s
        { th with job := none, done := th.done ++ [(.read key, some res)] }
  | write (key : Key) (value : Value) (pc pc' : WritePc L) (s' : Store L)
      (job : th.job = some (.write key value pc))
      (step : WriteCase key value t fresh s pc s' pc') :
      ThreadCase t fresh s th s' { th with job := some (.write key value pc') }
  | read (key : Key) (pc pc' : ReadPc L) (s' : Store L) (job : th.job = some (.read key pc))
      (step : ReadCase key t fresh s pc s' pc') :
      ThreadCase t fresh s th s' { th with job := some (.read key pc') }

lemma Thread.step_cases {th th' : Thread L} {t : Tid} {fresh : Memory} {s s' : Store L}
    (h : th.step t fresh s = some (s', th')) : ThreadCase t fresh s th s' th' := by
  unfold Thread.step at h
  split at h
  · next hjob =>
    split at h
    · simp at h
    · next op todo htodo =>
      obtain ⟨rfl, rfl⟩ := Prod.mk.inj (Option.some.inj h)
      exact .call op todo hjob htodo
  · next key value hjob =>
    obtain ⟨rfl, rfl⟩ := Prod.mk.inj (Option.some.inj h)
    exact .writeRet key value hjob
  · next key value pc _ hjob =>
    obtain ⟨⟨s₁, pc'⟩, hstep, heq⟩ := Option.map_eq_some_iff.1 h
    obtain ⟨rfl, rfl⟩ := Prod.mk.inj heq
    exact .write key value pc pc' _ hjob (WritePc.step_cases hstep)
  · next key res hjob =>
    obtain ⟨rfl, rfl⟩ := Prod.mk.inj (Option.some.inj h)
    exact .readRet key res hjob
  · next key pc _ hjob =>
    obtain ⟨⟨s₁, pc'⟩, hstep, heq⟩ := Option.map_eq_some_iff.1 h
    obtain ⟨rfl, rfl⟩ := Prod.mk.inj heq
    exact .read key pc pc' _ hjob (ReadPc.step_cases hstep)

lemma System.step_cases {s s' : System L} {a : Act} (h : s.step a = some s') :
    ∃ store th, ThreadCase a.1 a.2 s.store (s.thread a.1) store th ∧
      s' = { store := store, thread := Function.update s.thread a.1 th } := by
  obtain ⟨⟨store, th⟩, hstep, rfl⟩ := Option.map_eq_some_iff.1 h
  exact ⟨store, th, Thread.step_cases hstep, rfl⟩

end TiPI.BLinkTree
