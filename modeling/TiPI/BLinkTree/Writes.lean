import TiPI.BLinkTree.Invariant

/-!
# The steps of `write` keep the invariant

Each step is a case of its own: what its place asserts is enough for the next one. A write takes
effect in the step that writes the leaf, the right half of a leaf, or the offset of a new root.
-/

namespace TiPI.BLinkTree

variable {L : Nat} {T T' : Tree} {M M' : Key → Option Value} {m m' : Tid → Nat} {skip : Prop}
  {key : Key} {value : Value}

/-! ### What a step must not do -/

/-- `fgoe` goes past the live keys and finds the key in the slot behind them. -/
def BTNode.DeadHit (node : BTNode L) (key : Key) : Prop :=
  node.fgoe key = node.keyBuffSize ∧ node.keyBuff node.keyBuffSize = key

instance (node : BTNode L) (key : Key) : Decidable (node.DeadHit key) :=
  inferInstanceAs (Decidable (_ ∧ _))

/-- A full leaf that has the key with another value: `btnodeAddKeyValue` leaves it as it is. -/
def BTNode.DropsValue (node : BTNode L) (key : Key) (value : Value) : Prop :=
  node.keyBuffSize = 2 * L ∧ (node.fgoe key < node.keyBuffSize ∧
    node.keyBuff (node.fgoe key) = key) ∧ node.valueBuff (node.fgoe key) ≠ value

instance (node : BTNode L) (key : Key) (value : Value) : Decidable (node.DropsValue key value) :=
  inferInstanceAs (Decidable (_ ∧ _ ∧ _))

namespace WritePc

/-- The node a child is about to be taken from. -/
def descent : WritePc L → Option (BTNode L)
  | .whileNotLeaf _ _ current => some current
  | _ => none

/-- The variables of a pass that is about to split its node. -/
def splitting : WritePc L → Option (SplitVars L)
  | .addNode v _ _ | .addRootRight v => some v
  | _ => none

/-- The variables of a pass that begins. -/
def climbing : WritePc L → Option (SplitVars L)
  | .whileUnsafe v => some v
  | _ => none

/-- The leaf a value is about to be put into. -/
def storing : WritePc L → Option (BTNode L)
  | .isSafe _ _ current => some current
  | _ => none

/-- No child comes from a dead slot. -/
def Live (key : Key) (pc : WritePc L) : Prop :=
  ∀ node ∈ pc.descent, node.btnodeFlag LEAF_NODE = false → ¬node.DeadHit key

/-- No split of an internal node loses children. -/
def Copies (pc : WritePc L) : Prop := ∀ v ∈ pc.splitting, v.CopiesChildren

/-- No parent is taken from an empty stack. -/
def HasParent (pc : WritePc L) : Prop :=
  ∀ v ∈ pc.climbing, v.current.keyBuffSize = 2 * L → v.current.btnodeFlag ROOT_NODE = false →
    v.stk ≠ []

/-- No value is dropped. -/
def Stores (key : Key) (value : Value) (pc : WritePc L) : Prop :=
  ∀ node ∈ pc.storing, ¬node.DropsValue key value

/-- The write has taken effect. -/
def stored : WritePc L → Bool
  | .whileUnsafe v | .wrLockParent v _ | .readParent v _ | .unLockParent v _ _ | .addNode v _ _
  | .writeLeft v _ _ _ _ | .writeRight v _ _ _ _ | .addRootRight v | .writeRootLeft v _ _
  | .writeRootRight v _ _ | .addRoot v _ _ | .wrLockRoot v _ _ _ | .setRootOffset v _ _ _ =>
    !v.current.btnodeFlag LEAF_NODE
  | .unLock _ | .unLockChild _ _ | .writeParent _ | .writeRoot _ _ _ _ | .unLockOldRoot _ _
  | .unLockRoot _ | .topOfEmpty | .ret => true
  | _ => false

def begins : WritePc L → Bool
  | .getRootOffset => true
  | _ => false

def grows : WritePc L → Bool
  | .setRootOffset _ _ _ _ => true
  | _ => false

end WritePc

/-- What a step of `write` does to the tree's height, to the map, and to the height of the tree in
which the call began. -/
structure WriteEffect (skip : Prop) (key : Key) (value : Value) (pc pc' : WritePc L) (T T' : Tree)
    (M M' : Key → Option Value) (k k' : Nat) : Prop where
  top : T'.top = if pc.grows then T.top + 1 else T.top
  map : pc'.stored = pc.stored ∧ M' = M ∨ pc.stored = false ∧ pc'.stored = true ∧
    ∃ val, (skip ∨ val = value) ∧ M' = Function.update M key (some val)
  depth : k' = if pc.begins then T.top else k

/-- A step that brings in the halves of a leaf is the one in which the write takes effect. -/
lemma WritePc.map_of_halves {pc pc' : WritePc L} {v : SplitVars L}
    (hpc : pc.stored = !v.current.btnodeFlag LEAF_NODE) (hpc' : pc'.stored = true) :
    pc'.stored = pc.stored ∧ v.stores key value M = M ∨ pc.stored = false ∧ pc'.stored = true ∧
      ∃ val, (skip ∨ val = value) ∧ v.stores key value M = Function.update M key (some val) := by
  unfold SplitVars.stores
  by_cases hleaf : v.current.btnodeFlag LEAF_NODE = true
  · rw [if_pos hleaf]
    exact .inr ⟨by rw [hpc, hleaf]; rfl, hpc', value, .inr rfl, rfl⟩
  · rw [if_neg hleaf]
    exact .inl ⟨by rw [hpc, hpc', Bool.eq_false_iff.2 hleaf]; rfl, rfl⟩

namespace System

variable {s : System L} {t : Tid} {pc pc' : WritePc L}

lemma Inv.okWrite (h : Inv skip s T M m)
    (hjob : (s.thread t).job = some (.write key value pc)) :
    pc.Ok T s.store.file key value skip (m t) := by
  have := h.ok t
  rwa [Thread.Ok, hjob] at this

lemma writeLocks_eq (hjob : (s.thread t).job = some (.write key value pc)) :
    (s.thread t).writeLocks = pc.writeLocks := by
  rw [Thread.writeLocks, hjob]

lemma readLocks_eq (hjob : (s.thread t).job = some (.write key value pc)) :
    (s.thread t).readLocks = pc.readLocks := by
  rw [Thread.readLocks, hjob]

lemma owned_eq (hjob : (s.thread t).job = some (.write key value pc)) :
    (s.thread t).reserved = pc.reserved ∧ (s.thread t).orphans = pc.orphans ∧
      (s.thread t).dirty = pc.dirty := by
  simp [Thread.reserved, Thread.orphans, Thread.dirty, hjob]

/-- The step changes neither what the thread owns nor whether the write has taken effect. -/
structure Idle (pc pc' : WritePc L) : Prop where
  reserved : pc'.reserved = pc.reserved
  orphans : pc'.orphans = pc.orphans
  dirty : pc'.dirty = pc.dirty
  stored : pc'.stored = pc.stored
  grows : pc.grows = false
  begins : pc.begins = false

/-- What a step of `write` comes to. -/
def Advances (skip : Prop) (s : System L) (t : Tid) (T : Tree) (M : Key → Option Value) (k : Nat)
    (key : Key) (value : Value) (pc pc' : WritePc L) (file : ServiceFile L) : Prop :=
  ∃ T' M' k', T'.Represents M' ∧
    Preserves skip s t T T' k' file { s.thread t with job := some (.write key value pc') } ∧
    WriteEffect skip key value pc pc' T T' M M' k k'

/-- The step keeps the tree and the map. -/
lemma Preserves.advances {k : Nat} {file : ServiceFile L} (h : Inv skip s T M m)
    (hp : Preserves skip s t T T k file { s.thread t with job := some (.write key value pc') })
    (hstored : pc'.stored = pc.stored) (hgrows : pc.grows = false) (hbegins : pc.begins = false) :
    Advances skip s t T M k key value pc pc' file := by
  refine ⟨T, M, k, h.represents, hp, ⟨?_, .inl ⟨hstored, rfl⟩, ?_⟩⟩
  · rw [hgrows]
    rfl
  · rw [hbegins]
    rfl

lemma Inv.dirty_mem (h : Inv skip s T M m)
    (hjob : (s.thread t).job = some (.write key value pc)) : ∀ o ∈ pc.dirty, o ∈ T.nodes := by
  have hok := h.okWrite hjob
  cases pc with
  | writeRight | writeRootRight | addRoot | wrLockRoot | setRootOffset =>
    rintro o rfl
    exact hok.1.mem
  | writeRoot =>
    rintro o rfl
    exact hok.mem
  | _ => exact fun o ho => ho.elim

/-- A step of `write` that touches neither the tree nor the file. -/
lemma Preserves.quiet (h : Inv skip s T M m)
    (hjob : (s.thread t).job = some (.write key value pc)) {k : Nat} {file : ServiceFile L}
    (hfile : file = s.store.file) (hreserved : pc'.reserved = pc.reserved)
    (horphans : pc'.orphans = pc.orphans) (hdirty : pc'.dirty = pc.dirty)
    (hok : pc'.Ok T s.store.file key value skip k) :
    Preserves skip s t T T k file
      { s.thread t with job := some (.write key value pc') } := by
  subst hfile
  obtain ⟨hr, ho, hd⟩ := owned_eq hjob
  refine .same h rfl le_rfl (fun _ _ _ => rfl) (fun o ho' => ?_) (fun o ho' => ?_) (fun o ho' => ?_)
    (horphans.trans ho.symm) hok
  · have ho' : o ∈ pc.dirty := hdirty ▸ ho'
    exact ⟨h.dirty_mem hjob o ho', writeLocks_eq hjob ▸ pc.dirty_subset o ho'⟩
  · rw [hd, ← hdirty] at ho'
    exact ho'
  · left
    rw [hr, ← hreserved]
    exact ho'

lemma Advances.quiet (h : Inv skip s T M m)
    (hjob : (s.thread t).job = some (.write key value pc)) {k : Nat} {file : ServiceFile L}
    (hidle : Idle pc pc') (hfile : file = s.store.file)
    (hok : pc'.Ok T s.store.file key value skip k) :
    Advances skip s t T M k key value pc pc' file :=
  (Preserves.quiet h hjob hfile hidle.reserved hidle.orphans hidle.dirty hok).advances h
    hidle.stored hidle.grows hidle.begins

/-! ### Reading nodes -/

lemma Inv.readNode (h : Inv skip s T M m) {o : Offset} {fresh : Memory} {node : BTNode L}
    (ho : o ∈ T.nodes) (hheld : o ∈ (s.thread t).writeLocks ∨ o ∈ (s.thread t).readLocks)
    (hdirty : (s.thread t).dirty = ∅) (hread : s.store.file.readNode o fresh = some node) :
    IsNode T o node :=
  IsNode.readNode (h.node_of_held ho hheld (by simp [hdirty])) hread

/-- The node to the right starts at or in front of a key that is sent there. -/
lemma Inv.right (h : Inv skip s T M m) {o : Offset} {node : BTNode L} {k : Key} (ho : o ∈ T.nodes)
    (hnode : IsNode T o node) (hright : node.right ≠ INVALID_OFFSET) (hk : node.highKey ≤ k) :
    node.right ∈ T.nodes ∧ T.level node.right = T.level o ∧ T.low node.right ≤ k := by
  have hnext := hnode.next_eq hright
  exact ⟨h.valid.next_mem o ho _ hnext, h.valid.next_level o ho _ hnext,
    (hnode.high _ hnext).symm.trans_le hk⟩

/-- The child of an internal node that a live slot gives. -/
lemma Inv.child (h : Inv skip s T M m) {o : Offset} {node : BTNode L} {k : Key} (ho : o ∈ T.nodes)
    (hlow : T.low o ≤ k) (hnode : IsNode T o node) (hinner : node.btnodeFlag LEAF_NODE = false)
    (hlive : ¬node.DeadHit k) :
    node.btnodeChildByKey k ∈ T.kids o ∧ T.low (node.btnodeChildByKey k) ≤ k ∧
      ∀ d ∈ T.kids o, T.low d ≤ k → T.low d ≤ T.low (node.btnodeChildByKey k) := by
  have h0 : 0 < T.level o := by
    refine Nat.pos_of_ne_zero fun h0 => ?_
    rw [hnode.leaf.2 h0] at hinner
    exact Bool.noConfusion hinner
  exact hnode.child h0 hlow (fun c hc => (h.valid.kid_covered o ho c hc).1) hlive

lemma WritePc.Ok.not_strays (h : Inv skip s T M m)
    (hjob : (s.thread t).job = some (.write key value pc)) (hlive : pc.Live key)
    (hparent : pc.HasParent) : ¬pc.Strays key := by
  have hok := h.okWrite hjob
  cases pc with
  | whileNotLeaf stk lock current =>
    rintro ⟨hinner, hchild⟩
    obtain ⟨hd, hnode⟩ := hok
    have hkid := (h.child hd.mem hd.low hnode hinner (hlive current rfl hinner)).1
    exact h.ne_invalid (h.valid.kid_mem _ hd.mem _ hkid) hchild
  | whileUnsafe v => exact fun hs => hparent v rfl hs.1 hs.2.1 hs.2.2
  | _ => exact id

/-! ### On the way to the leaf -/

variable {stk : List Offset} {o p r : Offset} {current : BTNode L}

lemma descent_toChild (h : Inv skip s T M m) {k : Nat} (hd : Descent T key k stk o)
    (hnode : IsNode T o current) (hinner : current.btnodeFlag LEAF_NODE = false)
    (hlive : ¬current.DeadHit key) :
    Descent T key k (current.self :: stk) (current.btnodeChildByKey key) := by
  obtain ⟨hkid, hlow, -⟩ := h.child hd.mem hd.low hnode hinner hlive
  have hlevel := h.valid.kid_level o hd.mem _ hkid
  refine ⟨h.valid.kid_mem o hd.mem _ hkid, hlow, ?_⟩
  rw [hnode.self]
  exact ⟨⟨hd.mem, hlevel, hd.low⟩, hlevel ▸ hd.stack⟩

lemma descent_toRight (h : Inv skip s T M m) {k : Nat} (hd : Descent T key k stk o)
    (hnode : IsNode T o current) (hright : current.right ≠ INVALID_OFFSET)
    (hhigh : current.highKey ≤ key) : Descent T key k stk current.right := by
  obtain ⟨hmem, hlevel, hlow⟩ := h.right hd.mem hnode hright hhigh
  exact ⟨hmem, hlow, hlevel ▸ hd.stack⟩

/-- The node that `btnodeAddKeyValue` makes of a leaf: a full one keeps the value it has. -/
lemma isNode_addKeyValue (hnode : IsNode T o current) (h0 : T.level o = 0)
    (hroom : current.keyBuffSize < 2 * L ∨
      current.fgoe key < current.keyBuffSize ∧ current.keyBuff (current.fgoe key) = key)
    (hskip : skip ∨ ¬current.DropsValue key value) :
    ∃ val, (skip ∨ val = value) ∧
      IsNode (T.put o key val) o (current.btnodeAddKeyValue key value) := by
  by_cases hlt : current.keyBuffSize < 2 * L
  · refine ⟨value, .inr rfl, hnode.addKeyValue h0 hlt, ?_⟩
    have hflag : (current.btnodeAddKeyValue key value).btnodeFlag ROOT_NODE =
        current.btnodeFlag ROOT_NODE := by
      rw [BTNode.btnodeFlag, (BTNode.addKeyValue_frame current key value).2.2, BTNode.btnodeFlag]
    rw [hflag]
    exact hnode.root
  · have hfull : current.keyBuffSize = 2 * L := le_antisymm hnode.size_le (not_lt.1 hlt)
    have hhit := hroom.resolve_left hlt
    have hval : T.value o key = some (current.valueBuff (current.fgoe key)) :=
      (hnode.value h0 _ _).2 ⟨_, hhit.1, hhit.2, rfl⟩
    have hput : T.put o key (current.valueBuff (current.fgoe key)) = T := by
      simp [BLink.put, ← hval]
    refine ⟨current.valueBuff (current.fgoe key), ?_, ?_⟩
    · refine hskip.imp_right fun hno => ?_
      by_contra hne
      exact hno ⟨hfull, hhit, hne⟩
    · rw [BTNode.addKeyValue_full hfull, hput]
      exact hnode

/-- A full leaf that does not have the key enters the split loop. -/
lemma ready_leaf (h0 : T.level o = 0) (ho : o ∈ T.nodes) (hnode : IsNode T o current)
    (hcov : T.Covers o key) (hfull : 2 * L ≤ current.keyBuffSize) :
    (⟨stk, o, current, INVALID_OFFSET, key⟩ : SplitVars L).Ready T key where
  mem := ho
  layout := hnode.toLayout
  covers := hcov
  coversAdd := hcov
  leaf _ := rfl
  inner hpos := absurd h0 hpos.ne'
  side hpos := absurd h0 hpos.ne'
  root := hnode.root
  full _ := le_antisymm hnode.size_le hfull

/-! ### Up the stack -/

variable {v : SplitVars L} {parent left right : BTNode L} {k : Nat}

/-- The ancestor on the stack starts in front of what is to be added. -/
lemma splits_of_ready (h : Inv skip s T M m) (hv : v.Ready T key)
    (hfull : v.current.keyBuffSize = 2 * L) (hstk : Stack T key k (T.level v.lock) (p :: stk)) :
    ({ v with stk := stk } : SplitVars L).Splits T key k ∧
      ({ v with stk := stk } : SplitVars L).Above T p := by
  obtain ⟨⟨hp, hlevel, hlow⟩, hstk⟩ := hstk
  have hlow' := h.valid.low_above_le hp hv.mem hlevel hlow hv.covers
  exact ⟨⟨{ hv.toHere with }, hfull, hstk⟩, hp, hlevel, hlow'.trans hv.coversAdd.1⟩

lemma parent_of_above (h : Inv skip s T M m) (ha : v.Above T p) (hnode : IsNode T p parent)
    (hhere : parent.right = INVALID_OFFSET ∨ v.keyToAdd < parent.highKey) :
    v.Parent T p parent :=
  ⟨ha.mem, ha.level, hnode.covers (h.next_ne_invalid ha.mem) ha.low hhere, hnode⟩

lemma above_right (h : Inv skip s T M m) (ha : v.Above T p) (hnode : IsNode T p parent)
    (hright : parent.right ≠ INVALID_OFFSET) (hhigh : parent.highKey ≤ v.keyToAdd) :
    v.Above T parent.right := by
  obtain ⟨hmem, hlevel, hlow⟩ := h.right ha.mem hnode hright hhigh
  exact ⟨hmem, hlevel.trans ha.level, hlow⟩

lemma Halves.facts (hfull : v.current.keyBuffSize = 2 * L) (hh : v.Halves key value left right) :
    left.self = v.current.self ∧ left.highKey = v.current.keyBuff L ∧
      left.btnodeFlag ROOT_NODE = false ∧ right.btnodeFlag ROOT_NODE = false := by
  obtain ⟨fresh, heq⟩ := hh.eq
  obtain ⟨⟨hself, hhigh, hflag⟩, -, hflag'⟩ :=
    SplitVars.split_frame key value hfull right.self fresh
  rw [heq] at hself hhigh hflag hflag'
  exact ⟨hself, hhigh, BTNode.btnodeFlag_root hflag, BTNode.btnodeFlag_root hflag'⟩

/-! ### Writing nodes -/

/-- The first half of a split is written: the node is dirty from then on. -/
lemma Advances.writeHalf (h : Inv skip s T M m)
    (hjob : (s.thread t).job = some (.write key value pc)) {node : BTNode L}
    (hself : node.self ∈ T.nodes ∧ node.self ∈ pc.writeLocks ∧ pc'.dirty = {node.self} ∨
      node.self ∈ pc.reserved ∧ pc'.dirty = pc.dirty)
    (hkept : ∀ o ∈ pc.dirty, o ∈ pc'.dirty) (hreserved : pc'.reserved = pc.reserved)
    (horphans : pc'.orphans = pc.orphans)
    (hplain : pc'.stored = pc.stored ∧ pc.grows = false ∧ pc.begins = false)
    (hok : pc'.Ok T (s.store.writeNode node).file key value skip k) :
    Advances skip s t T M k key value pc pc' (s.store.writeNode node).file := by
  obtain ⟨hr, ho, hd⟩ := owned_eq hjob
  refine Preserves.advances h (.same h rfl le_rfl (fun o hres hdirty => ?_)
    (fun o hdirty => ?_) (fun o hdirty => ?_) (fun o hres => ?_) (horphans.trans ho.symm) hok)
    hplain.1 hplain.2.1 hplain.2.2
  · refine Function.update_of_ne ?_ _ _
    rintro rfl
    rcases hself with ⟨-, -, hset⟩ | ⟨hres', -⟩
    · exact hdirty (by show _ ∈ pc'.dirty; rw [hset]; rfl)
    · exact hres (hr ▸ hres')
  · have hdirty' : o ∈ pc'.dirty := hdirty
    rcases hself with ⟨hT, hw, hset⟩ | ⟨-, hset⟩
    · rw [hset] at hdirty'
      obtain rfl := hdirty'
      exact ⟨hT, writeLocks_eq hjob ▸ hw⟩
    · rw [hset] at hdirty'
      exact ⟨h.dirty_mem hjob o hdirty', writeLocks_eq hjob ▸ pc.dirty_subset o hdirty'⟩
  · exact hkept o (hd ▸ hdirty)
  · left
    rw [hr, ← hreserved]
    exact hres

/-- A new offset is reserved. -/
lemma Advances.addNode (h : Inv skip s T M m)
    (hjob : (s.thread t).job = some (.write key value pc))
    (hreserved : ∀ o ∈ pc'.reserved, o ∈ pc.reserved ∨ o = s.store.file.free)
    (horphans : pc'.orphans = pc.orphans) (hdirty : pc'.dirty = pc.dirty)
    (hplain : pc'.stored = pc.stored ∧ pc.grows = false ∧ pc.begins = false)
    (hok : pc'.Ok T { s.store.file with free := s.store.file.free + NODE_SIZE L } key value skip
      k) :
    Advances skip s t T M k key value pc pc'
      { s.store.file with free := s.store.file.free + NODE_SIZE L } := by
  obtain ⟨hr, ho, hd⟩ := owned_eq hjob
  refine Preserves.advances h (.same h rfl (Nat.le_add_right _ _) (fun _ _ _ => rfl)
    (fun o hd' => ?_) (fun o hd' => ?_) (fun o hres => ?_) (horphans.trans ho.symm) hok)
    hplain.1 hplain.2.1 hplain.2.2
  · have hd' : o ∈ pc.dirty := hdirty ▸ hd'
    exact ⟨h.dirty_mem hjob o hd', writeLocks_eq hjob ▸ pc.dirty_subset o hd'⟩
  · rw [hd, ← hdirty] at hd'
    exact hd'
  · rcases hreserved o hres with hres | rfl
    · exact .inl (hr ▸ hres)
    · refine .inr ⟨le_rfl, Nat.lt_add_of_pos_right ?_⟩
      unfold NODE_SIZE
      omega

/-- The last write of a call: the node it has locked. -/
lemma Preserves.finish (h : Inv skip s T M m)
    (hjob : (s.thread t).job = some (.write key value pc)) {node : BTNode L} (ho : o ∈ T.nodes)
    (hlocks : pc.writeLocks = [o]) (hres : pc.reserved = ∅) (hchg : T.ChangesAt T' o)
    (hnodes : T'.nodes = T.nodes) (htop : T'.top = T.top)
    (hvalid : T'.Valid (s.orphans \ pc.orphans)) (hnode : IsNode T' o node) :
    Preserves skip s t T T' k (s.store.writeNode node).file
      { s.thread t with job := some (.write key value (.unLock o)) } := by
  obtain ⟨hr, horph, -⟩ := owned_eq hjob
  have hw := (writeLocks_eq hjob).trans hlocks
  exact
    { changes := .of_changesAt hchg (by simp [hw]) fun x hx => .inl (hnodes ▸ hx)
      valid := by
        rw [horph, show Thread.orphans _ = ∅ from rfl, Set.union_empty]
        exact hvalid
      rootMem := hnodes ▸ h.rootMem
      rootTop := by
        rw [htop, ← h.rootTop]
        exact hchg.level _ h.rootMem
      free := le_rfl
      node := fun x hx _ => Function.update_of_ne (by
        rintro rfl
        exact hx ⟨hnode.self ▸ ho, by rw [hw, hnode.self]; simp⟩) _ _
      clean := fun x hx hxw _ => by
        obtain rfl : x = o := by simpa [hw, hr, hres] using hxw
        refine ⟨node, ?_, hnode⟩
        show Function.update s.store.file.node node.self (some node) x = some node
        rw [hnode.self, Function.update_self]
      dirty := fun x hx => hx.elim
      reserved := fun x hx => hx.elim
      orphans := fun x hx => hx.elim
      ok := trivial }

lemma Preserves.writeRight (h : Inv skip s T M m) (hL : 0 < L)
    (hjob : (s.thread t).job = some (.write key value (.writeRight v p parent left right)))
    (hv : v.Splits T key k) (hp : v.Parent T p parent) (hh : v.Halves key value left right)
    (hleft : s.store.file.node v.lock = some left) :
    Preserves skip s t T (v.evolve key value right.self T) k (s.store.writeNode right).file
      { s.thread t with
        job := some (.write key value (.unLockChild v.lock (v.next p parent left right))) } := by
  obtain ⟨hr, horph, -⟩ := owned_eq hjob
  have hw := writeLocks_eq hjob
  have hreserved := h.reserved t right.self (hr ▸ rfl)
  have hpne : p ≠ v.lock := by
    rintro rfl
    exact absurd hp.level (Nat.lt_succ_self _).ne
  have htop : T.level v.lock < T.top := by
    have := h.valid.level_le p hp.mem
    have := hp.level
    omega
  obtain ⟨hself, hhigh, hflag, hflag'⟩ := Halves.facts hv.full hh
  obtain ⟨fresh, heq⟩ := hh.eq
  obtain ⟨hnodes, hrlevel, hrlow, hevtop⟩ :=
    SplitVars.evolve_shape v key value right.self T
  have hvalid := hv.toHere.evolve_valid value h.valid hreserved.1 hL hv.full hh.copies
    htop
  have hchg := SplitVars.evolve_changesAt key value v h.valid
    hreserved.1
  obtain ⟨hlay, hlay'⟩ := hv.toHere.evolve_layout value h.valid hreserved.1 hL hv.full
    hh.copies fresh
  have hnext := hv.toHere.next value h.valid hreserved.1 hL hv.full hp.mem
    hp.isNode.toLayout hp.level hp.covers fresh
  rw [heq] at hlay hlay' hnext
  have hevlock := hchg.level _ hv.mem
  have hpagree := hchg.agree p hp.mem hpne
  have hproot := hchg.root p hp.mem hpne
  -- the orphan of the pass goes, the new right node comes
  have hparent : parent.btnodeFlag LEAF_NODE = false := by
    rw [← Bool.not_eq_true, hp.isNode.leaf, hp.level]
    omega
  have horphans : (v.next p parent left right).orphan = {right.self} := by
    show (if parent.btnodeFlag LEAF_NODE then (∅ : Set Offset) else {right.self}) = _
    rw [hparent]
    simp
  have hrorphan : right.self ∉ v.orphan := by
    unfold SplitVars.orphan
    split_ifs with hleaf
    · exact id
    · rintro hro
      have hmem := (hv.inner (hv.toHere.not_isLeaf.1 (Bool.not_eq_true _ ▸ hleaf))).1
      exact hreserved.1 (hro ▸ hmem)
  exact
    { changes := .of_changesAt hchg (by simp [hw, WritePc.writeLocks]) fun x hx => by
        rw [hnodes] at hx
        rcases hx with rfl | hx
        · exact .inr (hr ▸ rfl)
        · exact .inl hx
      valid := by
        rw [horph]
        show (v.evolve key value right.self T).Valid
          ((s.orphans \ v.orphan) ∪ (v.next p parent left right).orphan)
        rw [horphans, Set.union_singleton, ← Set.insert_sdiff_of_notMem _ hrorphan]
        exact hvalid
      rootMem := hnodes ▸ .inr h.rootMem
      rootTop := (hchg.level _ h.rootMem).trans (h.rootTop.trans hevtop.symm)
      free := le_rfl
      node := fun x _ hx => Function.update_of_ne (by
        rintro rfl
        exact hx (hr ▸ rfl)) _ _
      clean := fun x hx hxw _ => by
        have hx' : (x = p ∨ x = v.lock) ∨ x = right.self := by
          simpa [hw, hr, WritePc.writeLocks, WritePc.reserved] using hxw
        have hoff : ∀ {y}, y ∈ T.nodes → (s.store.writeNode right).file.node y =
            s.store.file.node y := fun hy =>
          Function.update_of_ne (ne_of_mem_of_not_mem hy hreserved.1) _ _
        rcases hx' with (rfl | rfl) | rfl
        · obtain ⟨node, hnode, hT⟩ := h.node_of_held (t := t) hp.mem
            (.inl (by simp [hw, WritePc.writeLocks]))
            (by simpa [owned_eq hjob, WritePc.dirty] using hpne)
          exact ⟨node, (hoff hp.mem).trans hnode, hT.congr hpagree hproot⟩
        · refine ⟨left, (hoff hv.mem).trans hleft, hlay, ?_⟩
          rw [hflag, hevlock, hevtop]
          simpa using htop.ne
        · refine ⟨right, Function.update_self .., hlay', ?_⟩
          rw [hflag', hrlevel, hevtop]
          simpa using htop.ne
      dirty := fun x hx => hx.elim
      reserved := fun x hx => hx.elim
      orphans := fun x hx => by
        rw [show Thread.orphans _ = (v.next p parent left right).orphan from rfl, horphans] at hx
        exact .inr (hr ▸ hx)
      ok := by
        refine ⟨⟨hnext, ?_, fun h0 => ?_⟩, ?_, ?_⟩
        · show parent.btnodeFlag ROOT_NODE = true ↔ _
          exact hp.isNode.root.trans hproot.symm
        · have : (v.evolve key value right.self T).level p = 0 := h0
          rw [hpagree.level, hp.level] at this
          omega
        · show Stack _ key k ((v.evolve key value right.self T).level p) v.stk
          rw [hpagree.level, hp.level]
          exact hv.stack.grows hchg.toGrows
        · show 0 < (v.evolve key value right.self T).level p
          rw [hpagree.level, hp.level]
          exact Nat.succ_pos _ }

lemma Preserves.setRootOffset (h : Inv skip s T M m) (hL : 0 < L)
    (hjob : (s.thread t).job = some (.write key value (.setRootOffset v left right p)))
    (hv : v.SplitsRoot T key) (hh : v.Halves key value left right)
    (hleft : s.store.file.node v.lock = some left)
    (hright : s.store.file.node right.self = some right) (hne : right.self ≠ p) :
    Preserves skip s t T (v.growRoot key value right.self p T) k (s.store.file.setRootOffset p)
      { s.thread t with job := some (.write key value (.writeRoot v left right p)) } := by
  obtain ⟨hr, horph, hd⟩ := owned_eq hjob
  have hw := writeLocks_eq hjob
  have hR := h.reserved t right.self (hr ▸ .inl rfl)
  have hP := h.reserved t p (hr ▸ .inr rfl)
  obtain ⟨hself, hhigh, hflag, hflag'⟩ := Halves.facts hv.full hh
  obtain ⟨fresh, heq⟩ := hh.eq
  have hchg := hv.toHere.growRoot_changesAt value h.valid hR.1 hP.1 hne hv.top
  obtain ⟨hmem, hlevel, hgrow, hnext, hkids, hlow⟩ :=
    hv.toHere.growRoot_root value h.valid hR.1 hP.1 hne hv.top
  obtain ⟨hlay, hlay'⟩ := hv.toHere.growRoot_layout value h.valid hR.1 hP.1 hne hv.top
    hL hv.full hh.copies fresh
  rw [heq] at hlay hlay'
  obtain ⟨hnodes, hrlevel, hrlow, -⟩ :=
    SplitVars.evolve_shape v key value right.self (T.grow v.lock p)
  have hlock : (v.growRoot key value right.self p T).level v.lock = T.top :=
    (hchg.level _ hv.mem).trans hv.top
  have hrtop : (v.growRoot key value right.self p T).level right.self = T.top :=
    hrlevel.trans ((BLink.grow_of_mem hP.1 hv.mem).1.trans hv.top)
  have hlockself : v.current.self = v.lock := hv.layout.self
  have hpw : p ∈ (s.thread t).writeLocks := by simp [hw, WritePc.writeLocks]
  exact
    { changes := .of_changesAt hchg (by simp [hw, WritePc.writeLocks]) fun x hx => by
        rw [hr]
        rcases hnodes ▸ hx with rfl | rfl | hx
        · exact .inr (.inl rfl)
        · exact .inr (.inr rfl)
        · exact .inl hx
      valid := by
        rw [horph, show Thread.orphans _ = ∅ from rfl, Set.union_empty]
        exact hv.toHere.growRoot_valid value h.valid hR.1 hP.1 hne hv.top hL hv.full hh.copies
      rootMem := hmem
      rootTop := hlevel
      free := le_rfl
      node := fun _ _ _ => rfl
      clean := fun x hx hxw hxd => by
        have hxp : x ≠ p := hxd
        have hx' : x = v.lock ∨ x = right.self := by
          simpa [hw, hr, WritePc.writeLocks, WritePc.reserved, hxp] using hxw
        rcases hx' with rfl | rfl
        · refine ⟨left, hleft, hlay, ?_⟩
          rw [hflag, hlock, hgrow]
          simp
        · refine ⟨right, hright, hlay', ?_⟩
          rw [hflag', hrtop, hgrow]
          simp
      dirty := fun x hx => by
        obtain rfl : x = p := hx
        exact .inl hpw
      reserved := fun x hx => hx.elim
      orphans := fun x hx => hx.elim
      ok := by
        refine ⟨hmem, ?_, hlevel, hnext, ?_, ?_, ?_, ?_⟩
        · rw [hlevel, hgrow]
          exact Nat.succ_pos _
        · rw [hkids, hself, hlockself]
        · rw [hself, hlockself, hlow]
        · exact hhigh.trans hrlow.symm
        · have hmid := (hv.layout.mid h.valid hv.mem hL hv.full).2.1
          rw [← hlow, hchg.low _ hv.mem]
          exact hmid.trans_eq hrlow.symm }

/-- The new root is written. -/
lemma Preserves.writeRoot (h : Inv skip s T M m) (hL : 0 < L)
    (hjob : (s.thread t).job = some (.write key value (.writeRoot v left right p)))
    (hroot : NewRoot T p left right) (fresh : Memory) :
    Preserves skip s t T T k
      (s.store.writeNode (.newRoot p left.highKey left.self right.self fresh)).file
      { s.thread t with job := some (.write key value (.unLockOldRoot v.lock p)) } := by
  obtain ⟨hr, horph, hd⟩ := owned_eq hjob
  have hw := writeLocks_eq hjob
  have hsub : ∀ x, x ∈ T.nodes → x ≠ p → (s.store.writeNode
      (.newRoot p left.highKey left.self right.self fresh : BTNode L)).file.node x =
        s.store.file.node x := fun x _ hx => Function.update_of_ne hx _ _
  have hnode : IsNode T p
      (.newRoot p left.highKey left.self right.self fresh : BTNode L) := by
    refine ⟨hroot.high ▸ .newRoot hL hroot.pos hroot.next hroot.kids hroot.low hroot.front fresh,
      ?_⟩
    have hflag : (BTNode.newRoot p left.highKey left.self right.self fresh :
        BTNode L).btnodeFlag ROOT_NODE = true := by
      show (ROOT_NODE &&& ROOT_NODE != 0#32) = true
      decide
    exact iff_of_true hflag hroot.top
  exact
    { changes := .refl s t T
      valid := by
        rw [horph, show Thread.orphans _ = ∅ from rfl]
        show T.Valid ((s.orphans \ ∅) ∪ ∅)
        rw [Set.sdiff_empty, Set.union_empty]
        exact h.valid
      rootMem := h.rootMem
      rootTop := h.rootTop
      free := le_rfl
      node := fun x hx _ => Function.update_of_ne (by
        rintro rfl
        exact hx ⟨hroot.mem, by rw [hw]; exact List.mem_cons_self⟩) _ _
      clean := fun x hx hxw _ => by
        have hx' : x = p ∨ x = v.lock := by
          simpa [hw, hr, WritePc.writeLocks, WritePc.reserved] using hxw
        by_cases hxp : x = p
        · subst hxp
          exact ⟨_, Function.update_self .., hnode⟩
        · obtain ⟨node, hnode, hT⟩ := h.node_of_held (t := t) hx
            (.inl (by simpa [hw, WritePc.writeLocks] using hx'))
            (by simpa [hd, WritePc.dirty] using hxp)
          exact ⟨node, (hsub x hx hxp).trans hnode, hT⟩
      dirty := fun x hx => hx.elim
      reserved := fun x hx => hx.elim
      orphans := fun x hx => hx.elim
      ok := trivial }

/-! ### The step -/

lemma Inv.write_advances (h : Inv skip s T M m) (hL : 0 < L)
    (hjob : (s.thread t).job = some (.write key value pc)) {fresh : Memory} {store : Store L}
    (hcase : WriteCase key value t fresh s.store pc store pc') (hlive : pc.Live key)
    (hcopies : pc.Copies) (hparent : pc.HasParent) (hskip : skip ∨ pc.Stores key value) :
    Advances skip s t T M (m t) key value pc pc' store.file := by
  have hok := h.okWrite hjob
  have hstrays := WritePc.Ok.not_strays h hjob hlive hparent
  have hw := writeLocks_eq hjob
  have hrd := readLocks_eq hjob
  obtain ⟨hr, horph, hd⟩ := owned_eq hjob
  cases hcase with
  | getRootOffset =>
    refine ⟨T, M, T.top, h.represents, .quiet h hjob rfl rfl rfl rfl ?_,
      ⟨rfl, .inl ⟨rfl, rfl⟩, rfl⟩⟩
    refine ⟨h.rootMem, ?_, h.rootTop⟩
    rw [h.valid.low_top _ h.rootMem h.rootTop]
    exact bot_le
  | rdLock stk offset _ free =>
    exact .quiet h hjob ⟨rfl, rfl, rfl, rfl, rfl, rfl⟩ (rdLock_eq free).2.1 hok
  | readNode stk offset current read =>
    have hnode := h.readNode hok.mem (.inr (by simp [hrd, WritePc.readLocks])) hd read
    exact .quiet h hjob ⟨rfl, rfl, rfl, rfl, rfl, rfl⟩ rfl ⟨hok, hnode⟩
  | atLeaf stk lock current leaf =>
    obtain ⟨hdesc, hnode⟩ := hok
    exact .quiet h hjob ⟨rfl, rfl, rfl, rfl, rfl, rfl⟩ rfl ⟨hnode.self, hdesc, hnode.leaf.1 leaf⟩
  | noChild stk lock current inner child => exact absurd ⟨inner, child⟩ hstrays
  | toChild stk lock current inner child =>
    exact .quiet h hjob ⟨rfl, rfl, rfl, rfl, rfl, rfl⟩ rfl
      (descent_toChild h hok.1 hok.2 inner (hlive current rfl inner))
  | unLockPrev stk prev offset =>
    exact .quiet h hjob ⟨rfl, rfl, rfl, rfl, rfl, rfl⟩ rfl hok
  | unLockLeaf stk lock tmpOffset =>
    exact .quiet h hjob ⟨rfl, rfl, rfl, rfl, rfl, rfl⟩ rfl hok
  | wrLockLeaf stk lock offset _ free =>
    exact .quiet h hjob ⟨rfl, rfl, rfl, rfl, rfl, rfl⟩ (wrLock_eq free).2.2.1 hok
  | leafToRight stk lock offset current read right high =>
    obtain ⟨rfl, hdesc, h0⟩ := hok
    have hnode := h.readNode hdesc.mem (.inl (by simp [hw, WritePc.writeLocks])) hd read
    have hdesc' := descent_toRight h hdesc hnode right high
    have hlevel := (h.right hdesc.mem hnode right high).2.1
    exact .quiet h hjob ⟨rfl, rfl, rfl, rfl, rfl, rfl⟩ rfl ⟨hdesc', hlevel.trans h0⟩
  | readLeaf stk lock offset current read here =>
    obtain ⟨rfl, hdesc, h0⟩ := hok
    have hnode := h.readNode hdesc.mem (.inl (by simp [hw, WritePc.writeLocks])) hd read
    have hcov := hnode.covers (h.next_ne_invalid hdesc.mem) hdesc.low here
    exact .quiet h hjob ⟨rfl, rfl, rfl, rfl, rfl, rfl⟩ rfl ⟨hdesc, h0, hnode, hcov⟩
  | unLockLeft stk prev offset =>
    exact .quiet h hjob ⟨rfl, rfl, rfl, rfl, rfl, rfl⟩ rfl ⟨rfl, hok⟩
  | isSafe stk lock current room =>
    obtain ⟨hdesc, h0, hnode, hcov⟩ := hok
    exact .quiet h hjob ⟨rfl, rfl, rfl, rfl, rfl, rfl⟩ rfl
      ⟨hdesc.mem, h0, hcov, isNode_addKeyValue hnode h0 room (hskip.imp_right fun hs => hs _ rfl)⟩
  | unsafeLeaf stk lock current full =>
    obtain ⟨hdesc, h0, hnode, hcov⟩ := hok
    have hleaf := hnode.leaf.2 h0
    have horphan : SplitVars.orphan ⟨stk, lock, current, INVALID_OFFSET, key⟩ = ∅ := if_pos hleaf
    refine .quiet h hjob ⟨rfl, horphan, rfl, ?_, rfl, rfl⟩ rfl
      ⟨ready_leaf h0 hdesc.mem hnode hcov full, hdesc.stack⟩
    simp [WritePc.stored, hleaf]
  | writeLeaf lock current =>
    obtain ⟨hmem, h0, hcov, val, hval, hnode⟩ := hok
    refine ⟨T.put lock key val, Function.update M key (some val), m t,
      h.represents.put h.valid hmem h0 hcov,
      .finish h hjob hmem rfl rfl BLink.changesAt_put rfl rfl ?_ hnode,
      ⟨rfl, .inr ⟨rfl, rfl, val, hval, rfl⟩, rfl⟩⟩
    rw [show WritePc.orphans _ = ∅ from rfl, Set.sdiff_empty]
    exact h.valid.put hcov
  | unLock lock =>
    exact .quiet h hjob ⟨rfl, rfl, rfl, rfl, rfl, rfl⟩ rfl trivial
  | splitRoot v full root =>
    obtain ⟨hready, -⟩ := hok
    exact .quiet h hjob ⟨rfl, rfl, rfl, rfl, rfl, rfl⟩ rfl
      ⟨hready.toHere, full, hready.root.1 root⟩
  | topOfEmpty v full root empty => exact absurd empty (hparent v rfl full root)
  | popParent v full root parentOffset stk top =>
    obtain ⟨hready, hstk⟩ := hok
    rw [top] at hstk
    exact .quiet h hjob ⟨rfl, rfl, rfl, rfl, rfl, rfl⟩ rfl (splits_of_ready h hready full hstk)
  | hasRoom v room =>
    obtain ⟨hready, -⟩ := hok
    have hpos : 0 < T.level v.lock := Nat.pos_of_ne_zero fun h0 => room (hready.full h0)
    refine .quiet h hjob ⟨rfl, rfl, rfl, ?_, rfl, rfl⟩ rfl
      ⟨v, hready, lt_of_le_of_ne hready.layout.size_le room, hpos, rfl⟩
    simp [WritePc.stored, hready.toHere.not_isLeaf.2 hpos]
  | wrLockParent v parentOffset _ free =>
    exact .quiet h hjob ⟨rfl, rfl, rfl, rfl, rfl, rfl⟩ (wrLock_eq free).2.2.1 hok
  | parentToRight v parentOffset parent read right high =>
    have hnode := h.readNode hok.2.mem (.inl (by simp [hw, WritePc.writeLocks])) hd read
    exact .quiet h hjob ⟨rfl, rfl, rfl, rfl, rfl, rfl⟩ rfl
      ⟨hok.1, above_right h hok.2 hnode right high⟩
  | readParent v parentOffset parent read here =>
    have hnode := h.readNode hok.2.mem (.inl (by simp [hw, WritePc.writeLocks])) hd read
    exact .quiet h hjob ⟨rfl, rfl, rfl, rfl, rfl, rfl⟩ rfl
      ⟨hok.1, parent_of_above h hok.2 hnode here⟩
  | unLockParent v parentOffset right =>
    exact .quiet h hjob ⟨rfl, rfl, rfl, rfl, rfl, rfl⟩ rfl hok
  | addNode v parentOffset parent =>
    have hself := (SplitVars.split_frame key value hok.1.full s.store.file.free fresh).2.1
    refine .addNode h hjob (fun o ho => .inr ?_) rfl rfl ⟨rfl, rfl, rfl⟩
      ⟨hok.1, hok.2, hcopies v rfl, fresh, ?_⟩
    · exact (Set.mem_singleton_iff.1 ho).trans hself
    · rw [hself]
  | writeLeft v parentOffset parent left right =>
    obtain ⟨hv, hp, hh⟩ := hok
    have hself := (Halves.facts hv.full hh).1.trans hv.layout.self
    refine .writeHalf h hjob (.inl ⟨hself ▸ hv.mem, ?_, ?_⟩) (fun o ho => ho.elim) rfl rfl
      ⟨rfl, rfl, rfl⟩ ⟨hv, hp, hh, ?_⟩
    · simp [WritePc.writeLocks, hself]
    · simp [WritePc.dirty, hself]
    · show Function.update s.store.file.node left.self (some left) v.lock = some left
      rw [hself, Function.update_self]
  | writeRight v parentOffset parent left right =>
    obtain ⟨hv, hp, hh, hleft⟩ := hok
    have hres := (h.reserved t right.self (hr ▸ rfl)).1
    have htop : T.level v.lock < T.top := by
      have := h.valid.level_le _ hp.mem
      have := hp.level
      omega
    refine ⟨_, v.stores key value M, m t, hv.toHere.evolve_represents h.valid hres hL hv.full
      hh.copies htop h.represents, .writeRight h hL hjob hv hp hh hleft,
      ⟨(SplitVars.evolve_shape v key value right.self T).2.2.2, WritePc.map_of_halves rfl rfl, rfl⟩⟩
  | unLockChild prev v =>
    refine .quiet h hjob ⟨rfl, rfl, rfl, ?_, rfl, rfl⟩ rfl ⟨hok.1, hok.2.1⟩
    simp [WritePc.stored, hok.1.toHere.not_isLeaf.2 hok.2.2]
  | writeParent v =>
    obtain ⟨u, hready, hroom, hpos, rfl⟩ := hok
    have hinner := hready.toHere.not_isLeaf.2 hpos
    have hadd : u.add key value u.lock T = T.addKid u.lock u.nodeToAdd := if_neg (by simp [hinner])
    have hins : u.insert key value = u.current.btnodeAddKeyChild u.keyToAdd u.nodeToAdd :=
      if_neg (by simp [hinner])
    have hlay := hready.toHere.insert_layout value hroom
    have hvalid := hready.toHere.add_valid value h.valid
    rw [hadd] at hlay hvalid
    rw [hins] at hlay
    refine ⟨_, M, m t, h.represents.addKid, .finish h hjob hready.mem rfl rfl
      BLink.changesAt_addKid rfl rfl hvalid ⟨hlay, hready.root⟩,
      ⟨rfl, .inl ⟨rfl, rfl⟩, rfl⟩⟩
  | addRootRight v =>
    have hself := (SplitVars.split_frame key value hok.full s.store.file.free fresh).2.1
    refine .addNode h hjob (fun o ho => .inr ?_) rfl rfl ⟨rfl, rfl, rfl⟩
      ⟨hok, hcopies v rfl, fresh, ?_⟩
    · exact (Set.mem_singleton_iff.1 ho).trans hself
    · rw [hself]
  | writeRootLeft v left right =>
    obtain ⟨hv, hh⟩ := hok
    have hself := (Halves.facts hv.full hh).1.trans hv.layout.self
    refine .writeHalf h hjob (.inl ⟨hself ▸ hv.mem, ?_, ?_⟩) (fun o ho => ho.elim) rfl rfl
      ⟨rfl, rfl, rfl⟩ ⟨hv, hh, ?_⟩
    · simp [WritePc.writeLocks, hself]
    · simp [WritePc.dirty, hself]
    · show Function.update s.store.file.node left.self (some left) v.lock = some left
      rw [hself, Function.update_self]
  | writeRootRight v left right =>
    obtain ⟨hv, hh, hleft⟩ := hok
    have hres := (h.reserved t right.self (hr ▸ rfl)).1
    refine .writeHalf h hjob (.inr ⟨rfl, rfl⟩) (fun o ho => ho) rfl rfl ⟨rfl, rfl, rfl⟩
      ⟨hv, hh, ?_, Function.update_self ..⟩
    exact (Function.update_of_ne (ne_of_mem_of_not_mem hv.mem hres) _ _).trans hleft
  | addRoot v left right =>
    obtain ⟨hv, hh, hleft, hright⟩ := hok
    have hres := (h.reserved t right.self (hr ▸ rfl)).2.2
    exact .addNode h hjob (fun o ho => ho) rfl rfl ⟨rfl, rfl, rfl⟩
      ⟨hv, hh, hleft, hright, hres.ne⟩
  | wrLockRoot v left right rootOffset _ free =>
    exact .quiet h hjob ⟨rfl, rfl, rfl, rfl, rfl, rfl⟩ (wrLock_eq free).2.2.1 hok
  | setRootOffset v left right rootOffset =>
    obtain ⟨hv, hh, hleft, hright, hne⟩ := hok
    have hR := (h.reserved t right.self (hr ▸ .inl rfl)).1
    have hP := (h.reserved t rootOffset (hr ▸ .inr rfl)).1
    refine ⟨_, v.stores key value M, m t, hv.toHere.growRoot_represents h.valid hR hP hne hv.top hL
      hv.full hh.copies h.represents, .setRootOffset h hL hjob hv hh hleft hright hne,
      ⟨(hv.toHere.growRoot_root value h.valid hR hP hne hv.top).2.2.1,
        WritePc.map_of_halves rfl rfl, rfl⟩⟩
  | writeRoot v left right rootOffset =>
    exact (Preserves.writeRoot h hL hjob hok fresh).advances h rfl rfl rfl
  | unLockOldRoot lock rootOffset =>
    exact .quiet h hjob ⟨rfl, rfl, rfl, rfl, rfl, rfl⟩ rfl trivial
  | unLockRoot rootOffset =>
    exact .quiet h hjob ⟨rfl, rfl, rfl, rfl, rfl, rfl⟩ rfl trivial

end System

end TiPI.BLinkTree
