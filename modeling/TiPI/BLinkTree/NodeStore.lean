import TiPI.BLinkTree.NodeBytes

/-!
# The service file as a store of nodes

Any number of handles call `addNode`, `writeNode` and `setRootOffset`, one call after the other; a
handle has nothing of its own but its descriptor. The nodes lie in slots of `NODE_SIZE` bytes, one
behind the other.
-/

namespace TiPI.BLinkTree

variable {L : Nat}

inductive Call (L : Nat)
  | addNode
  | writeNode (node : BTNode L)
  | setRootOffset (newRoot : Offset)

structure NodeStore where
  file : FileBytes
  /-- what `addNode` has returned, oldest first -/
  returned : List Offset

namespace NodeStore

variable (L) in
def init (buff : List UInt8) : NodeStore := ⟨.createEmptyServiceFile L buff, []⟩

def step (s : NodeStore) : Call L → Option NodeStore
  | .addNode => (FileBytes.addNode L s.file).map fun r => ⟨r.2, s.returned ++ [r.1]⟩
  | .writeNode node => some { s with file := .writeNode s.file node }
  | .setRootOffset newRoot => some { s with file := .setRootOffset s.file newRoot }

/-- Nodes are written to the first root or to what `addNode` has returned, all words have 64 bits,
and the nodes lie below `2 ^ 63`, which is where `off_t` ends. -/
def Proper (s : NodeStore) : Call L → Prop
  | .addNode => ∀ r ∈ FileBytes.addNode L s.file, r.1 + NODE_SIZE L ≤ 2 ^ 63
  | .writeNode node => node.Fits ∧ (node.self = INITIAL_ROOT_OFFSET ∨ node.self ∈ s.returned)
  | .setRootOffset newRoot => newRoot < 2 ^ 64

end NodeStore

/-! ### What the calls have written last -/

namespace Call

def root (old : Offset) : Call L → Offset
  | .setRootOffset newRoot => newRoot
  | _ => old

def node (o : Offset) (old : Option (BTNode L)) : Call L → Option (BTNode L)
  | .writeNode node => if node.self = o then some node else old
  | _ => old

/-- The last root offset set. -/
def lastRoot (as : List (Call L)) : Offset := as.foldl root INITIAL_ROOT_OFFSET

/-- The node last written with `self = o`. -/
def lastNode (as : List (Call L)) (o : Offset) : Option (BTNode L) :=
  as.foldl (node o) (if o = INITIAL_ROOT_OFFSET then some (rootLeaf L) else none)

@[simp] lemma lastRoot_snoc (as : List (Call L)) (a : Call L) :
    lastRoot (as ++ [a]) = a.root (lastRoot as) := by
  simp [lastRoot]

@[simp] lemma lastNode_snoc (as : List (Call L)) (a : Call L) (o : Offset) :
    lastNode (as ++ [a]) o = a.node o (lastNode as o) := by
  simp [lastNode]

end Call

/-! ### Slots -/

/-- Where slot `i` begins; the first holds the first root. -/
def slot (L i : Nat) : Nat := INITIAL_ROOT_OFFSET + NODE_SIZE L * i

lemma slot_succ (L i : Nat) : slot L (i + 1) = slot L i + NODE_SIZE L := by
  rw [slot, slot, Nat.mul_succ, Nat.add_assoc]

lemma slot_ge (L i : Nat) : 100 ≤ slot L i := Nat.le_add_right _ _

lemma slot_mono {i j : Nat} (h : i ≤ j) : slot L i ≤ slot L j :=
  Nat.add_le_add_left (Nat.mul_le_mul_left _ h) _

lemma slot_disjoint {i j : Nat} (h : i ≠ j) :
    slot L i + NODE_SIZE L ≤ slot L j ∨ slot L j + NODE_SIZE L ≤ slot L i := by
  rw [← slot_succ, ← slot_succ]
  rcases Nat.lt_or_gt_of_ne h with hlt | hgt
  · exact .inl (slot_mono hlt)
  · exact .inr (slot_mono hgt)

lemma node_size_pos (L : Nat) : 0 < NODE_SIZE L := by
  unfold NODE_SIZE
  omega

lemma slot_injective (L : Nat) : Function.Injective (slot L) := by
  intro i j h
  by_contra hne
  have hpos := node_size_pos L
  rcases slot_disjoint (L := L) hne with hle | hle <;> omega

/-! ### The invariant -/

/-- The words in front and the slots handed out, after the calls `as`. -/
structure NodeStore.Inv (as : List (Call L)) (s : NodeStore) : Prop where
  root : pread s.file 0 8 = some (lowBytes 8 (Call.lastRoot as))
  rootFits : Call.lastRoot as < 2 ^ 64
  free : pread s.file 8 8 = some (lowBytes 8 (slot L (s.returned.length + 1)))
  bound : slot L (s.returned.length + 1) ≤ 2 ^ 63
  returned : s.returned = (List.range s.returned.length).map fun i => slot L (i + 1)
  node : ∀ o node, Call.lastNode as o = some node →
    ∃ i, i ≤ s.returned.length ∧ o = slot L i ∧
      ∃ bytes, pread s.file o (NODE_SIZE L) = some bytes ∧
        ∀ fresh, .ofImage L bytes fresh = node.behind fresh

namespace NodeStore

variable {as : List (Call L)} {s s' : NodeStore} {buff : List UInt8}

lemma inv_init (hL : 0 < L) (hsize : INITIAL_ROOT_OFFSET + NODE_SIZE L ≤ 2 ^ 63)
    (hbuff : buff.length = NODE_SIZE L) : Inv ([] : List (Call L)) (init L buff) := by
  have hslot : slot L 1 = INITIAL_ROOT_OFFSET + NODE_SIZE L := by rw [slot, Nat.mul_one]
  have hlen := FileBytes.length_rootImage hL hbuff
  have hfits : INITIAL_ROOT_OFFSET < 2 ^ 64 := by decide
  refine ⟨?_, hfits, ?_, ?_, rfl, ?_⟩
  · refine pread_pwrite_of_disjoint ?_ (.inl (by decide))
    refine pread_pwrite_of_disjoint ?_ (.inl (by decide))
    exact pread_pwrite_self (length_lowBytes 8 _) (by decide)
  · refine pread_pwrite_of_disjoint ?_ (.inl (by decide))
    rw [init, List.length_nil, hslot]
    exact pread_pwrite_self (length_lowBytes 8 _) (by decide)
  · rwa [init, List.length_nil, hslot]
  · intro o node hnode
    simp only [Call.lastNode, List.foldl_nil, Option.ite_none_right_eq_some,
      Option.some.injEq] at hnode
    obtain ⟨rfl, rfl⟩ := hnode
    refine ⟨0, Nat.zero_le _, rfl, _, ?_, FileBytes.ofImage_rootImage hL buff⟩
    exact pread_pwrite_self hlen (node_size_pos L)

/-- A write in front of the slots leaves the nodes. -/
lemma Inv.node_frame (h : s.Inv as) {o : Nat} {bytes : List UInt8}
    (ho : o + bytes.length ≤ 100) {at' : Offset} {node : BTNode L}
    (hnode : Call.lastNode as at' = some node) :
    ∃ i, i ≤ s.returned.length ∧ at' = slot L i ∧
      ∃ image, pread (pwrite s.file o bytes) at' (NODE_SIZE L) = some image ∧
        ∀ fresh, .ofImage L image fresh = node.behind fresh := by
  obtain ⟨i, hi, rfl, image, hread, himage⟩ := h.node at' node hnode
  have hge := slot_ge L i
  exact ⟨i, hi, rfl, image, pread_pwrite_of_disjoint hread (.inr (by omega)), himage⟩

lemma Inv.setRootOffset (h : s.Inv as) {newRoot : Offset} (hfits : newRoot < 2 ^ 64) :
    Inv (as ++ [Call.setRootOffset newRoot]) { s with file := .setRootOffset s.file newRoot } := by
  refine ⟨?_, ?_, ?_, h.bound, h.returned, ?_⟩
  · rw [Call.lastRoot_snoc]
    exact pread_pwrite_self (length_lowBytes 8 _) (by decide)
  · rw [Call.lastRoot_snoc]
    exact hfits
  · have hlen : 0 + (lowBytes 8 newRoot).length ≤ 8 := by rw [length_lowBytes]
    exact pread_pwrite_of_disjoint h.free (.inr hlen)
  · intro o node hnode
    have hlen : 0 + (lowBytes 8 newRoot).length ≤ 100 := by
      rw [length_lowBytes]
      decide
    rw [Call.lastNode_snoc] at hnode
    exact h.node_frame hlen hnode

lemma Inv.addNode_eq (h : s.Inv as) : FileBytes.addNode L s.file =
    some (slot L (s.returned.length + 1),
      pwrite s.file 8 (lowBytes 8 (slot L (s.returned.length + 2)))) := by
  have hbound := h.bound
  have hnext : slot L (s.returned.length + 2) = slot L (s.returned.length + 1) + NODE_SIZE L :=
    slot_succ L (s.returned.length + 1)
  have hsize : 100 + NODE_SIZE L ≤ slot L (s.returned.length + 1) := by
    rw [slot_succ]
    exact Nat.add_le_add_right (slot_ge L _) _
  have hfits : slot L (s.returned.length + 1) < 256 ^ 8 := lt_of_le_of_lt hbound (by decide)
  have hnew : slot L (s.returned.length + 2) % 2 ^ 64 = slot L (s.returned.length + 2) :=
    Nat.mod_eq_of_lt (by omega)
  have hback : (slot L (s.returned.length + 2) + (2 ^ 64 - NODE_SIZE L % 2 ^ 64)) % 2 ^ 64 =
      slot L (s.returned.length + 1) := by
    have hmod : NODE_SIZE L % 2 ^ 64 = NODE_SIZE L := Nat.mod_eq_of_lt (by omega)
    rw [hmod, hnext, Nat.add_assoc, Nat.add_sub_cancel' (by omega), Nat.add_mod_right,
      Nat.mod_eq_of_lt (by omega)]
  rw [FileBytes.addNode, h.free, Option.map_some, ofLowBytes_lowBytes hfits, ← hnext]
  simp only [hnew, hback]

lemma Inv.step_addNode (h : s.Inv as)
    (hbelow : slot L (s.returned.length + 1) + NODE_SIZE L ≤ 2 ^ 63) :
    s.Proper (Call.addNode : Call L) ∧ s.step (Call.addNode : Call L) =
      some ⟨pwrite s.file 8 (lowBytes 8 (slot L (s.returned.length + 2))),
        s.returned ++ [slot L (s.returned.length + 1)]⟩ := by
  constructor
  · intro r hr
    rw [h.addNode_eq] at hr
    obtain rfl := Option.some.inj hr
    exact hbelow
  · rw [NodeStore.step, h.addNode_eq]
    rfl

lemma Inv.addNode (h : s.Inv as)
    (hbelow : slot L (s.returned.length + 1) + NODE_SIZE L ≤ 2 ^ 63) :
    Inv (as ++ [Call.addNode])
      ⟨pwrite s.file 8 (lowBytes 8 (slot L (s.returned.length + 2))),
        s.returned ++ [slot L (s.returned.length + 1)]⟩ := by
  have hlen : (s.returned ++ [slot L (s.returned.length + 1)]).length = s.returned.length + 1 := by
    simp
  refine ⟨?_, ?_, ?_, ?_, ?_, ?_⟩
  · have hroot : pread (pwrite s.file 8 (lowBytes 8 (slot L (s.returned.length + 2)))) 0 8 =
        some (lowBytes 8 (Call.lastRoot as)) :=
      pread_pwrite_of_disjoint h.root (.inl (Nat.zero_add 8).le)
    rw [Call.lastRoot_snoc]
    exact hroot
  · rw [Call.lastRoot_snoc]
    exact h.rootFits
  · simp only [hlen]
    exact pread_pwrite_self (length_lowBytes 8 _) (by decide)
  · simp only [hlen]
    rwa [slot_succ]
  · simp only [hlen, List.range_succ, List.map_append, ← h.returned]
    rfl
  · intro o node hnode
    rw [Call.lastNode_snoc] at hnode
    have hhead : 8 + (lowBytes 8 (slot L (s.returned.length + 2))).length ≤ 100 := by
      rw [length_lowBytes]
      decide
    obtain ⟨i, hi, hrest⟩ := h.node_frame hhead hnode
    exact ⟨i, by rw [hlen]; omega, hrest⟩

/-- Where a node may be written there is a slot. -/
lemma Inv.exists_slot (h : s.Inv as) {o : Offset}
    (ho : o = INITIAL_ROOT_OFFSET ∨ o ∈ s.returned) :
    ∃ i, i ≤ s.returned.length ∧ o = slot L i := by
  rcases ho with rfl | hmem
  · exact ⟨0, Nat.zero_le _, rfl⟩
  · rw [h.returned] at hmem
    obtain ⟨i, hi, rfl⟩ := List.mem_map.1 hmem
    exact ⟨i + 1, List.mem_range.1 hi, rfl⟩

lemma Inv.writeNode (h : s.Inv as) {node : BTNode L} (hfits : node.Fits)
    (ho : node.self = INITIAL_ROOT_OFFSET ∨ node.self ∈ s.returned) :
    Inv (as ++ [Call.writeNode node]) { s with file := .writeNode s.file node } := by
  obtain ⟨i, hi, hself⟩ := h.exists_slot ho
  have hge := slot_ge L i
  refine ⟨?_, ?_, ?_, h.bound, h.returned, ?_⟩
  · have hroot : pread (pwrite s.file node.self node.image) 0 8 =
        some (lowBytes 8 (Call.lastRoot as)) :=
      pread_pwrite_of_disjoint h.root (.inl (by rw [hself]; omega))
    rw [Call.lastRoot_snoc]
    exact hroot
  · rw [Call.lastRoot_snoc]
    exact h.rootFits
  · have hfree : pread (pwrite s.file node.self node.image) 8 8 =
        some (lowBytes 8 (slot L (s.returned.length + 1))) :=
      pread_pwrite_of_disjoint h.free (.inl (by rw [hself]; omega))
    exact hfree
  · intro o node' hnode
    rw [Call.lastNode_snoc] at hnode
    simp only [Call.node] at hnode
    split_ifs at hnode with heq
    · obtain rfl := Option.some.inj hnode
      refine ⟨i, hi, heq.symm.trans hself, node.image, ?_, BTNode.ofImage_image hfits⟩
      rw [← heq]
      exact pread_pwrite_self node.length_image (node_size_pos L)
    · obtain ⟨j, hj, hslot, image, hread, himage⟩ := h.node o node' hnode
      have hij : j ≠ i := by
        rintro rfl
        exact heq (hself.trans hslot.symm)
      have hdisj : o + NODE_SIZE L ≤ node.self ∨ node.self + node.image.length ≤ o := by
        rw [hslot, hself, BTNode.length_image]
        exact slot_disjoint hij
      exact ⟨j, hj, hslot, image, pread_pwrite_of_disjoint hread hdisj, himage⟩

lemma Inv.step (h : s.Inv as) {a : Call L} (hok : s.Proper a) (hstep : s.step a = some s') :
    s'.Inv (as ++ [a]) := by
  cases a with
  | addNode =>
    have hbelow := hok _ h.addNode_eq
    rw [(h.step_addNode hbelow).2] at hstep
    obtain rfl := Option.some.inj hstep
    exact h.addNode hbelow
  | writeNode node =>
    obtain rfl := Option.some.inj hstep
    exact h.writeNode hok.1 hok.2
  | setRootOffset newRoot =>
    obtain rfl := Option.some.inj hstep
    exact h.setRootOffset hok

lemma inv_run (hL : 0 < L) (hsize : INITIAL_ROOT_OFFSET + NODE_SIZE L ≤ 2 ^ 63)
    (hbuff : buff.length = NODE_SIZE L) (hrun : Steps step Proper (init L buff) as s) : s.Inv as :=
  hrun.invariant (inv_init hL hsize hbuff) fun _ _ _ _ h hok hstep => h.step hok hstep

lemma Inv.nodup (h : s.Inv as) : (INITIAL_ROOT_OFFSET :: s.returned).Nodup := by
  have hslots : INITIAL_ROOT_OFFSET :: s.returned =
      (List.range (s.returned.length + 1)).map (slot L) := by
    rw [List.range_succ_eq_map, List.map_cons, List.map_map]
    exact congrArg (_ :: ·) h.returned
  rw [hslots]
  exact List.nodup_range.map (slot_injective L)

lemma Inv.getRootOffset (h : s.Inv as) : s.file.getRootOffset = some (Call.lastRoot as) := by
  have hfits : Call.lastRoot as < 256 ^ 8 := h.rootFits
  rw [FileBytes.getRootOffset, h.root, Option.map_some, ofLowBytes_lowBytes hfits]

lemma Inv.readNode (h : s.Inv as) {o : Offset} {node : BTNode L}
    (hnode : Call.lastNode as o = some node) (fresh : Memory) :
    s.file.readNode L o fresh = some (node.behind fresh) := by
  obtain ⟨i, hi, rfl, bytes, hread, himage⟩ := h.node o node hnode
  rw [FileBytes.readNode, hread, Option.map_some, himage fresh]

/-- Whatever the handles do, no offset is handed out twice, the root offset is the last one set, and
a node that is read is the one last written there. -/
theorem nodeStore_faithful (hL : 0 < L) (hsize : INITIAL_ROOT_OFFSET + NODE_SIZE L ≤ 2 ^ 63)
    (hbuff : buff.length = NODE_SIZE L) (hrun : Steps step Proper (init L buff) as s) :
    (INITIAL_ROOT_OFFSET :: s.returned).Nodup ∧
    s.file.getRootOffset = some (Call.lastRoot as) ∧
    ∀ o node, Call.lastNode as o = some node →
      ∀ fresh, s.file.readNode L o fresh = some (node.behind fresh) := by
  have h := inv_run hL hsize hbuff hrun
  exact ⟨h.nodup, h.getRootOffset, fun _ _ hnode => h.readNode hnode⟩

/-- A leaf with one key in the second slot. -/
def secondLeaf : BTNode 1 :=
  { rootLeaf 1 with self := 192, keyBuffSize := 1, mem := fun i => if i = 0 then 7 else 0 }

/-- A node is added, written and made the root. -/
theorem nodeStore_faithful_two : ∃ s : NodeStore, s.returned = [192] ∧
    s.file.getRootOffset = some 192 ∧
    (∀ fresh, s.file.readNode 1 192 fresh = some (secondLeaf.behind fresh)) ∧
    ∀ fresh, s.file.readNode 1 100 fresh = some ((rootLeaf 1).behind fresh) := by
  have hbuff : (List.replicate 92 (0 : UInt8)).length = NODE_SIZE 1 := List.length_replicate
  have h0 := inv_init (L := 1) (by decide) (by decide) hbuff
  have hfits : secondLeaf.Fits := by
    refine ⟨by decide, by decide, by decide, by decide, by decide, ?_⟩
    intro i _
    simp only [secondLeaf]
    split_ifs <;> decide
  obtain ⟨hok, hstep⟩ := h0.step_addNode (by decide)
  have hwritable : ∀ file, Proper ⟨file, [192]⟩ (Call.writeNode secondLeaf) :=
    fun _ => ⟨hfits, .inr (List.mem_singleton.2 rfl)⟩
  have hsettable : ∀ s, Proper s (Call.setRootOffset 192 : Call 1) := by
    intro s
    simp [Proper]
  have hrun := ((Steps.nil.snoc hok hstep).snoc (hwritable _) rfl).snoc (hsettable _) rfl
  obtain ⟨-, hroot, hread⟩ := nodeStore_faithful (by decide) (by decide) hbuff hrun
  exact ⟨_, rfl, hroot, hread 192 secondLeaf rfl, hread 100 (rootLeaf 1) rfl⟩

end NodeStore

/-! ### The file of the tree -/

namespace ServiceFile

def call (file : ServiceFile L) : Call L → ServiceFile L
  | .addNode => file.addNode.2
  | .writeNode node => file.writeNode node
  | .setRootOffset newRoot => file.setRootOffset newRoot

def calls (L : Nat) (as : List (Call L)) : ServiceFile L := as.foldl call (createEmptyServiceFile L)

lemma calls_snoc (as : List (Call L)) (a : Call L) : calls L (as ++ [a]) = (calls L as).call a := by
  simp [calls]

lemma calls_root (as : List (Call L)) : (calls L as).root = Call.lastRoot as := by
  induction as using List.reverseRecOn with
  | nil => rfl
  | append_singleton as a ih =>
    rw [calls_snoc, Call.lastRoot_snoc, ← ih]
    cases a <;> rfl

lemma calls_node (as : List (Call L)) (o : Offset) : (calls L as).node o = Call.lastNode as o := by
  induction as using List.reverseRecOn with
  | nil => exact Function.update_apply (fun _ => none) INITIAL_ROOT_OFFSET (some (rootLeaf L)) o
  | append_singleton as a ih =>
    rw [calls_snoc, Call.lastNode_snoc, ← ih]
    cases a with
    | writeNode node =>
      simp only [call, writeNode, Function.update_apply, Call.node]
      by_cases ho : o = node.self
      · rw [if_pos ho, if_pos ho.symm]
      · rw [if_neg ho, if_neg (Ne.symm ho)]
    | addNode => rfl
    | setRootOffset newRoot => rfl

variable {as : List (Call L)} {s s' : NodeStore} {buff : List UInt8}

lemma calls_free (hL : 0 < L) (hsize : INITIAL_ROOT_OFFSET + NODE_SIZE L ≤ 2 ^ 63)
    (hbuff : buff.length = NODE_SIZE L)
    (hrun : Steps NodeStore.step NodeStore.Proper (NodeStore.init L buff) as s) :
    s.Inv as ∧ (calls L as).free = slot L (s.returned.length + 1) := by
  apply hrun.invariant (P := fun as s =>
    NodeStore.Inv as s ∧ (calls L as).free = slot L (s.returned.length + 1))
  · refine ⟨NodeStore.inv_init hL hsize hbuff, ?_⟩
    rw [NodeStore.init, List.length_nil, slot_succ]
    rfl
  · rintro as s a s' ⟨h, hfree⟩ hok hstep
    refine ⟨h.step hok hstep, ?_⟩
    rw [calls_snoc]
    cases a with
    | addNode =>
      have hnext := slot_succ L (s.returned.length + 1)
      rw [(h.step_addNode (hok _ h.addNode_eq)).2] at hstep
      obtain rfl := Option.some.inj hstep
      simp only [call, ServiceFile.addNode, hfree, List.length_append, List.length_singleton, hnext]
    | writeNode node =>
      obtain rfl := Option.some.inj hstep
      exact hfree
    | setRootOffset newRoot =>
      obtain rfl := Option.some.inj hstep
      exact hfree

/-- The file of bytes does what the file of the tree does: the same root, the same next offset, the
same nodes. -/
theorem nodeStore_refines (hL : 0 < L) (hsize : INITIAL_ROOT_OFFSET + NODE_SIZE L ≤ 2 ^ 63)
    (hbuff : buff.length = NODE_SIZE L)
    (hrun : Steps NodeStore.step NodeStore.Proper (NodeStore.init L buff) as s) :
    s.file.getRootOffset = some (calls L as).root ∧
    (FileBytes.addNode L s.file).map Prod.fst = some (calls L as).addNode.1 ∧
    ∀ o fresh, (calls L as).node o ≠ none →
      s.file.readNode L o fresh = (calls L as).readNode o fresh := by
  obtain ⟨h, hfree⟩ := calls_free hL hsize hbuff hrun
  refine ⟨?_, ?_, ?_⟩
  · rw [calls_root]
    exact h.getRootOffset
  · rw [h.addNode_eq]
    exact congrArg some hfree.symm
  · intro o fresh hne
    obtain ⟨node, hnode⟩ := Option.ne_none_iff_exists'.1 hne
    rw [ServiceFile.readNode, hnode, Option.map_some]
    rw [calls_node] at hnode
    exact h.readNode hnode fresh

end ServiceFile

end TiPI.BLinkTree
