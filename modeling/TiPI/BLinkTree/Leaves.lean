import TiPI.BLinkTree.Threads
import TiPI.Lib.BLinkChain

/-!
# The file at rest

When no write is under way the file is the tree, and the leaves from the leftmost one on, followed
by their links to the right, list the map.
-/

namespace TiPI.BLinkTree

variable {L : Nat} {T : Tree} {M : Key → Option Value} {m : Tid → Nat} {skip : Prop}
  {file : ServiceFile L}

namespace ServiceFile

/-- Down the first children to a leaf, with fuel for the levels. -/
def firstLeaf (file : ServiceFile L) : Nat → Offset → Option Offset
  | 0, _ => none
  | fuel + 1, o =>
    (file.node o).bind fun node =>
      if node.btnodeFlag LEAF_NODE then some o else file.firstLeaf fuel (node.nodeBuff 0)

/-- The entries of a leaf and of those to its right, with fuel for the leaves. -/
def entriesFrom (file : ServiceFile L) : Nat → Offset → Option (List (Key × Value))
  | 0, _ => none
  | fuel + 1, o =>
    (file.node o).bind fun node =>
      if node.right = INVALID_OFFSET then some node.entries
      else (file.entriesFrom fuel node.right).map (node.entries ++ ·)

/-- What the leaf chain lists. -/
def leafChain (file : ServiceFile L) (fuel : Nat) : Option (List (Key × Value)) :=
  (file.firstLeaf fuel file.root).bind (file.entriesFrom fuel)

end ServiceFile

/-- The file is the tree. -/
structure AtRest (T : Tree) (file : ServiceFile L) : Prop where
  valid : T.Valid ∅
  rootMem : file.root ∈ T.nodes
  rootTop : T.level file.root = T.top
  noInvalid : INVALID_OFFSET ∉ T.nodes
  node : ∀ o ∈ T.nodes, ∃ node, file.node o = some node ∧ IsNode T o node

lemma System.Inv.atRest {s : System L} (h : Inv skip s T M m)
    (hrest : ∀ t, (s.thread t).orphans = ∅ ∧ (s.thread t).dirty = ∅) : AtRest T s.store.file where
  valid := by
    have horphans : s.orphans = ∅ :=
      Set.eq_empty_of_forall_notMem fun c ⟨t, hc⟩ => by
        rw [(hrest t).1] at hc
        exact hc
    exact horphans ▸ h.valid
  rootMem := h.rootMem
  rootTop := h.rootTop
  noInvalid ho := h.ne_invalid ho rfl
  node o ho := h.clean o ho fun t ht => by
    rw [(hrest t).2] at ht
    exact ht

namespace AtRest

variable (h : AtRest T file) {o : Offset}

lemma mem_entries {node : BTNode L} (hnode : IsNode T o node) (h0 : T.level o = 0) {k : Key}
    {v : Value} : (k, v) ∈ node.entries ↔ T.value o k = some v := by
  rw [hnode.value h0]
  simp [BTNode.entries]

lemma pairwise_entries {node : BTNode L} (hnode : IsNode T o node) :
    node.entries.Pairwise fun x y => x.1 < y.1 := by
  rw [BTNode.entries, List.pairwise_map]
  refine List.pairwise_lt_range.imp_of_mem fun {i j} _ hj hij => ?_
  exact hnode.ascending i j hij (List.mem_range.1 hj)

include h in
lemma firstLeaf (ho : o ∈ T.nodes) (hlow : T.low o = ⊥) :
    ∃ a ∈ T.nodes, T.level a = 0 ∧ T.low a = ⊥ ∧
      ∀ fuel, T.level o < fuel → file.firstLeaf fuel o = some a := by
  obtain ⟨n, hn⟩ : ∃ n, T.level o = n := ⟨_, rfl⟩
  induction n generalizing o with
  | zero =>
    obtain ⟨node, hnode, hT⟩ := h.node o ho
    refine ⟨o, ho, hn, hlow, fun fuel hfuel => ?_⟩
    obtain ⟨fuel, rfl⟩ : ∃ f, fuel = f + 1 := ⟨fuel - 1, by omega⟩
    simp [ServiceFile.firstLeaf, hnode, hT.leaf.2 hn]
  | succ n ih =>
    obtain ⟨node, hnode, hT⟩ := h.node o ho
    have hpos : 0 < T.level o := by omega
    obtain ⟨hkid, hkidlow⟩ := hT.first hpos
    have hlevel := h.valid.kid_level o ho _ hkid
    obtain ⟨a, ha, ha0, halow, hfirst⟩ :=
      ih (h.valid.kid_mem o ho _ hkid) (hkidlow.trans hlow) (by omega)
    refine ⟨a, ha, ha0, halow, fun fuel hfuel => ?_⟩
    obtain ⟨fuel, rfl⟩ : ∃ f, fuel = f + 1 := ⟨fuel - 1, by omega⟩
    have hleaf : node.btnodeFlag LEAF_NODE = false := by
      rw [← Bool.not_eq_true, hT.leaf]
      exact hpos.ne'
    simp [ServiceFile.firstLeaf, hnode, hleaf, hfirst fuel (by omega)]

include h in
lemma entriesFrom {l : List Offset} (hl : T.Chain o l) (ho : o ∈ T.nodes) (h0 : T.level o = 0) :
    ∃ entries : List (Key × Value), (∀ fuel, l.length ≤ fuel →
        file.entriesFrom fuel o = some entries) ∧
      (entries.Pairwise fun x y => x.1 < y.1) ∧
      ∀ k v, (k, v) ∈ entries ↔ ∃ x ∈ l, T.value x k = some v := by
  induction hl with
  | @last o hnext =>
    obtain ⟨node, hnode, hT⟩ := h.node o ho
    refine ⟨node.entries, fun fuel hfuel => ?_, pairwise_entries hT, fun k v => ?_⟩
    · obtain ⟨fuel, rfl⟩ : ∃ f, fuel = f + 1 := ⟨fuel - 1, by simp at hfuel; omega⟩
      simp [ServiceFile.entriesFrom, hnode, hT.right_eq_invalid hnext]
    · simp [mem_entries hT h0]
  | @cons o b l hnext hl ih =>
    obtain ⟨node, hnode, hT⟩ := h.node o ho
    have hb := h.valid.next_mem o ho b hnext
    obtain ⟨entries, hfrom, hpair, hmem⟩ := ih hb ((h.valid.next_level o ho b hnext).trans h0)
    have hright := hT.right_eq hnext
    have hne : node.right ≠ INVALID_OFFSET := fun he => h.noInvalid (he ▸ hright ▸ hb)
    refine ⟨node.entries ++ entries, fun fuel hfuel => ?_, ?_, fun k v => ?_⟩
    · obtain ⟨fuel, rfl⟩ : ∃ f, fuel = f + 1 := ⟨fuel - 1, by simp at hfuel; omega⟩
      have hrest := hfrom fuel (by simp at hfuel; omega)
      rw [← hright] at hrest
      simp [ServiceFile.entriesFrom, hnode, hne, hrest]
    · refine List.pairwise_append.2 ⟨pairwise_entries hT, hpair, fun x hx y hy => ?_⟩
      -- the keys of the rest lie in nodes that start at or behind `b`
      obtain ⟨z, hz, hyz⟩ := (hmem y.1 y.2).1 hy
      obtain ⟨hzT, -, hlow⟩ := (hl.mem_iff h.valid hb).1 hz
      have hx' := h.valid.value_covered o ho _ _ ((mem_entries hT h0).1 hx)
      exact (hx'.2 b hnext).trans_le
        (hlow.trans (h.valid.value_covered z hzT _ _ hyz).1)
    · rw [List.mem_append, mem_entries hT h0, hmem]
      simp

include h in
/-- The leaf chain lists every key of the map once, in ascending order. -/
theorem leafChain (hM : T.Represents M) :
    ∃ n, ∃ entries : List (Key × Value), (∀ fuel, n ≤ fuel → file.leafChain fuel = some entries) ∧
      (entries.Pairwise fun x y => x.1 < y.1) ∧
      ∀ k v, (k, v) ∈ entries ↔ M k = some v := by
  obtain ⟨a, ha, ha0, halow, hfirst⟩ :=
    h.firstLeaf h.rootMem (h.valid.low_top _ h.rootMem h.rootTop)
  obtain ⟨l, hl⟩ := h.valid.exists_chain ha
  obtain ⟨entries, hfrom, hpair, hmem⟩ := h.entriesFrom hl ha ha0
  refine ⟨T.level file.root + 1 + l.length, entries, fun fuel hfuel => ?_, hpair, fun k v => ?_⟩
  · rw [ServiceFile.leafChain, hfirst fuel (by omega)]
    exact hfrom fuel (by omega)
  · rw [hmem, ← hM k v]
    constructor
    · rintro ⟨x, hx, hv⟩
      obtain ⟨hxT, hlevel, -⟩ := (hl.mem_iff h.valid ha).1 hx
      exact ⟨x, hxT, hlevel.trans ha0, hv⟩
    · rintro ⟨x, hxT, hx0, hv⟩
      refine ⟨x, (hl.mem_iff h.valid ha).2 ⟨hxT, hx0.trans ha0.symm, ?_⟩, hv⟩
      rw [halow]
      exact bot_le

end AtRest

end TiPI.BLinkTree
