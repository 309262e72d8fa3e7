import TiPI.Lib.BLink

/-!
# Trees without orphans

When every node below the top is among the kids of another, the kids of a node are all the nodes one
level below it that start in its range, and their links run through them from left to right.
-/

namespace TiPI.BLink

variable {κ α β : Type*} [LinearOrder κ] [OrderBot κ] {T : BLink κ α β} {orphans : Set α}
  {a c d p q : α} {k : κ}

lemma Valid.covers_top (hT : T.Valid orphans) (ha : a ∈ T.nodes) (htop : T.level a = T.top) :
    T.Covers a k := by
  rw [Covers, hT.low_top a ha htop]
  refine ⟨bot_le, ?_⟩
  intro b hb
  have hblow := hT.low_top b (hT.next_mem a ha b hb) ((hT.next_level a ha b hb).trans htop)
  have hlt := hT.next_low a ha b hb
  rw [hblow] at hlt
  exact absurd hlt not_lt_bot

lemma Valid.next_top (hT : T.Valid orphans) (ha : a ∈ T.nodes) (htop : T.level a = T.top) :
    T.next a = none := by
  refine Option.eq_none_iff_forall_ne_some.2 ?_
  intro b hb
  exact absurd ((hT.covers_top ha htop).2 b hb) (lt_irrefl (T.low b))

variable (hT : T.Valid ∅)

include hT

/-- The parent of a node is the node above that covers its start. -/
lemma Valid.mem_kids (hp : p ∈ T.nodes) (hc : c ∈ T.nodes) (hlevel : T.level p = T.level c + 1)
    (hcov : T.Covers p (T.low c)) : c ∈ T.kids p := by
  have htop : T.level c < T.top := by
    have hle := hT.level_le p hp
    omega
  obtain ⟨q, hq, hcq⟩ := hT.listed c hc htop (Set.notMem_empty c)
  have hqlevel := hT.kid_level q hq c hcq
  obtain rfl := hT.covers_unique hp hq (hlevel.trans hqlevel.symm) hcov (hT.kid_covered q hq c hcq)
  exact hcq

/-- A node in front of the start of another node's neighbour covers what starts behind it. -/
lemma Valid.covers_of_between (hp : p ∈ T.nodes) (hc : c ∈ T.kids p) {k' : κ}
    (hle : T.low c ≤ k') (hlt : k' ≤ k) (hcov : T.Covers p k) : T.Covers p k' := by
  refine ⟨(hT.kid_covered p hp c hc).1.trans hle, ?_⟩
  intro b hb
  exact hlt.trans_lt (hcov.2 b hb)

/-- The kid that a descent chooses covers the key. -/
lemma Valid.covers_kid (hp : p ∈ T.nodes) (hc : c ∈ T.kids p) (hpk : T.Covers p k)
    (hck : T.low c ≤ k) (hgreatest : ∀ d ∈ T.kids p, T.low d ≤ k → T.low d ≤ T.low c) :
    T.Covers c k := by
  refine ⟨hck, ?_⟩
  intro n hn
  have hcT := hT.kid_mem p hp c hc
  have hlow := hT.next_low c hcT n hn
  by_contra hkn
  have hnk := not_lt.1 hkn
  have hkid : n ∈ T.kids p := by
    apply hT.mem_kids hp (hT.next_mem c hcT n hn)
    · rw [hT.kid_level p hp c hc, hT.next_level c hcT n hn]
    · exact hT.covers_of_between hp hc hlow.le hnk hpk
  exact absurd (hgreatest n hkid hnk) (not_le.2 hlow)

/-- The right neighbour of a kid is the next kid. -/
lemma Valid.next_kid (hp : p ∈ T.nodes) (hc : c ∈ T.kids p) (hd : d ∈ T.kids p)
    (hlt : T.low c < T.low d) (hnext : ∀ e ∈ T.kids p, T.low c < T.low e → T.low d ≤ T.low e) :
    T.next c = some d := by
  have hcT := hT.kid_mem p hp c hc
  have hdT := hT.kid_mem p hp d hd
  have hlevel : T.level c = T.level d := by
    have hclevel := hT.kid_level p hp c hc
    have hdlevel := hT.kid_level p hp d hd
    omega
  obtain ⟨n, hn, hnd⟩ := hT.next_least c hcT d hdT hlevel hlt
  have hnT := hT.next_mem c hcT n hn
  have hnlevel := hT.next_level c hcT n hn
  have hcn := hT.next_low c hcT n hn
  have hkid : n ∈ T.kids p := by
    apply hT.mem_kids hp hnT
    · rw [hT.kid_level p hp c hc, hnlevel]
    · exact hT.covers_of_between hp hc hcn.le hnd (hT.kid_covered p hp d hd)
  obtain rfl := hT.low_inj n hnT d hdT (hnlevel.trans hlevel) (le_antisymm hnd (hnext n hkid hcn))
  exact hn

/-- The right neighbour of the last kid is the first kid of the right neighbour. -/
lemma Valid.next_last_kid (hp : p ∈ T.nodes) (hc : c ∈ T.kids p)
    (hlast : ∀ e ∈ T.kids p, T.low e ≤ T.low c) (hq : T.next p = some q) (hd : d ∈ T.kids q)
    (hfirst : T.low d = T.low q) : T.next c = some d := by
  have hcT := hT.kid_mem p hp c hc
  have hqT := hT.next_mem p hp q hq
  have hdT := hT.kid_mem q hqT d hd
  have hlevel : T.level c = T.level d := by
    have hclevel := hT.kid_level p hp c hc
    have hdlevel := hT.kid_level q hqT d hd
    have hqlevel := hT.next_level p hp q hq
    omega
  have hlt : T.low c < T.low d := hfirst ▸ (hT.kid_covered p hp c hc).2 q hq
  obtain ⟨n, hn, hnd⟩ := hT.next_least c hcT d hdT hlevel hlt
  have hnT := hT.next_mem c hcT n hn
  have hnlevel := hT.next_level c hcT n hn
  have hcn := hT.next_low c hcT n hn
  rcases hnd.lt_or_eq with hlt' | heq
  · -- a node in between would be a kid of `p` behind the last one
    have hkid : n ∈ T.kids p := by
      apply hT.mem_kids hp hnT
      · rw [hT.kid_level p hp c hc, hnlevel]
      · refine ⟨(hT.kid_covered p hp c hc).1.trans hcn.le, ?_⟩
        intro b hb
        obtain rfl : q = b := Option.some.inj (hq.symm.trans hb)
        rwa [← hfirst]
    exact absurd (hlast n hkid) (not_le.2 hcn)
  · obtain rfl := hT.low_inj n hnT d hdT (hnlevel.trans hlevel) heq
    exact hn

/-- The last kid of the last node has no right neighbour. -/
lemma Valid.next_last_kid_none (hp : p ∈ T.nodes) (hc : c ∈ T.kids p)
    (hlast : ∀ e ∈ T.kids p, T.low e ≤ T.low c) (hq : T.next p = none) : T.next c = none := by
  have hcT := hT.kid_mem p hp c hc
  refine Option.eq_none_iff_forall_ne_some.2 ?_
  intro n hn
  have hcn := hT.next_low c hcT n hn
  have hkid : n ∈ T.kids p := by
    apply hT.mem_kids hp (hT.next_mem c hcT n hn)
    · rw [hT.kid_level p hp c hc, hT.next_level c hcT n hn]
    · refine ⟨(hT.kid_covered p hp c hc).1.trans hcn.le, ?_⟩
      intro b hb
      exact absurd (hq.symm.trans hb) (by simp)
  exact absurd (hlast n hkid) (not_le.2 hcn)

end TiPI.BLink
