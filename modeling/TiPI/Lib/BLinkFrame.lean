import TiPI.Lib.BLink
import Mathlib.Data.Set.Card

/-!
# What the operations leave alone

An operation on a B-link tree changes one node and may add nodes; everything the tree says of the
other nodes stays.
-/

namespace TiPI.BLink

variable {κ α β : Type*}

/-- Nodes stay, with their level and their least key. -/
structure Grows (T T' : BLink κ α β) : Prop where
  mem : ∀ x ∈ T.nodes, x ∈ T'.nodes
  level : ∀ x ∈ T.nodes, T'.level x = T.level x
  low : ∀ x ∈ T.nodes, T'.low x = T.low x

/-- The trees say the same of a node, the least keys of its neighbour and kids included. -/
structure AgreeAt (T T' : BLink κ α β) (x : α) : Prop where
  level : T'.level x = T.level x
  low : T'.low x = T.low x
  next : T'.next x = T.next x
  kids : T'.kids x = T.kids x
  value : T'.value x = T.value x
  next_low : ∀ b, T.next x = some b → T'.low b = T.low b
  kids_low : ∀ c ∈ T.kids x, T'.low c = T.low c

/-- No node but `a` changes. -/
structure ChangesAt (T T' : BLink κ α β) (a : α) : Prop extends Grows T T' where
  agree : ∀ x ∈ T.nodes, x ≠ a → T.AgreeAt T' x
  root : ∀ x ∈ T.nodes, x ≠ a → (T'.level x = T'.top ↔ T.level x = T.top)

lemma Grows.trans {T T' T'' : BLink κ α β} (h : T.Grows T') (h' : T'.Grows T'') : T.Grows T'' where
  mem x hx := h'.mem x (h.mem x hx)
  level x hx := (h'.level x (h.mem x hx)).trans (h.level x hx)
  low x hx := (h'.low x (h.mem x hx)).trans (h.low x hx)

lemma AgreeAt.trans {T T' T'' : BLink κ α β} {x : α} (h : T.AgreeAt T' x) (h' : T'.AgreeAt T'' x) :
    T.AgreeAt T'' x where
  level := h'.level.trans h.level
  low := h'.low.trans h.low
  next := h'.next.trans h.next
  kids := h'.kids.trans h.kids
  value := h'.value.trans h.value
  next_low b hb := (h'.next_low b (h.next ▸ hb)).trans (h.next_low b hb)
  kids_low c hc := (h'.kids_low c (h.kids ▸ hc)).trans (h.kids_low c hc)

lemma AgreeAt.refl (T : BLink κ α β) (x : α) : T.AgreeAt T x :=
  ⟨rfl, rfl, rfl, rfl, rfl, fun _ _ => rfl, fun _ _ => rfl⟩

lemma ChangesAt.refl (T : BLink κ α β) (a : α) : T.ChangesAt T a where
  mem _ hx := hx
  level _ _ := rfl
  low _ _ := rfl
  agree x _ _ := .refl T x
  root _ _ _ := Iff.rfl

/-- A second change of the same node, or of one the first has added. -/
lemma ChangesAt.trans {T T' T'' : BLink κ α β} {a b : α} (h : T.ChangesAt T' a)
    (h' : T'.ChangesAt T'' b) (hb : b = a ∨ b ∉ T.nodes) : T.ChangesAt T'' a := by
  have hne : ∀ x ∈ T.nodes, x ≠ a → x ≠ b := by
    intro x hx hxa
    rcases hb with rfl | hb
    · exact hxa
    · exact ne_of_mem_of_not_mem hx hb
  exact
    { toGrows := h.toGrows.trans h'.toGrows
      agree := fun x hx hxa =>
        (h.agree x hx hxa).trans (h'.agree x (h.mem x hx) (hne x hx hxa))
      root := fun x hx hxa =>
        (h'.root x (h.mem x hx) (hne x hx hxa)).trans (h.root x hx hxa) }

section Operations

variable [LinearOrder κ] [DecidableEq α] {T T' : BLink κ α β} {a c p r x : α} {k h : κ} {v : β}

omit [DecidableEq α] in
lemma AgreeAt.covers_iff (hx : T.AgreeAt T' x) : T'.Covers x k ↔ T.Covers x k := by
  simp only [Covers, hx.low, hx.next]
  refine and_congr_right fun _ => forall₂_congr fun b hb => ?_
  rw [hx.next_low b hb]

lemma changesAt_put : T.ChangesAt (T.put a k v) a where
  mem _ hx := hx
  level _ _ := rfl
  low _ _ := rfl
  agree _ _ hxa :=
    ⟨rfl, rfl, rfl, rfl, Function.update_of_ne hxa _ _, fun _ _ => rfl, fun _ _ => rfl⟩
  root _ _ _ := Iff.rfl

omit [LinearOrder κ] in
lemma changesAt_addKid : T.ChangesAt (T.addKid p c) p where
  mem _ hx := hx
  level _ _ := rfl
  low _ _ := rfl
  agree _ _ hxp :=
    ⟨rfl, rfl, rfl, Function.update_of_ne hxp _ _, rfl, fun _ _ => rfl, fun _ _ => rfl⟩
  root _ _ _ := Iff.rfl

variable [OrderBot κ] {orphans : Set α}

lemma changesAt_splitAt (hT : T.Valid orphans) (hr : r ∉ T.nodes) :
    T.ChangesAt (T.splitAt a r h) a where
  mem x hx := .inr hx
  level x hx := splitAt_level hr hx
  low x hx := splitAt_low hr hx
  agree x hx hxa := by
    have hxr := ne_of_mem_of_not_mem hx hr
    exact ⟨splitAt_level hr hx, splitAt_low hr hx, splitAt_next hxa hxr, splitAt_kids hxa hxr,
      splitAt_value hxa hxr, fun b hb => splitAt_low hr (hT.next_mem x hx b hb),
      fun d hd => splitAt_low hr (hT.kid_mem x hx d hd)⟩
  root x hx _ := by rw [splitAt_level hr hx]; rfl

lemma agreeAt_grow (hT : T.Valid orphans) (hr : r ∉ T.nodes) (hx : x ∈ T.nodes) :
    T.AgreeAt (T.grow a r) x := by
  obtain ⟨hlevel, hlow, hnext, hkids, hvalue⟩ := grow_of_mem (a := a) hr hx
  exact ⟨hlevel, hlow, hnext, hkids, hvalue,
    fun b hb => (grow_of_mem hr (hT.next_mem x hx b hb)).2.1,
    fun d hd => (grow_of_mem hr (hT.kid_mem x hx d hd)).2.1⟩

lemma changesAt_grow (hT : T.Valid orphans) (hr : r ∉ T.nodes) (ha : a ∈ T.nodes)
    (htop : T.level a = T.top) : T.ChangesAt (T.grow a r) a where
  mem x hx := .inr hx
  level x hx := (grow_of_mem hr hx).1
  low x hx := (grow_of_mem hr hx).2.1
  agree x hx _ := agreeAt_grow hT hr hx
  root x hx hxa := by
    rw [(grow_of_mem hr hx).1]
    have hle := hT.level_le x hx
    have hne : T.level x ≠ T.top := fun h' => hxa (hT.low_inj x hx a ha (h'.trans htop.symm)
      ((hT.low_top x hx h').trans (hT.low_top a ha htop).symm))
    have : (T.grow a r).top = T.top + 1 := rfl
    omega

end Operations

/-! ### What lies ahead -/

section Ahead

variable [LinearOrder κ] {T T' : BLink κ α β} {a b : α}

/-- Below the node, or to its right. -/
def Before (T : BLink κ α β) (a b : α) : Prop :=
  T.level b < T.level a ∨ T.level b = T.level a ∧ T.low a < T.low b

/-- How many nodes lie below a node or to its right. -/
noncomputable def ahead (T : BLink κ α β) (a : α) : Nat := {b ∈ T.nodes | T.Before a b}.ncard

lemma ahead_lt (hfin : T.nodes.Finite) (hb : b ∈ T.nodes) (h : T.Before a b) :
    T.ahead b < T.ahead a := by
  refine Set.ncard_lt_ncard ((Set.ssubset_iff_of_subset ?_).2 ?_) (hfin.subset (Set.sep_subset ..))
  · rintro c ⟨hc, hbc⟩
    refine ⟨hc, ?_⟩
    rcases h with hlt | ⟨heq, hlow⟩
    · exact .inl (hbc.elim hlt.trans' fun hbc => hbc.1.trans_lt hlt)
    · rcases hbc with hlt | ⟨heq', hlow'⟩
      · exact .inl (heq ▸ hlt)
      · exact .inr ⟨heq'.trans heq, hlow.trans hlow'⟩
  · refine ⟨b, ⟨hb, h⟩, fun hbb => ?_⟩
    exact hbb.2.elim (lt_irrefl _) fun hbb => lt_irrefl _ hbb.2

/-- As long as no node is new, as much lies ahead as did before. -/
lemma Grows.ahead_eq (h : T.Grows T') (hold : ∀ b ∈ T'.nodes, b ∈ T.nodes) (ha : a ∈ T.nodes) :
    T'.ahead a = T.ahead a := by
  refine congrArg Set.ncard (Set.ext fun b => ?_)
  have hbefore : b ∈ T.nodes → (T'.Before a b ↔ T.Before a b) := by
    intro hb
    rw [Before, Before, h.level a ha, h.level b hb, h.low a ha, h.low b hb]
  constructor
  · rintro ⟨hb, hab⟩
    exact ⟨hold b hb, (hbefore (hold b hb)).1 hab⟩
  · rintro ⟨hb, hab⟩
    exact ⟨h.mem b hb, (hbefore hb).2 hab⟩

end Ahead

end TiPI.BLink
