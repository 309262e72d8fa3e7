import TiPI.Lib.BLink
import Mathlib.Data.Set.Card

/-!
# Levels as lists

The nodes of a level from one node on, in the order of the links to the right.
-/

namespace TiPI.BLink

variable {κ α β : Type*} [LinearOrder κ]

inductive Chain (T : BLink κ α β) : α → List α → Prop
  | last {a : α} : T.next a = none → Chain T a [a]
  | cons {a b : α} {l : List α} : T.next a = some b → Chain T b l → Chain T a (a :: l)

omit [LinearOrder κ] in
/-- Nodes that are linked one after the other, in front of a chain. -/
lemma Chain.segment {T : BLink κ α β} {f : Nat → α} {n : Nat} {l : List α}
    (hnext : ∀ i, i < n → T.next (f i) = some (f (i + 1))) (hlast : T.Chain (f n) (f n :: l)) :
    T.Chain (f 0) ((List.range (n + 1)).map f ++ l) := by
  induction n generalizing l with
  | zero => simpa using hlast
  | succ n ih =>
    rw [List.range_succ, List.map_append, List.append_assoc]
    apply ih
    · intro i hi
      exact hnext i (hi.trans (Nat.lt_succ_self n))
    · exact .cons (hnext n (Nat.lt_succ_self n)) hlast

variable [OrderBot κ] {T : BLink κ α β} {orphans : Set α} {a : α} {l : List α}

lemma Valid.exists_chain (hT : T.Valid orphans) (ha : a ∈ T.nodes) : ∃ l, T.Chain a l := by
  -- induction on the number of nodes of the level behind `a`
  obtain ⟨n, hn⟩ : ∃ n, {x ∈ T.nodes | T.level x = T.level a ∧ T.low a < T.low x}.ncard = n :=
    ⟨_, rfl⟩
  induction n using Nat.strong_induction_on generalizing a with
  | _ n ih =>
    cases hnext : T.next a with
    | none => exact ⟨[a], .last hnext⟩
    | some b =>
      have hb := hT.next_mem a ha b hnext
      have hlevel := hT.next_level a ha b hnext
      have hlow := hT.next_low a ha b hnext
      have hlt : {x ∈ T.nodes | T.level x = T.level b ∧ T.low b < T.low x}.ncard < n := by
        rw [← hn]
        refine Set.ncard_lt_ncard ⟨?_, ?_⟩ (hT.finite.subset fun x hx => hx.1)
        · rintro x ⟨hx, hxb, hlt⟩
          exact ⟨hx, hxb.trans hlevel, hlow.trans hlt⟩
        · intro hsub
          exact lt_irrefl _ (hsub ⟨hb, hlevel, hlow⟩).2.2
      obtain ⟨l, hl⟩ := ih _ hlt hb rfl
      exact ⟨a :: l, .cons hnext hl⟩

lemma Chain.mem_iff (hT : T.Valid orphans) (h : T.Chain a l) (ha : a ∈ T.nodes) {x : α} :
    x ∈ l ↔ x ∈ T.nodes ∧ T.level x = T.level a ∧ T.low a ≤ T.low x := by
  induction h with
  | @last a hnext =>
    rw [List.mem_singleton]
    constructor
    · rintro rfl
      exact ⟨ha, rfl, le_rfl⟩
    · rintro ⟨hx, hlevel, hlow⟩
      refine hT.low_inj x hx a ha hlevel (le_antisymm ?_ hlow)
      by_contra hlt
      obtain ⟨c, hc, -⟩ := hT.next_least a ha x hx hlevel.symm (not_le.1 hlt)
      exact absurd hc (by simp [hnext])
  | @cons a b l hnext hl ih =>
    have hb := hT.next_mem a ha b hnext
    have hlevel := hT.next_level a ha b hnext
    have hlow := hT.next_low a ha b hnext
    rw [List.mem_cons, ih hb, hlevel]
    constructor
    · rintro (rfl | ⟨hx, hxl, hbx⟩)
      · exact ⟨ha, rfl, le_rfl⟩
      · exact ⟨hx, hxl, hlow.le.trans hbx⟩
    · rintro ⟨hx, hxl, hax⟩
      rcases hax.lt_or_eq with hlt | heq
      · obtain ⟨c, hc, hcx⟩ := hT.next_least a ha x hx hxl.symm hlt
        obtain rfl : c = b := Option.some.inj (hc.symm.trans hnext)
        exact .inr ⟨hx, hxl, hcx⟩
      · exact .inl (hT.low_inj x hx a ha hxl heq.symm)

end TiPI.BLink
