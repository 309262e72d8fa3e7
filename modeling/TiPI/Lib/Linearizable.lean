import Mathlib.Data.List.Nodup
import Mathlib.Tactic.Common

/-!
# Linearizable histories

A history records when an operation is called and when it returns. It is linearizable when its
completed operations have an order that respects the history and that a sequential object allows.
An object that acts at the moment an operation returns is linearizable in the order of the
returns: `Linearizes.call` and `Linearizes.ret` extend such an order event by event.
-/

namespace TiPI

/-! ### The order of events

Event `a` comes before event `b` in a trace `l` when `[a, b]` is a sublist of `l`. -/

section

variable {α : Type*} {a b x : α} {l l' : List α}

/-- Where a pair of events stands in a trace that goes on. -/
lemma pair_sublist_append (h : [a, b].Sublist (l ++ l')) :
    [a, b].Sublist l ∨ (a ∈ l ∧ b ∈ l') ∨ [a, b].Sublist l' := by
  obtain ⟨l₁, l₂, heq, h₁, h₂⟩ := List.sublist_append_iff.mp h
  rcases l₁ with - | ⟨y, - | ⟨z, rest⟩⟩
  · obtain rfl : [a, b] = l₂ := heq
    exact Or.inr (Or.inr h₂)
  · obtain ⟨rfl, rfl⟩ : a = y ∧ [b] = l₂ := by simpa using heq
    exact Or.inr (Or.inl ⟨h₁.subset (by simp), h₂.subset (by simp)⟩)
  · obtain ⟨rfl, rfl, hnil⟩ : a = y ∧ b = z ∧ [] = rest ++ l₂ := by simpa using heq
    obtain ⟨rfl, -⟩ : rest = [] ∧ l₂ = [] := by simpa using hnil
    exact Or.inl h₁

lemma pair_sublist_concat (h : [a, b].Sublist (l ++ [x])) :
    [a, b].Sublist l ∨ (a ∈ l ∧ b = x) := by
  rcases pair_sublist_append h with hold | ⟨ha, hb⟩ | hnew
  · exact Or.inl hold
  · exact Or.inr ⟨ha, List.mem_singleton.mp hb⟩
  · exact absurd hnew.length_le (by simp)

end

/-! ### Histories -/

inductive HistEvent (Op Res : Type*)
  | call (id : Nat) (op : Op)
  | ret (id : Nat) (res : Res)
  deriving DecidableEq

structure Completed (Op Res : Type*) where
  id : Nat
  op : Op
  res : Res

variable {σ Op Res : Type*}

/-- The sequential object goes through the operations from `s` to the last state. -/
inductive Legal (spec : σ → Op → Res → σ → Prop) : σ → List (Completed Op Res) → σ → Prop
  | nil (s : σ) : Legal spec s [] s
  | cons {s s' s'' : σ} {c : Completed Op Res} {cs : List (Completed Op Res)}
      (head : spec s c.op c.res s') (tail : Legal spec s' cs s'') : Legal spec s (c :: cs) s''

lemma Legal.concat {spec : σ → Op → Res → σ → Prop} {s s' s'' : σ}
    {cs : List (Completed Op Res)} {c : Completed Op Res} (h : Legal spec s cs s')
    (hc : spec s' c.op c.res s'') : Legal spec s (cs ++ [c]) s'' := by
  induction h with
  | nil s => exact .cons hc (.nil _)
  | cons head _ ih => exact .cons head (ih hc)

/-- `order` is a linearization of the history from `s₀` to `s`. -/
structure Linearizes (spec : σ → Op → Res → σ → Prop) (s₀ : σ) (h : List (HistEvent Op Res))
    (order : List (Completed Op Res)) (s : σ) : Prop where
  nodup : (order.map (·.id)).Nodup
  complete : ∀ c, c ∈ order ↔ .call c.id c.op ∈ h ∧ .ret c.id c.res ∈ h
  legal : Legal spec s₀ order s
  realtime : ∀ c ∈ order, ∀ d ∈ order,
    [HistEvent.ret c.id c.res, .call d.id d.op].Sublist h → [c, d].Sublist order

def Linearizable (spec : σ → Op → Res → σ → Prop) (s₀ : σ) (h : List (HistEvent Op Res)) :
    Prop :=
  ∃ order s, Linearizes spec s₀ h order s

variable {spec : σ → Op → Res → σ → Prop} {s₀ s : σ} {h : List (HistEvent Op Res)}
  {order : List (Completed Op Res)}

lemma Linearizes.nil (spec : σ → Op → Res → σ → Prop) (s : σ) :
    Linearizes spec s [] [] s :=
  ⟨List.nodup_nil, by simp, .nil s, by simp⟩

/-- A call that nobody has answered yet changes nothing. -/
lemma Linearizes.call (hl : Linearizes spec s₀ h order s) {id : Nat} (op : Op)
    (hfresh : ∀ res, .ret id res ∉ h) : Linearizes spec s₀ (h ++ [.call id op]) order s := by
  refine ⟨hl.nodup, fun c => ?_, hl.legal, fun c hc d hd hcd => ?_⟩
  · rw [hl.complete c]
    simp only [List.mem_append, List.mem_singleton, reduceCtorEq, or_false,
      HistEvent.call.injEq]
    constructor
    · exact fun ⟨hcall, hret⟩ => ⟨Or.inl hcall, hret⟩
    · rintro ⟨hcall | ⟨hid, -⟩, hret⟩
      · exact ⟨hcall, hret⟩
      · exact absurd (hid ▸ hret) (hfresh _)
  · rcases pair_sublist_concat hcd with hold | ⟨-, hnew⟩
    · exact hl.realtime c hc d hd hold
    · obtain ⟨hid, -⟩ := HistEvent.call.inj hnew
      exact absurd (hid ▸ ((hl.complete d).mp hd).2) (hfresh _)

/-- An operation that acts when it returns is put behind the others. -/
lemma Linearizes.ret (hl : Linearizes spec s₀ h order s) {id : Nat} {op : Op} {res : Res}
    {s' : σ} (hcall : .call id op ∈ h) (hunique : ∀ op', .call id op' ∈ h → op' = op)
    (hfresh : ∀ res, .ret id res ∉ h) (hspec : spec s op res s') :
    Linearizes spec s₀ (h ++ [.ret id res]) (order ++ [⟨id, op, res⟩]) s' := by
  have hnew : ∀ c ∈ order, c.id ≠ id := by
    rintro c hc rfl
    exact hfresh _ ((hl.complete c).mp hc).2
  refine ⟨?_, fun c => ?_, hl.legal.concat hspec, fun c hc d hd hcd => ?_⟩
  · rw [List.map_append, List.map_singleton]
    refine List.nodup_append.mpr ⟨hl.nodup, List.nodup_singleton _, ?_⟩
    rintro i hi j hj rfl
    obtain ⟨c, hc, rfl⟩ := List.mem_map.mp hi
    exact hnew c hc (List.mem_singleton.mp hj)
  · simp only [List.mem_append, List.mem_singleton, reduceCtorEq, or_false, hl.complete c,
      HistEvent.ret.injEq]
    constructor
    · rintro (⟨hc, hr⟩ | rfl)
      · exact ⟨hc, Or.inl hr⟩
      · exact ⟨hcall, Or.inr ⟨rfl, rfl⟩⟩
    · rintro ⟨hc, hr | ⟨hid, hres⟩⟩
      · exact Or.inl ⟨hc, hr⟩
      · obtain ⟨cid, cop, cres⟩ := c
        dsimp only at hc hid hres
        subst hid hres
        exact Or.inr (by rw [hunique cop hc])
  · have hold : [HistEvent.ret c.id c.res, .call d.id d.op].Sublist h := by
      rcases pair_sublist_concat hcd with hold | ⟨-, heq⟩
      · exact hold
      · simp at heq
    rcases List.mem_append.mp hc with hc | hc
    · rcases List.mem_append.mp hd with hd | hd
      · exact (hl.realtime c hc d hd hold).trans (List.sublist_append_left _ _)
      · obtain rfl := List.mem_singleton.mp hd
        exact (List.singleton_sublist.mpr hc).append (List.Sublist.refl _)
    · obtain rfl := List.mem_singleton.mp hc
      exact absurd (hold.subset (by simp)) (hfresh res)

end TiPI
