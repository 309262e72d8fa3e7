import TiPI.Lib.Run
import Mathlib.Algebra.BigOperators.Group.Finset.Piecewise
import Mathlib.Algebra.Order.BigOperators.Group.Finset
import Mathlib.Data.Fintype.Basic
import Mathlib.Data.Prod.Lex
import Mathlib.Order.WellFounded
import Mathlib.Tactic.Abel

/-!
# Getting to an end

Threads that wait for each other are not all stuck when whoever waits, waits for a thread of a
higher rank. A run does not go on for ever when each step takes a measure down.
-/

namespace TiPI

/-- Ranks that are bounded lead from a thread that is stuck to one that is not. -/
lemma exists_free_of_rank {τ : Type*} (Stuck : τ → Prop) {Free : τ → Prop} (rank : τ → Nat)
    {N : Nat} (hbound : ∀ t, Stuck t → rank t ≤ N)
    (hwaits : ∀ t, Stuck t → ∃ t', Free t' ∨ Stuck t' ∧ rank t < rank t') {t : τ} (h : Stuck t) :
    ∃ t', Free t' := by
  induction hn : N - rank t using Nat.strong_induction_on generalizing t with
  | _ n ih =>
    obtain ⟨t', hfree | ⟨hstuck, hlt⟩⟩ := hwaits t h
    · exact ⟨t', hfree⟩
    · have hle := hbound t' hstuck
      exact ih (N - rank t') (by omega) hstuck rfl

/-! ### Measures of several parties -/

/-- What the new value adds to the sum is what the old one takes from it. -/
lemma sum_update_add {ι M : Type*} [Fintype ι] [DecidableEq ι] [AddCommMonoid M] (f : ι → M)
    (i : ι) (b : M) : ∑ j, Function.update f i b j + f i = ∑ j, f j + b := by
  rw [Finset.sum_update_of_mem (Finset.mem_univ i), Finset.sdiff_singleton_eq_erase,
    ← Finset.add_sum_erase _ _ (Finset.mem_univ i)]
  abel

section Sums

variable {τ : Type*} {parties : Finset τ} {a b c a' b' c' : τ → Nat} {t : τ}

/-- What the parties have together changes by what one of them makes of its part, and by at most `d`
for each of the others. -/
lemma sum_le_of_others (a a' : τ → Nat) {d : Nat} (ht : t ∈ parties)
    (hother : ∀ t' ∈ parties, t' ≠ t → a' t' ≤ a t' + d) :
    ∑ t ∈ parties, a' t + a t ≤ ∑ t ∈ parties, a t + a' t + d * (parties.card - 1) := by
  classical
  have hrest : ∑ t ∈ parties.erase t, a' t ≤
      ∑ t ∈ parties.erase t, a t + d * (parties.card - 1) := by
    calc ∑ t ∈ parties.erase t, a' t
        ≤ ∑ t ∈ parties.erase t, (a t + d) := by
          refine Finset.sum_le_sum fun t' ht' => ?_
          exact hother t' (Finset.mem_of_mem_erase ht') (Finset.ne_of_mem_erase ht')
      _ = ∑ t ∈ parties.erase t, a t + d * (parties.card - 1) := by
          rw [Finset.sum_add_distrib, Finset.sum_const_nat fun _ _ => rfl,
            Finset.card_erase_of_mem ht, mul_comm]
  rw [← Finset.add_sum_erase parties a' ht, ← Finset.add_sum_erase parties a ht]
  omega

/-- A measure in three parts, each the sum of what the parties have. -/
def sums (parties : Finset τ) (a b c : τ → Nat) : Nat ×ₗ Nat ×ₗ Nat :=
  toLex (∑ t ∈ parties, a t, toLex (∑ t ∈ parties, b t, ∑ t ∈ parties, c t))

lemma sum_lt_of_one (ht : t ∈ parties) (hother : ∀ t' ∈ parties, t' ≠ t → a' t' = a t')
    (hlt : a' t < a t) : ∑ t ∈ parties, a' t < ∑ t ∈ parties, a t := by
  refine Finset.sum_lt_sum (fun t' ht' => ?_) ⟨t, ht, hlt⟩
  by_cases hne : t' = t
  · rw [hne]
    exact hlt.le
  · exact (hother t' ht' hne).le

lemma sum_eq_of_one (hother : ∀ t' ∈ parties, t' ≠ t → a' t' = a t') (heq : a' t = a t) :
    ∑ t ∈ parties, a' t = ∑ t ∈ parties, a t := by
  refine Finset.sum_congr rfl fun t' ht' => ?_
  by_cases hne : t' = t
  · rw [hne, heq]
  · exact hother t' ht' hne

/-- A party goes down in one of the parts, and the parts in front of it are as they were. -/
lemma sums_lt (ht : t ∈ parties) (ha : ∀ t' ∈ parties, t' ≠ t → a' t' = a t')
    (hb : ∀ t' ∈ parties, t' ≠ t → b' t' = b t')
    (hlt : a' t < a t ∨ a' t = a t ∧ (b' t < b t ∨ b' t = b t ∧ c' t < c t ∧
      ∀ t' ∈ parties, t' ≠ t → c' t' = c t')) :
    sums parties a' b' c' < sums parties a b c := by
  rcases hlt with hlt | ⟨haeq, hlt⟩
  · exact Prod.Lex.toLex_lt_toLex.2 (.inl (sum_lt_of_one ht ha hlt))
  · refine Prod.Lex.toLex_lt_toLex.2 (.inr ⟨sum_eq_of_one ha haeq, ?_⟩)
    rcases hlt with hlt | ⟨hbeq, hlt, hc⟩
    · exact Prod.Lex.toLex_lt_toLex.2 (.inl (sum_lt_of_one ht hb hlt))
    · exact Prod.Lex.toLex_lt_toLex.2 (.inr ⟨sum_eq_of_one hb hbeq, sum_lt_of_one ht hc hlt⟩)

end Sums

variable {σ α β : Type*} {step : σ → α → Option σ} {ok : σ → α → Prop} {acts : Nat → α}

/-- Where every step is paid for, by its action or out of what has been put by, a run is as long as
its actions pay for. -/
lemma Steps.length_le {s s' : σ} {as : List α} (h : Steps step ok s as s') (put : σ → Nat)
    (pay : α → Nat)
    (hstep : ∀ s a s', ok s a → step s a = some s' → put s' + 1 ≤ put s + pay a) :
    as.length + put s' ≤ put s + (as.map pay).sum := by
  induction h with
  | nil => simp
  | snoc _ hok hlast ih =>
    have hle := hstep _ _ _ hok hlast
    simp only [List.length_append, List.length_singleton, List.map_append, List.map_cons,
      List.map_nil, List.sum_append, List.sum_singleton]
    omega

/-! ### Supplies of actions -/

/-- A supply of actions comes to one that is not possible. -/
lemma trace_ends {r : β → β → Prop} (hr : WellFounded r) {P : β → σ → Prop} {s : σ}
    (hok : ∀ n s', trace step s acts n = some s' → ok s' (acts n))
    (hstep : ∀ b s a s', P b s → ok s a → step s a = some s' → ∃ b', P b' s' ∧ r b' b)
    {b : β} (hs : P b s) : ∃ n s', trace step s acts n = some s' ∧ step s' (acts n) = none := by
  have hfrom : ∀ b n s', trace step s acts n = some s' → P b s' →
      ∃ n s', trace step s acts n = some s' ∧ step s' (acts n) = none := by
    intro b
    induction b using hr.induction with
    | _ b ih =>
      intro n s' hn hP
      cases hnext : step s' (acts n) with
      | none => exact ⟨n, s', hn, hnext⟩
      | some s'' =>
        obtain ⟨b', hP', hlt⟩ := hstep b s' _ s'' hP (hok n s' hn) hnext
        exact ih b' hlt (n + 1) s'' ((trace_succ hn).trans hnext) hP'
  exact hfrom b 0 s rfl hs

end TiPI
