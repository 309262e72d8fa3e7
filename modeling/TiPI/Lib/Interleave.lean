import Mathlib.Algebra.BigOperators.Group.Finset.Basic
import Mathlib.Data.List.Basic
import Mathlib.Logic.Function.Basic

/-!
# Programs of updates, interleaved

Threads execute lists of updates, in any interleaving. An update changes one cell of a store, so the
store at the end depends on the order of the updates of each cell only.
-/

namespace TiPI

variable {τ υ κ α : Type*}

/-! ### Updates of cells -/

section

variable [DecidableEq κ] (key : υ → κ) (f : υ → α → α)

/-- The update `u` changes the cell `key u`. -/
def updateCell (s : κ → α) (u : υ) : κ → α := Function.update s (key u) (f u (s (key u)))

/-- A cell sees its own updates only. -/
lemma foldl_updateCell (l : List υ) (s : κ → α) (c : κ) :
    l.foldl (updateCell key f) s c =
      (l.filter fun u => key u = c).foldl (fun a u => f u a) (s c) := by
  induction l generalizing s with
  | nil => rfl
  | cons u l ih =>
    rw [List.foldl_cons, ih]
    by_cases hu : key u = c
    · rw [List.filter_cons_of_pos (by simpa using hu), List.foldl_cons, updateCell, hu,
        Function.update_self]
    · rw [List.filter_cons_of_neg (by simpa using hu), updateCell,
        Function.update_of_ne (Ne.symm hu)]

/-- Where each cell has the same updates in the same order, the result is the same. -/
lemma foldl_updateCell_congr {l l' : List υ}
    (h : ∀ c, (l.filter fun u => key u = c) = l'.filter fun u => key u = c) (s : κ → α) :
    l.foldl (updateCell key f) s = l'.foldl (updateCell key f) s := by
  funext c
  rw [foldl_updateCell, foldl_updateCell, h c]

end

/-! ### Interleavings -/

/-- The threads have executed the updates `done` of their programs, in this order, and have `rest`
before them. -/
inductive Interleaved [DecidableEq τ] (prog : τ → List υ) : (τ → List υ) → List υ → Prop
  | start : Interleaved prog prog []
  | step {rest : τ → List υ} {done : List υ} {t : τ} {u : υ} {us : List υ}
      (run : Interleaved prog rest done) (hu : rest t = u :: us) :
      Interleaved prog (Function.update rest t us) (done ++ [u])

namespace Interleaved

variable [DecidableEq τ] {prog rest : τ → List υ} {done : List υ}

/-- What one thread alone executes stands in the order of its program. -/
lemma filter_eq (h : Interleaved prog rest done) (c : υ → Bool) (t : τ)
    (hown : ∀ t' ≠ t, (prog t').filter c = []) :
    done.filter c ++ (rest t).filter c = (prog t).filter c ∧
      ∀ t' ≠ t, (rest t').filter c = [] := by
  induction h with
  | start => exact ⟨List.nil_append _, hown⟩
  | @step rest done t₁ u us run hu ih =>
    obtain ⟨hdone, hother⟩ := ih
    rw [List.filter_append]
    by_cases ht : t₁ = t
    · subst ht
      refine ⟨?_, fun t' ht' => ?_⟩
      · rw [Function.update_self, ← hdone, hu, List.append_assoc, ← List.filter_append]
        rfl
      · rw [Function.update_of_ne ht']
        exact hother t' ht'
    · have hcons := hother t₁ ht
      rw [hu] at hcons
      have hnot : c u = false := by
        by_contra hc
        rw [List.filter_cons_of_pos (by simpa using hc)] at hcons
        cases hcons
      refine ⟨?_, fun t' ht' => ?_⟩
      · rw [Function.update_of_ne (Ne.symm ht), List.filter_cons_of_neg (by simp [hnot]),
          List.filter_nil, List.append_nil]
        exact hdone
      · by_cases hsame : t' = t₁
        · rw [hsame, Function.update_self]
          rwa [List.filter_cons_of_neg (by simp [hnot])] at hcons
        · rw [Function.update_of_ne hsame]
          exact hother t' ht'

lemma mem_prog (h : Interleaved prog rest done) :
    (∀ t, ∀ u ∈ rest t, u ∈ prog t) ∧ ∀ u ∈ done, ∃ t, u ∈ prog t := by
  induction h with
  | start => exact ⟨fun _ _ hu => hu, fun _ hu => absurd hu List.not_mem_nil⟩
  | @step rest done t u us run hu ih =>
    obtain ⟨hrest, hdone⟩ := ih
    refine ⟨fun t' v hv => ?_, fun v hv => ?_⟩
    · by_cases ht : t' = t
      · subst ht
        rw [Function.update_self] at hv
        exact hrest t' v (hu ▸ List.mem_cons_of_mem u hv)
      · rw [Function.update_of_ne ht] at hv
        exact hrest t' v hv
    · rcases List.mem_append.1 hv with hv | hv
      · exact hdone v hv
      · obtain rfl := List.mem_singleton.1 hv
        exact ⟨t, hrest t v (hu ▸ List.mem_cons_self ..)⟩

/-- Nothing is executed twice, and nothing is forgotten. -/
lemma count_eq [Fintype τ] [DecidableEq υ] (h : Interleaved prog rest done) (v : υ) :
    done.count v + ∑ t, (rest t).count v = ∑ t, (prog t).count v := by
  induction h with
  | start => rw [List.count_nil, Nat.zero_add]
  | @step rest done t u us run hu ih =>
    rw [← ih, ← Finset.add_sum_erase _ _ (Finset.mem_univ t),
      ← Finset.add_sum_erase _ (fun t => (rest t).count v) (Finset.mem_univ t),
      Function.update_self, hu, List.count_append, List.count_cons, List.count_cons,
      List.count_nil]
    have hothers : ∑ t' ∈ Finset.univ.erase t, (Function.update rest t us t').count v =
        ∑ t' ∈ Finset.univ.erase t, (rest t').count v := by
      refine Finset.sum_congr rfl fun t' ht' => ?_
      rw [Function.update_of_ne (Finset.ne_of_mem_erase ht')]
    rw [hothers]
    omega

end Interleaved

end TiPI
