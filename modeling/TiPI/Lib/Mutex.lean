import Mathlib.Data.List.Basic
import Mathlib.Logic.Function.Basic
import Mathlib.Order.WellFounded

/-!
# Mutual exclusion

Parties take and give back locks. `owner` is the state of the locks, `locks` what the parties have
by their places in the program. Where every party waits for a lock behind those it has, one of them
can go on.
-/

namespace TiPI

variable {ι π : Type*}

/-- Each lock is where the parties say. -/
def Owned (owner : ι → Option π) (locks : π → List ι) : Prop :=
  ∀ j w, owner j = some w ↔ j ∈ locks w

variable {owner owner' : ι → Option π} {locks : π → List ι} {w w' : π} {j : ι}

lemma Owned.exclusive (h : Owned owner locks) (hj : j ∈ locks w) (hj' : j ∈ locks w') : w = w' :=
  Option.some.inj (((h j w).2 hj).symm.trans ((h j w').2 hj'))

/-- What a step of party `w` does to the locks, and to those it has. -/
inductive MutexStep [DecidableEq ι] (w : π) (owner owner' : ι → Option π) (ls ls' : List ι) : Prop
  | keep (same : owner' = owner) (has : ∀ k, k ∈ ls' ↔ k ∈ ls)
  | lock (j : ι) (free : owner j = none) (takes : owner' = Function.update owner j (some w))
      (has : ∀ k, k ∈ ls' ↔ k = j ∨ k ∈ ls)
  | unlock (j : ι) (mine : j ∈ ls) (gives : owner' = Function.update owner j none)
      (has : ∀ k, k ∈ ls' ↔ k ≠ j ∧ k ∈ ls)

lemma Owned.step [DecidableEq ι] {locks' : π → List ι} (h : Owned owner locks)
    (hs : MutexStep w owner owner' (locks w) (locks' w))
    (hother : ∀ w', w' ≠ w → locks' w' = locks w') : Owned owner' locks' := by
  intro k w'
  by_cases hw : w' = w
  · subst hw
    cases hs with
    | keep same has => rw [same, has, h]
    | lock j free takes has =>
      rw [takes, has, Function.update_apply]
      split_ifs with hk
      · simp [hk]
      · simp [hk, h k w']
    | unlock j mine gives has =>
      rw [gives, has, Function.update_apply]
      split_ifs with hk
      · simp [hk]
      · simp [hk, h k w']
  · rw [hother w' hw]
    cases hs with
    | keep same has => rw [same, h]
    | lock j free takes has =>
      rw [takes, Function.update_apply, ← h k w']
      split_ifs with hk
      · simp [hk, free, Ne.symm hw]
      · exact Iff.rfl
    | unlock j mine gives has =>
      rw [gives, Function.update_apply, ← h k w']
      split_ifs with hk
      · subst hk
        have howner := (h k w).2 mine
        simp [howner, Ne.symm hw]
      · exact Iff.rfl

/-- Whoever has a lock but `w` has it still. -/
lemma Owned.owner_eq [DecidableEq ι] {ls : List ι} (h : Owned owner locks)
    (hs : MutexStep w owner owner' (locks w) ls) (hw : w' ≠ w) :
    owner' j = some w' ↔ owner j = some w' := by
  cases hs with
  | keep same has => rw [same]
  | lock k free takes has =>
    rw [takes, Function.update_apply]
    split_ifs with hk
    · simp [hk, free, Ne.symm hw]
    · exact Iff.rfl
  | unlock k mine gives has =>
    rw [gives, Function.update_apply]
    split_ifs with hk
    · subst hk
      simp [(h j w).2 mine, Ne.symm hw]
    · exact Iff.rfl

/-- A party that has to wait leads to one that has a lock and need not wait. -/
lemma Owned.exists_running [LinearOrder ι] [WellFoundedGT ι] (h : Owned owner locks)
    (wants : π → Option ι) (hbehind : ∀ w j k, wants w = some j → k ∈ locks w → k < j)
    (hw : wants w = some j) (hj : owner j ≠ none) :
    ∃ w', locks w' ≠ [] ∧ ∀ k, wants w' = some k → owner k = none := by
  induction j using WellFoundedGT.induction generalizing w with
  | ind j ih =>
    obtain ⟨w', hw'⟩ := Option.ne_none_iff_exists'.1 hj
    have hhas := (h j w').1 hw'
    by_cases hrun : ∀ k, wants w' = some k → owner k = none
    · exact ⟨w', List.ne_nil_of_mem hhas, hrun⟩
    · obtain ⟨k, hrun⟩ := not_forall.1 hrun
      obtain ⟨hk, howner⟩ := Classical.not_imp.1 hrun
      exact ih k (hbehind w' k j hk hhas) hk howner

end TiPI
