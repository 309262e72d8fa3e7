import TiPI.ThreadPool.Pool
import TiPI.Lib.Progress

/-!
# No task is lost or run twice

As multisets, the submitted tasks are those in the queues, those a worker holds and those that have
been run.
-/

namespace TiPI.ThreadPool

variable {n : Nat} {τ : Type*}

/-! ### Queue operations -/

/-- The tasks in all queues. -/
def inQueues (queue : Queues n τ) : Multiset τ := ∑ i, (queue i : Multiset τ)

lemma inQueues_update (queue : Queues n τ) (i : Fin n) (l : List τ) :
    inQueues (Function.update queue i l) + (queue i : Multiset τ) =
      inQueues queue + (l : Multiset τ) := by
  have hupdate : ∀ j, ((Function.update queue i l j : List τ) : Multiset τ) =
      Function.update (fun j => (queue j : Multiset τ)) i (l : Multiset τ) j :=
    fun j => Function.apply_update (fun _ (l : List τ) => (l : Multiset τ)) queue i l j
  simp only [inQueues, hupdate]
  exact sum_update_add (fun j => (queue j : Multiset τ)) i _

/-- Taking the last task of a queue. -/
lemma inQueues_dropLast {queue : Queues n τ} {i : Fin n} {t : τ} (h : (queue i).getLast? = some t) :
    inQueues (Function.update queue i (queue i).dropLast) + {t} = inQueues queue := by
  have hq : (queue i : Multiset τ) = ((queue i).dropLast : Multiset τ) + {t} := by
    rw [← Multiset.coe_singleton, Multiset.coe_add, List.dropLast_append_getLast? t h]
  have hupdate := inQueues_update queue i (queue i).dropLast
  rw [hq, add_comm ((queue i).dropLast : Multiset τ), ← add_assoc] at hupdate
  exact add_right_cancel hupdate

lemma inQueues_push (queue : Queues n τ) (j : Fin n) (t : τ) :
    inQueues (Function.update queue j (t :: queue j)) = inQueues queue + {t} := by
  have hupdate := inQueues_update queue j (t :: queue j)
  rw [← Multiset.cons_coe, ← Multiset.singleton_add, ← add_assoc] at hupdate
  exact add_right_cancel hupdate

/-- A queue operation returns `true` exactly when it hands a task out, and the queues have lost
what it hands out. -/
structure Outcome.Fair (queue : Queues n τ) (o : Outcome n τ) : Prop where
  ret : o.ret = true ↔ ∃ tsk, o.t = some tsk
  total : inQueues o.queue + (o.t.toList : Multiset τ) = inQueues queue

lemma fair_nothing (queue : Queues n τ) : Outcome.Fair queue ⟨false, none, queue⟩ :=
  ⟨by simp, by simp⟩

lemma tryPopLocal_fair (queue : Queues n τ) (ind : Fin n) : (tryPopLocal queue ind).Fair queue := by
  unfold tryPopLocal
  split
  · exact fair_nothing queue
  · next t ht => exact ⟨by simp, by simpa using inQueues_dropLast ht⟩

lemma giveLast_fair (queue : Queues n τ) (ind longer shorter : Fin n) :
    (giveLast queue ind longer shorter).Fair queue := by
  unfold giveLast
  split
  · exact fair_nothing queue
  · next t ht =>
    split
    · exact ⟨by simp, by simpa using inQueues_dropLast ht⟩
    · refine ⟨by simp, ?_⟩
      dsimp only
      rw [inQueues_push, inQueues_dropLast ht]
      simp

lemma trySteal_fair (queue : Queues n τ) (ind r₁ r₂ : Fin n) :
    (trySteal queue ind r₁ r₂).Fair queue := by
  unfold trySteal
  split
  · exact fair_nothing queue
  · dsimp only
    split
    · exact giveLast_fair queue ind _ _
    · split
      · exact giveLast_fair queue ind _ _
      · exact fair_nothing queue

/-! ### Runs -/

def Worker.held : Worker τ → Multiset τ
  | .run t => t.toList
  | .pop | .steal | .check | .left => 0

namespace Pool

/-- The tasks that workers hold. -/
def held (s : Pool n τ) : Multiset τ := ∑ i, (s.worker i).held

lemma held_update (worker : Fin n → Worker τ) (i : Fin n) (w : Worker τ) :
    ∑ j, (Function.update worker i w j).held + (worker i).held =
      ∑ j, (worker j).held + w.held := by
  have hupdate : ∀ j, (Function.update worker i w j).held =
      Function.update (fun j => (worker j).held) i w.held j :=
    fun j => Function.apply_update (fun _ w => Worker.held w) worker i w j
  simp only [hupdate]
  exact sum_update_add (fun j => (worker j).held) i _

/-- Every submitted task is in a queue, in the hands of a worker, or has been run. -/
def Conserves (s : Pool n τ) : Prop :=
  (s.submitted : Multiset τ) = inQueues s.queue + s.held + (s.executed : Multiset τ)

lemma conserves_init (n : Nat) (τ : Type*) : (init n τ).Conserves := by
  simp [Conserves, init, inQueues, held, Worker.held]

lemma Conserves.push {s : Pool n τ} (h : s.Conserves) (j : Fin n) (tsk : τ) :
    (s.push j tsk).Conserves := by
  have hheld : (s.push j tsk).held = s.held := rfl
  unfold Conserves at h ⊢
  rw [hheld]
  simp only [Pool.push, inQueues_push]
  rw [← Multiset.coe_add, h, Multiset.coe_singleton]
  abel

/-- Worker `i` goes from one place to another without a task. -/
lemma Conserves.move {s : Pool n τ} (h : s.Conserves) {i : Fin n} {w : Worker τ}
    (hi : (s.worker i).held = 0) (hw : w.held = 0) :
    Conserves { s with worker := Function.update s.worker i w } := by
  have hupdate := held_update s.worker i w
  rw [hi, hw, add_zero, add_zero] at hupdate
  unfold Conserves at h ⊢
  simp only [held, hupdate] at h ⊢
  exact h

lemma Conserves.took {s : Pool n τ} (h : s.Conserves) {i : Fin n} {o : Outcome n τ}
    {next : Worker τ} (hfair : o.Fair s.queue) (hi : (s.worker i).held = 0)
    (hnext : next.held = 0) : (s.took i o next).Conserves := by
  have hheld : (s.took i o next).held = s.held + (o.t.toList : Multiset τ) := by
    have hupdate := held_update s.worker i (if o.ret then .run o.t else next)
    rw [hi, add_zero] at hupdate
    refine hupdate.trans ?_
    cases hr : o.ret with
    | true => rfl
    | false =>
      have hnone : o.t = none := by
        cases ht : o.t with
        | none => rfl
        | some tsk => simp [hfair.ret.mpr ⟨tsk, ht⟩] at hr
      simp [hnone, hnext, held]
  unfold Conserves at h ⊢
  rw [hheld]
  simp only [Pool.took]
  rw [h, ← hfair.total]
  abel

lemma Conserves.step {s s' : Pool n τ} {a : Act n τ} (h : s.Conserves)
    (hstep : s.step a = some s') : s'.Conserves := by
  cases step_cases hstep with
  | tryPopLocal i pc => exact h.took (tryPopLocal_fair _ _) (by simp [pc, Worker.held]) rfl
  | trySteal i r₁ r₂ pc => exact h.took (trySteal_fair _ _ _ _) (by simp [pc, Worker.held]) rfl
  | leave i pc => exact h.move (by simp [pc, Worker.held]) rfl
  | retry i pc => exact h.move (by simp [pc, Worker.held]) rfl
  | finish i t pc =>
    have hupdate := held_update s.worker i .pop
    have ht : (s.worker i).held = (t.toList : Multiset τ) := by rw [pc]; rfl
    rw [ht, show (Worker.pop : Worker τ).held = 0 from rfl, add_zero] at hupdate
    unfold Conserves at h ⊢
    simp only [held] at h ⊢
    rw [h, ← hupdate, ← Multiset.coe_add]
    abel
  | submit i tsk t pc => exact h.push i tsk
  | submitOutside j tsk => exact h.push j tsk
  | destroy => exact h

/-- Submitted tasks are never lost, duplicated or run twice, and `trySteal` returns `true` exactly
when its caller gets a task, which is then missing in the queues. -/
theorem conservation {s : Pool n τ} (h : Reach Pool.step (init n τ) s) :
    (s.submitted : Multiset τ) = inQueues s.queue + s.held + (s.executed : Multiset τ) ∧
    ∀ ind r₁ r₂ : Fin n,
      ((trySteal s.queue ind r₁ r₂).ret = true ↔
        ∃ tsk, (trySteal s.queue ind r₁ r₂).t = some tsk) ∧
      inQueues (trySteal s.queue ind r₁ r₂).queue +
        ((trySteal s.queue ind r₁ r₂).t.toList : Multiset τ) = inQueues s.queue := by
  refine ⟨?_, fun ind r₁ r₂ => ?_⟩
  · exact Run.invariant (P := Conserves) h (conserves_init n τ) fun _ _ _ hs _ => hs.step
  · exact ⟨(trySteal_fair _ _ _ _).ret, (trySteal_fair _ _ _ _).total⟩

/-- A task submitted from outside is stolen and run by worker `1`, one that worker `2` submits is
still in its queue. -/
def stolen : List (Act 3 Nat) :=
  [.submitOutside 0 7, .tryPopLocal 1, .trySteal 1 1 0, .submitOutside 2 8, .tryPopLocal 2,
    .submit 2 9, .finish 1]

theorem conservation_three : ∃ s : Pool 3 Nat, Reach Pool.step (init 3 Nat) s ∧
    s.executed = [7] ∧ s.queue 2 = [9] ∧ s.worker 2 = .run (some 8) ∧
    (s.submitted : Multiset Nat) = inQueues s.queue + s.held + (s.executed : Multiset Nat) := by
  obtain ⟨s, hrun, hexec, hqueue, hworker⟩ : ∃ s : Pool 3 Nat, Reach Pool.step (init 3 Nat) s ∧
      (s.executed = [7] ∧ s.queue 2 = [9] ∧ s.worker 2 = .run (some 8)) :=
    exists_of_exec stolen (by decide)
  exact ⟨s, hrun, hexec, hqueue, hworker, (conservation hrun).1⟩

end Pool

end TiPI.ThreadPool
