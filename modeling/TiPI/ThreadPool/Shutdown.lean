import TiPI.ThreadPool.Conservation

/-!
# Shutdown

A worker leaves when an attempt to pop, an attempt to steal and then `done` have told it so. The
queue of a worker that has left stays empty when it was empty at that moment and no other worker
shifts a task into it.
-/

namespace TiPI.ThreadPool

variable {n : Nat} {τ : Type*}

/-- The queue into which `trySteal` shifts a task that its caller does not get. -/
def shiftsTo (queue : Queues n τ) (ind r₁ r₂ : Fin n) : Option (Fin n) :=
  if n < 2 then none
  else
    let (th₁, th₂) := ordered r₁ r₂
    if (queue th₁).length > (queue th₂).length then if ind = th₂ then none else some th₂
    else if (queue th₁).length < (queue th₂).length then if ind = th₁ then none else some th₁
    else none

lemma giveLast_empty {queue : Queues n τ} {j : Fin n} (hj : queue j = [])
    {ind longer shorter : Fin n} (hne : ind ≠ shorter → shorter ≠ j) :
    (giveLast queue ind longer shorter).queue j = [] := by
  have hdrop : Function.update queue longer (queue longer).dropLast j = [] := by
    by_cases hl : j = longer
    · subst hl
      simp [hj]
    · rw [Function.update_of_ne hl, hj]
  unfold giveLast
  split
  · exact hj
  · dsimp only
    split
    · exact hdrop
    · next hind =>
      dsimp only
      rw [Function.update_of_ne (hne hind).symm]
      exact hdrop

/-- An empty queue stays empty unless a task is shifted into it. -/
lemma trySteal_empty {queue : Queues n τ} {j : Fin n} (hj : queue j = []) {ind r₁ r₂ : Fin n}
    (hshift : shiftsTo queue ind r₁ r₂ ≠ some j) : (trySteal queue ind r₁ r₂).queue j = [] := by
  unfold shiftsTo at hshift
  unfold trySteal
  split
  · exact hj
  · next hn =>
    rw [if_neg hn] at hshift
    dsimp only at hshift ⊢
    split
    · next hgt =>
      rw [if_pos hgt] at hshift
      refine giveLast_empty hj fun hne => ?_
      rw [if_neg hne] at hshift
      exact fun heq => hshift (congrArg some heq)
    · next hgt =>
      rw [if_neg hgt] at hshift
      split
      · next hlt =>
        rw [if_pos hlt] at hshift
        refine giveLast_empty hj fun hne => ?_
        rw [if_neg hne] at hshift
        exact fun heq => hshift (congrArg some heq)
      · exact hj

lemma tryPopLocal_of_ne {queue : Queues n τ} {i j : Fin n} (h : j ≠ i) :
    (tryPopLocal queue i).queue j = queue j := by
  unfold tryPopLocal
  split
  · rfl
  · exact Function.update_of_ne h _ _

namespace Pool

/-- Threads that are no workers submit before `~ThreadPool` starts. -/
def SubmitsBefore (s : Pool n τ) : Act n τ → Prop
  | .submitOutside _ _ => s.done = false
  | _ => True

/-- A worker leaves an empty queue behind, and no task is shifted into the queue of a worker that
has left. -/
def Drains (s : Pool n τ) : Act n τ → Prop
  | .submitOutside _ _ => s.done = false
  | .checkDone i => s.done = true → s.queue i = []
  | .trySteal i r₁ r₂ => ∀ j ∈ shiftsTo s.queue i r₁ r₂, s.worker j ≠ .left
  | _ => True

instance (s : Pool n τ) (a : Act n τ) : Decidable (s.SubmitsBefore a) := by
  unfold SubmitsBefore
  split <;> infer_instance

instance [DecidableEq τ] (s : Pool n τ) (a : Act n τ) : Decidable (s.Drains a) := by
  unfold Drains
  split <;> infer_instance

/-- Whoever has left has seen `done` and has an empty queue. -/
structure LeftEmpty (s : Pool n τ) (i : Fin n) : Prop where
  done : s.done = true
  queue : s.queue i = []

lemma left_of_took {s : Pool n τ} {i j : Fin n} {o : Outcome n τ} {next : Worker τ}
    (hnext : next ≠ .left) (hj : (s.took i o next).worker j = .left) :
    j ≠ i ∧ s.worker j = .left := by
  by_cases hji : j = i
  · subst hji
    simp only [took, Function.update_self] at hj
    split at hj
    · simp at hj
    · exact absurd hj hnext
  · simp only [took, Function.update_of_ne hji] at hj
    exact ⟨hji, hj⟩

lemma leftEmpty_step {s s' : Pool n τ} {a : Act n τ}
    (h : ∀ i, s.worker i = .left → s.LeftEmpty i) (hok : s.Drains a) (hstep : s.step a = some s')
    {j : Fin n} (hj : s'.worker j = .left) : s'.LeftEmpty j := by
  cases step_cases hstep with
  | tryPopLocal i pc =>
    obtain ⟨hne, hleft⟩ := left_of_took (by simp) hj
    exact ⟨(h j hleft).done, (tryPopLocal_of_ne hne).trans (h j hleft).queue⟩
  | trySteal i r₁ r₂ pc =>
    obtain ⟨-, hleft⟩ := left_of_took (by simp) hj
    exact ⟨(h j hleft).done,
      trySteal_empty (h j hleft).queue fun hshift => hok j hshift hleft⟩
  | leave i pc done =>
    by_cases hji : j = i
    · subst hji
      exact ⟨done, hok done⟩
    · dsimp only at hj
      rw [Function.update_of_ne hji] at hj
      exact ⟨(h j hj).done, (h j hj).queue⟩
  | retry i pc done =>
    by_cases hji : j = i
    · subst hji
      simp at hj
    · dsimp only at hj
      rw [Function.update_of_ne hji] at hj
      exact ⟨(h j hj).done, (h j hj).queue⟩
  | finish i t pc =>
    by_cases hji : j = i
    · subst hji
      simp at hj
    · dsimp only at hj
      rw [Function.update_of_ne hji] at hj
      exact ⟨(h j hj).done, (h j hj).queue⟩
  | submit i tsk t pc =>
    have hne : j ≠ i := by
      rintro rfl
      simp only [push, pc] at hj
      simp at hj
    refine ⟨(h j hj).done, ?_⟩
    simp only [push, Function.update_of_ne hne]
    exact (h j hj).queue
  | submitOutside i tsk =>
    have hdone := (h j hj).done
    simp [Drains, hdone] at hok
  | destroy => exact ⟨rfl, (h j hj).queue⟩

/-- When all workers have left, the queues are empty and every submitted task has been run. -/
theorem shutdown_drains {s : Pool n τ} (h : Run Pool.step Drains (init n τ) s)
    (hleft : ∀ i, s.worker i = .left) :
    (∀ i, s.queue i = []) ∧ (s.submitted : Multiset τ) = (s.executed : Multiset τ) := by
  have hempty : ∀ i, s.queue i = [] := by
    have hinv : ∀ i, s.worker i = .left → s.LeftEmpty i :=
      Run.invariant (P := fun s : Pool n τ => ∀ i, s.worker i = .left → s.LeftEmpty i) h
        (by simp [init]) fun _ _ _ hs hok hstep _ => leftEmpty_step hs hok hstep
    exact fun i => (hinv i (hleft i)).queue
  refine ⟨hempty, ?_⟩
  have hconserves := (conservation (h.mono fun _ _ _ => trivial)).1
  have hheld : s.held = 0 := by simp [held, hleft, Worker.held]
  have hqueue : inQueues s.queue = 0 := by simp [inQueues, hempty]
  rw [hconserves, hheld, hqueue, add_zero, zero_add]

/-- Worker `1` leaves at once, worker `0` after it has run the task. -/
def drained : List (Act 2 Nat) :=
  [.submitOutside 0 7, .destroy, .tryPopLocal 0, .tryPopLocal 1, .trySteal 1 0 1, .checkDone 1,
    .finish 0, .tryPopLocal 0, .trySteal 0 0 1, .checkDone 0]

theorem shutdown_drains_two : ∃ s : Pool 2 Nat, Run Pool.step Drains (init 2 Nat) s ∧
    s.executed = [7] ∧ (∀ i, s.queue i = []) ∧
    (s.submitted : Multiset Nat) = (s.executed : Multiset Nat) := by
  obtain ⟨s, hrun, hexec, hleft⟩ : ∃ s : Pool 2 Nat, Run Pool.step Drains (init 2 Nat) s ∧
      (s.executed = [7] ∧ ∀ i, s.worker i = .left) := exists_of_exec drained (by decide)
  exact ⟨s, hrun, hexec, shutdown_drains hrun hleft⟩

/-- The task comes after the only worker has found its queue empty and before it reads `done`. -/
def missed : List (Act 1 Nat) :=
  [.tryPopLocal 0, .trySteal 0 0 0, .submitOutside 0 7, .destroy, .checkDone 0]

theorem task_left_behind : ∃ s : Pool 1 Nat, Run Pool.step SubmitsBefore (init 1 Nat) s ∧
    (∀ i, s.worker i = .left) ∧ s.submitted = [7] ∧ s.queue 0 = [7] ∧ s.executed = [] :=
  exists_of_exec missed (by decide)

end Pool

end TiPI.ThreadPool
