import TiPI.Lib.Run
import Mathlib.Data.Multiset.Basic
import Mathlib.Algebra.BigOperators.Fin
import Mathlib.Algebra.Order.Group.Multiset

/-!
# The work-stealing thread pool

`n` workers, each with a queue of its own. Every queue operation holds the locks of the queues it
touches, so it is one step. The values of `rand()` and the order of the steps are arbitrary. Tasks
do not throw; a task that runs may submit further tasks.
-/

namespace TiPI.ThreadPool

variable {n : Nat} {τ : Type*}

/-- Front first: tasks are pushed at the front and taken from the back. -/
abbrev Queues (n : Nat) (τ : Type*) := Fin n → List τ

/-- What a queue operation returns, what it stores in `t`, and the queues after it. -/
structure Outcome (n : Nat) (τ : Type*) where
  ret : Bool
  t : Option τ
  queue : Queues n τ

def tryPopLocal (queue : Queues n τ) (ind : Fin n) : Outcome n τ :=
  match (queue ind).getLast? with
  | none => ⟨false, none, queue⟩
  | some t => ⟨true, some t, Function.update queue ind (queue ind).dropLast⟩

/-- The body of both branches of `trySteal`: the longer queue gives its last task away. -/
def giveLast (queue : Queues n τ) (ind longer shorter : Fin n) : Outcome n τ :=
  match (queue longer).getLast? with
  | none => ⟨false, none, queue⟩
  | some stealed =>
    let queue := Function.update queue longer (queue longer).dropLast
    if ind = shorter then ⟨true, some stealed, queue⟩
    else ⟨false, none, Function.update queue shorter (stealed :: queue shorter)⟩

/-- The two random indices in order. -/
def ordered (r₁ r₂ : Fin n) : Fin n × Fin n := if r₁ > r₂ then (r₂, r₁) else (r₁, r₂)

/-- `trySteal` of the worker `ind`; `r₁` and `r₂` are the indices its random loop ends with. -/
def trySteal (queue : Queues n τ) (ind r₁ r₂ : Fin n) : Outcome n τ :=
  if n < 2 then ⟨false, none, queue⟩
  else
    let (th₁, th₂) := ordered r₁ r₂
    if (queue th₁).length > (queue th₂).length then giveLast queue ind th₁ th₂
    else if (queue th₁).length < (queue th₂).length then giveLast queue ind th₂ th₁
    else ⟨false, none, queue⟩

/-- Where a worker is in its loop. -/
inductive Worker (τ : Type*)
  | pop
  | steal
  /-- both attempts have failed, `done` is read next -/
  | check
  /-- the task in the local `t` runs -/
  | run (t : Option τ)
  | left
  deriving DecidableEq

structure Pool (n : Nat) (τ : Type*) where
  queue : Queues n τ
  worker : Fin n → Worker τ
  done : Bool
  /-- the tasks given to `submit` so far -/
  submitted : List τ
  /-- the tasks that have been run -/
  executed : List τ

inductive Act (n : Nat) (τ : Type*)
  | tryPopLocal (i : Fin n)
  | trySteal (i r₁ r₂ : Fin n)
  | checkDone (i : Fin n)
  | finish (i : Fin n)
  /-- the task that worker `i` runs submits a task -/
  | submit (i : Fin n) (tsk : τ)
  /-- a thread that is no worker submits a task to the queue `j` -/
  | submitOutside (j : Fin n) (tsk : τ)
  /-- `~ThreadPool` starts -/
  | destroy

namespace Pool

def init (n : Nat) (τ : Type*) : Pool n τ := ⟨fun _ => [], fun _ => .pop, false, [], []⟩

/-- `submit` on the queue `j`. -/
def push (s : Pool n τ) (j : Fin n) (tsk : τ) : Pool n τ :=
  { s with
    queue := Function.update s.queue j (tsk :: s.queue j)
    submitted := s.submitted ++ [tsk] }

/-- Worker `i` has made a queue operation and goes on with its task, or at `next`. -/
def took (s : Pool n τ) (i : Fin n) (o : Outcome n τ) (next : Worker τ) : Pool n τ :=
  { s with
    queue := o.queue
    worker := Function.update s.worker i (if o.ret then .run o.t else next) }

def step (s : Pool n τ) : Act n τ → Option (Pool n τ)
  | .tryPopLocal i =>
    match s.worker i with
    | .pop => some (s.took i (tryPopLocal s.queue i) .steal)
    | _ => none
  | .trySteal i r₁ r₂ =>
    match s.worker i with
    | .steal =>
      if 2 ≤ n ∧ r₁ = r₂ then none else some (s.took i (trySteal s.queue i r₁ r₂) .check)
    | _ => none
  | .checkDone i =>
    match s.worker i with
    | .check =>
      some { s with worker := Function.update s.worker i (if s.done then .left else .pop) }
    | _ => none
  | .finish i =>
    match s.worker i with
    | .run t =>
      some { s with
        worker := Function.update s.worker i .pop
        executed := s.executed ++ t.toList }
    | _ => none
  | .submit i tsk =>
    match s.worker i with
    | .run _ => some (s.push i tsk)
    | _ => none
  | .submitOutside j tsk => some (s.push j tsk)
  | .destroy => some { s with done := true }

/-- The branches of a step. -/
inductive StepCase (s : Pool n τ) : Act n τ → Pool n τ → Prop
  | tryPopLocal (i : Fin n) (pc : s.worker i = .pop) :
      StepCase s (.tryPopLocal i) (s.took i (ThreadPool.tryPopLocal s.queue i) .steal)
  | trySteal (i r₁ r₂ : Fin n) (pc : s.worker i = .steal) (distinct : 2 ≤ n → r₁ ≠ r₂) :
      StepCase s (.trySteal i r₁ r₂) (s.took i (ThreadPool.trySteal s.queue i r₁ r₂) .check)
  | leave (i : Fin n) (pc : s.worker i = .check) (done : s.done = true) :
      StepCase s (.checkDone i) { s with worker := Function.update s.worker i .left }
  | retry (i : Fin n) (pc : s.worker i = .check) (done : s.done = false) :
      StepCase s (.checkDone i) { s with worker := Function.update s.worker i .pop }
  | finish (i : Fin n) (t : Option τ) (pc : s.worker i = .run t) :
      StepCase s (.finish i)
        { s with
          worker := Function.update s.worker i .pop
          executed := s.executed ++ t.toList }
  | submit (i : Fin n) (tsk : τ) (t : Option τ) (pc : s.worker i = .run t) :
      StepCase s (.submit i tsk) (s.push i tsk)
  | submitOutside (j : Fin n) (tsk : τ) : StepCase s (.submitOutside j tsk) (s.push j tsk)
  | destroy : StepCase s .destroy { s with done := true }

lemma step_cases {s s' : Pool n τ} {a : Act n τ} (h : s.step a = some s') : StepCase s a s' := by
  cases a with
  | tryPopLocal i =>
    simp only [step] at h
    split at h
    · next pc =>
      obtain rfl := Option.some.inj h
      exact .tryPopLocal i pc
    · simp at h
  | trySteal i r₁ r₂ =>
    simp only [step] at h
    split at h
    · next pc =>
      simp only [Option.ite_none_left_eq_some, not_and, Option.some.injEq] at h
      obtain ⟨hne, rfl⟩ := h
      exact .trySteal i r₁ r₂ pc hne
    · simp at h
  | checkDone i =>
    simp only [step] at h
    split at h
    · next pc =>
      obtain rfl := Option.some.inj h
      by_cases hd : s.done = true
      · rw [if_pos hd]
        exact .leave i pc hd
      · rw [if_neg hd]
        exact .retry i pc (Bool.not_eq_true _ ▸ hd)
    · simp at h
  | finish i =>
    simp only [step] at h
    split at h
    · next t pc =>
      obtain rfl := Option.some.inj h
      exact .finish i t pc
    · simp at h
  | submit i tsk =>
    simp only [step] at h
    split at h
    · next t pc =>
      obtain rfl := Option.some.inj h
      exact .submit i tsk t pc
    · simp at h
  | submitOutside j tsk =>
    obtain rfl := Option.some.inj h
    exact .submitOutside j tsk
  | destroy =>
    obtain rfl := Option.some.inj h
    exact .destroy

end Pool

end TiPI.ThreadPool
