import TiPI.Lib.Linearizable
import TiPI.Lib.Run
import Mathlib.Logic.Function.Basic

/-!
# The atomic object of a sequential specification

Each thread calls an operation, the operation takes effect in one step, and the call returns the
result of that step. A concurrent object is linearizable when its calls and returns, with the
moments at which the operations take effect put between them, are a run of the atomic object.
-/

namespace TiPI

inductive OpEvent (Op Res : Type*)
  | call (thread : Nat) (op : Op)
  | effect (thread : Nat) (op : Op) (res : Res)
  | ret (thread : Nat) (res : Res)
  deriving DecidableEq

inductive Phase (Op Res : Type*)
  | idle
  | called (op : Op)
  | effected (res : Res)
  deriving DecidableEq

structure Atomic (σ Op Res : Type*) where
  obj : σ
  phase : Nat → Phase Op Res

variable {σ Op Res : Type*}

namespace Atomic

def start (s₀ : σ) : Atomic σ Op Res := ⟨s₀, fun _ => .idle⟩

def setPhase (o : Atomic σ Op Res) (t : Nat) (p : Phase Op Res) : Atomic σ Op Res :=
  { o with phase := Function.update o.phase t p }

@[simp] lemma setPhase_obj (o : Atomic σ Op Res) (t : Nat) (p : Phase Op Res) :
    (o.setPhase t p).obj = o.obj := rfl

/-- `spec s op` is the state and the result of `op` in the state `s`. -/
def step [DecidableEq Op] [DecidableEq Res] (spec : σ → Op → σ × Res) (o : Atomic σ Op Res) :
    OpEvent Op Res → Option (Atomic σ Op Res)
  | .call t op => if o.phase t = .idle then some (o.setPhase t (.called op)) else none
  | .effect t op res =>
    if o.phase t = .called op ∧ (spec o.obj op).2 = res then
      some ({ o with obj := (spec o.obj op).1 }.setPhase t (.effected res))
    else none
  | .ret t res => if o.phase t = .effected res then some (o.setPhase t .idle) else none

/-- The operations of a trace in the order in which they take effect. -/
def effects : List (OpEvent Op Res) → List (Completed Op Res) :=
  List.filterMap fun
    | .effect t op res => some ⟨t, op, res⟩
    | .call _ _ | .ret _ _ => none

lemma effects_concat (tr : List (OpEvent Op Res)) (ev : OpEvent Op Res) :
    effects (tr ++ [ev]) = effects tr ++ effects [ev] := List.filterMap_append

variable [DecidableEq Op] [DecidableEq Res] {spec : σ → Op → σ × Res}

/-- The order of the effects is one the sequential object goes through. -/
lemma legal_of_steps {s₀ : σ} {tr : List (OpEvent Op Res)} {o : Atomic σ Op Res}
    (h : AllSteps (step spec) (start s₀) tr o) :
    Legal (fun s op res s' => spec s op = (s', res)) s₀ (effects tr) o.obj := by
  induction h with
  | nil => exact .nil s₀
  | @snoc tr o o' ev _ _ hstep ih =>
    rw [effects_concat]
    cases ev with
    | call t op =>
      simp only [step, Option.ite_none_right_eq_some, Option.some.injEq] at hstep
      obtain ⟨-, rfl⟩ := hstep
      simpa [effects] using ih
    | effect t op res =>
      simp only [step, Option.ite_none_right_eq_some, Option.some.injEq] at hstep
      obtain ⟨⟨-, hres⟩, rfl⟩ := hstep
      exact ih.concat (Prod.ext rfl hres)
    | ret t res =>
      simp only [step, Option.ite_none_right_eq_some, Option.some.injEq] at hstep
      obtain ⟨-, rfl⟩ := hstep
      simpa [effects] using ih

end Atomic

end TiPI
