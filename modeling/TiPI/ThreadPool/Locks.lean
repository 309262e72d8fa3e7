import TiPI.ThreadPool.Conservation
import TiPI.Lib.Mutex

/-!
# The locks of the thread pool

Here a thread takes the locks of the queues one at a time and every access to a queue is a step of
its own. What the threads do together is what they do in the pool whose queue operations are one
step: `abs` is the state of that pool.
-/

namespace TiPI.ThreadPool

variable {n : Nat} {τ : Type*}

/-- Where a call of `submit` is. -/
inductive Submit (n : Nat) (τ : Type*)
  | none
  | lock (j : Fin n) (tsk : τ)
  | pushFront (j : Fin n) (tsk : τ)
  | unlock (j : Fin n)
  deriving DecidableEq

/-- Where a worker is, with its local variables. -/
inductive Place (n : Nat) (τ : Type*)
  /-- `tryPopLocal` in front of its lock -/
  | pop
  | empty
  | back
  | popBack (t : τ)
  | popUnlock (t : Option τ)
  /-- `trySteal` in front of its random indices -/
  | steal
  | lockFirst (th₁ th₂ : Fin n)
  | lockSecond (th₁ th₂ : Fin n)
  | size (th₁ th₂ : Fin n)
  /-- `first` is whether `q1` is the longer queue -/
  | stealBack (th₁ th₂ : Fin n) (first : Bool)
  | stealPop (th₁ th₂ : Fin n) (first : Bool) (stealed : τ)
  | give (th₁ th₂ : Fin n) (first : Bool) (stealed : τ)
  | unlockSecond (th₁ th₂ : Fin n) (t : Option τ)
  | unlockFirst (th₁ : Fin n) (t : Option τ)
  | check
  | run (t : Option τ) (sub : Submit n τ)
  | left
  deriving DecidableEq

/-- The queue that gives a task away, and the one that gets it. -/
def longer (th₁ th₂ : Fin n) (first : Bool) : Fin n := if first then th₁ else th₂

def shorter (th₁ th₂ : Fin n) (first : Bool) : Fin n := if first then th₂ else th₁

/-- A worker, or one of the other threads. -/
abbrev Party (n : Nat) := Fin n ⊕ Nat

structure Locked (n : Nat) (τ : Type*) where
  /-- who holds the lock of a queue -/
  owner : Fin n → Option (Party n)
  queue : Queues n τ
  place : Fin n → Place n τ
  outside : Nat → Submit n τ
  done : Bool
  submitted : List τ
  executed : List τ

inductive LockAct (n : Nat) (τ : Type*)
  /-- the next step of the loop of worker `i` -/
  | go (i : Fin n)
  /-- worker `i` has drawn two indices -/
  | draw (i r₁ r₂ : Fin n)
  | finish (i : Fin n)
  /-- the task that worker `i` runs calls `submit` -/
  | submit (i : Fin n) (tsk : τ)
  /-- the next step of that call -/
  | goSubmit (i : Fin n)
  /-- another thread calls `submit`, which chooses the queue `j` -/
  | submitOutside (k : Nat) (j : Fin n) (tsk : τ)
  | goOutside (k : Nat)
  | destroy

namespace Locked

def init (n : Nat) (τ : Type*) : Locked n τ :=
  ⟨fun _ => none, fun _ => [], fun _ => .pop, fun _ => .none, false, [], []⟩

def setPlace (s : Locked n τ) (i : Fin n) (p : Place n τ) : Locked n τ :=
  { s with place := Function.update s.place i p }

def setQueue (s : Locked n τ) (j : Fin n) (q : List τ) : Locked n τ :=
  { s with queue := Function.update s.queue j q }

def lock (s : Locked n τ) (j : Fin n) (w : Party n) : Option (Locked n τ) :=
  if s.owner j = none then some { s with owner := Function.update s.owner j (some w) } else none

def unlock (s : Locked n τ) (j : Fin n) : Locked n τ :=
  { s with owner := Function.update s.owner j none }

/-- `push_front` of a call of `submit`. -/
def push (s : Locked n τ) (j : Fin n) (tsk : τ) : Locked n τ :=
  { s with
    queue := Function.update s.queue j (tsk :: s.queue j)
    submitted := s.submitted ++ [tsk] }

/-- The next step of a call of `submit` by `w`. -/
def stepSubmit (s : Locked n τ) (w : Party n) : Submit n τ → Option (Locked n τ × Submit n τ)
  | .lock j tsk => (s.lock j w).map fun s => (s, .pushFront j tsk)
  | .pushFront j tsk => some (s.push j tsk, .unlock j)
  | .unlock j => some (s.unlock j, .none)
  | .none => none

/-- The next step of the loop of worker `i`. -/
def stepWorker (s : Locked n τ) (i : Fin n) : Place n τ → Option (Locked n τ)
  | .pop => (s.lock i (.inl i)).map fun s => s.setPlace i .empty
  | .empty => some (s.setPlace i (if s.queue i = [] then .popUnlock none else .back))
  | .back => (s.queue i).getLast?.map fun t => s.setPlace i (.popBack t)
  | .popBack t => some ((s.setQueue i (s.queue i).dropLast).setPlace i (.popUnlock (some t)))
  | .popUnlock t =>
    some ((s.unlock i).setPlace i (if t.isSome then .run t .none else .steal))
  | .lockFirst th₁ th₂ => (s.lock th₁ (.inl i)).map fun s => s.setPlace i (.lockSecond th₁ th₂)
  | .lockSecond th₁ th₂ => (s.lock th₂ (.inl i)).map fun s => s.setPlace i (.size th₁ th₂)
  | .size th₁ th₂ =>
    some (s.setPlace i (
      if (s.queue th₁).length > (s.queue th₂).length then .stealBack th₁ th₂ true
      else if (s.queue th₁).length < (s.queue th₂).length then .stealBack th₁ th₂ false
      else .unlockSecond th₁ th₂ none))
  | .stealBack th₁ th₂ first =>
    (s.queue (longer th₁ th₂ first)).getLast?.map fun stealed =>
      s.setPlace i (.stealPop th₁ th₂ first stealed)
  | .stealPop th₁ th₂ first stealed =>
    some ((s.setQueue (longer th₁ th₂ first) (s.queue (longer th₁ th₂ first)).dropLast).setPlace i
      (.give th₁ th₂ first stealed))
  | .give th₁ th₂ first stealed =>
    if i = shorter th₁ th₂ first then some (s.setPlace i (.unlockSecond th₁ th₂ (some stealed)))
    else some ((s.setQueue (shorter th₁ th₂ first)
      (stealed :: s.queue (shorter th₁ th₂ first))).setPlace i (.unlockSecond th₁ th₂ none))
  | .unlockSecond th₁ th₂ t => some ((s.unlock th₂).setPlace i (.unlockFirst th₁ t))
  | .unlockFirst th₁ t =>
    some ((s.unlock th₁).setPlace i (if t.isSome then .run t .none else .check))
  | .check => some (s.setPlace i (if s.done then .left else .pop))
  | .steal | .run _ _ | .left => none

def step (s : Locked n τ) : LockAct n τ → Option (Locked n τ)
  | .go i => s.stepWorker i (s.place i)
  | .draw i r₁ r₂ =>
    match s.place i with
    | .steal =>
      if n < 2 then some (s.setPlace i .check)
      else if r₁ = r₂ then none
      else some (s.setPlace i (.lockFirst (ordered r₁ r₂).1 (ordered r₁ r₂).2))
    | _ => none
  | .finish i =>
    match s.place i with
    | .run t .none => some { s.setPlace i .pop with executed := s.executed ++ t.toList }
    | _ => none
  | .submit i tsk =>
    match s.place i with
    | .run t .none => some (s.setPlace i (.run t (.lock i tsk)))
    | _ => none
  | .goSubmit i =>
    match s.place i with
    | .run t sub => (s.stepSubmit (.inl i) sub).map fun p => p.1.setPlace i (.run t p.2)
    | _ => none
  | .submitOutside k j tsk =>
    match s.outside k with
    | .none => some { s with outside := Function.update s.outside k (.lock j tsk) }
    | _ => none
  | .goOutside k =>
    (s.stepSubmit (.inr k) (s.outside k)).map fun p =>
      { p.1 with outside := Function.update p.1.outside k p.2 }
  | .destroy => some { s with done := true }

/-- The branches of a call of `submit`. -/
inductive SubmitCase (s : Locked n τ) (w : Party n) : Submit n τ → Locked n τ → Submit n τ → Prop
  | lock (j : Fin n) (tsk : τ) (free : s.owner j = none) :
      SubmitCase s w (.lock j tsk) { s with owner := Function.update s.owner j (some w) }
        (.pushFront j tsk)
  | pushFront (j : Fin n) (tsk : τ) :
      SubmitCase s w (.pushFront j tsk) (s.push j tsk) (.unlock j)
  | unlock (j : Fin n) : SubmitCase s w (.unlock j) (s.unlock j) .none

/-- The branches of a step. -/
inductive StepCase (s : Locked n τ) : LockAct n τ → Locked n τ → Prop
  | pop (i : Fin n) (place : s.place i = .pop) (free : s.owner i = none) :
      StepCase s (.go i)
        (setPlace { s with owner := Function.update s.owner i (some (.inl i)) } i .empty)
  | empty (i : Fin n) (place : s.place i = .empty) (nothing : s.queue i = []) :
      StepCase s (.go i) (s.setPlace i (.popUnlock none))
  | notEmpty (i : Fin n) (place : s.place i = .empty) (something : s.queue i ≠ []) :
      StepCase s (.go i) (s.setPlace i .back)
  | back (i : Fin n) (t : τ) (place : s.place i = .back) (last : (s.queue i).getLast? = some t) :
      StepCase s (.go i) (s.setPlace i (.popBack t))
  | popBack (i : Fin n) (t : τ) (place : s.place i = .popBack t) :
      StepCase s (.go i)
        ((s.setQueue i (s.queue i).dropLast).setPlace i (.popUnlock (some t)))
  | popUnlock (i : Fin n) (t : Option τ) (place : s.place i = .popUnlock t) :
      StepCase s (.go i)
        ((s.unlock i).setPlace i (if t.isSome then .run t .none else .steal))
  | lockFirst (i th₁ th₂ : Fin n) (place : s.place i = .lockFirst th₁ th₂)
      (free : s.owner th₁ = none) :
      StepCase s (.go i) (setPlace
        { s with owner := Function.update s.owner th₁ (some (.inl i)) } i (.lockSecond th₁ th₂))
  | lockSecond (i th₁ th₂ : Fin n) (place : s.place i = .lockSecond th₁ th₂)
      (free : s.owner th₂ = none) :
      StepCase s (.go i) (setPlace
        { s with owner := Function.update s.owner th₂ (some (.inl i)) } i (.size th₁ th₂))
  | differ (i th₁ th₂ : Fin n) (first : Bool) (place : s.place i = .size th₁ th₂)
      (lt : (s.queue (shorter th₁ th₂ first)).length < (s.queue (longer th₁ th₂ first)).length) :
      StepCase s (.go i) (s.setPlace i (.stealBack th₁ th₂ first))
  | same (i th₁ th₂ : Fin n) (place : s.place i = .size th₁ th₂)
      (eq : (s.queue th₁).length = (s.queue th₂).length) :
      StepCase s (.go i) (s.setPlace i (.unlockSecond th₁ th₂ none))
  | stealBack (i th₁ th₂ : Fin n) (first : Bool) (stealed : τ)
      (place : s.place i = .stealBack th₁ th₂ first)
      (last : (s.queue (longer th₁ th₂ first)).getLast? = some stealed) :
      StepCase s (.go i) (s.setPlace i (.stealPop th₁ th₂ first stealed))
  | stealPop (i th₁ th₂ : Fin n) (first : Bool) (stealed : τ)
      (place : s.place i = .stealPop th₁ th₂ first stealed) :
      StepCase s (.go i) ((s.setQueue (longer th₁ th₂ first)
        (s.queue (longer th₁ th₂ first)).dropLast).setPlace i (.give th₁ th₂ first stealed))
  | take (i th₁ th₂ : Fin n) (first : Bool) (stealed : τ)
      (place : s.place i = .give th₁ th₂ first stealed) (mine : i = shorter th₁ th₂ first) :
      StepCase s (.go i) (s.setPlace i (.unlockSecond th₁ th₂ (some stealed)))
  | give (i th₁ th₂ : Fin n) (first : Bool) (stealed : τ)
      (place : s.place i = .give th₁ th₂ first stealed) (other : i ≠ shorter th₁ th₂ first) :
      StepCase s (.go i) ((s.setQueue (shorter th₁ th₂ first)
        (stealed :: s.queue (shorter th₁ th₂ first))).setPlace i (.unlockSecond th₁ th₂ none))
  | unlockSecond (i th₁ th₂ : Fin n) (t : Option τ) (place : s.place i = .unlockSecond th₁ th₂ t) :
      StepCase s (.go i) ((s.unlock th₂).setPlace i (.unlockFirst th₁ t))
  | unlockFirst (i th₁ : Fin n) (t : Option τ) (place : s.place i = .unlockFirst th₁ t) :
      StepCase s (.go i)
        ((s.unlock th₁).setPlace i (if t.isSome then .run t .none else .check))
  | check (i : Fin n) (place : s.place i = .check) :
      StepCase s (.go i) (s.setPlace i (if s.done then .left else .pop))
  | alone (i r₁ r₂ : Fin n) (place : s.place i = .steal) (one : n < 2) :
      StepCase s (.draw i r₁ r₂) (s.setPlace i .check)
  | draw (i r₁ r₂ : Fin n) (place : s.place i = .steal) (two : 2 ≤ n) (distinct : r₁ ≠ r₂) :
      StepCase s (.draw i r₁ r₂)
        (s.setPlace i (.lockFirst (ordered r₁ r₂).1 (ordered r₁ r₂).2))
  | finish (i : Fin n) (t : Option τ) (place : s.place i = .run t .none) :
      StepCase s (.finish i) { s.setPlace i .pop with executed := s.executed ++ t.toList }
  | submit (i : Fin n) (tsk : τ) (t : Option τ) (place : s.place i = .run t .none) :
      StepCase s (.submit i tsk) (s.setPlace i (.run t (.lock i tsk)))
  | goSubmit (i : Fin n) (t : Option τ) (sub sub' : Submit n τ) (s' : Locked n τ)
      (place : s.place i = .run t sub) (step : SubmitCase s (.inl i) sub s' sub') :
      StepCase s (.goSubmit i) (s'.setPlace i (.run t sub'))
  | submitOutside (k : Nat) (j : Fin n) (tsk : τ) (idle : s.outside k = .none) :
      StepCase s (.submitOutside k j tsk)
        { s with outside := Function.update s.outside k (.lock j tsk) }
  | goOutside (k : Nat) (sub' : Submit n τ) (s' : Locked n τ)
      (step : SubmitCase s (.inr k) (s.outside k) s' sub') :
      StepCase s (.goOutside k) { s' with outside := Function.update s'.outside k sub' }
  | destroy : StepCase s .destroy { s with done := true }

variable {s s' : Locked n τ} {a : LockAct n τ}

lemma lock_cases {j : Fin n} {w : Party n} (h : s.lock j w = some s') :
    s.owner j = none ∧ s' = { s with owner := Function.update s.owner j (some w) } := by
  simp only [lock, Option.ite_none_right_eq_some, Option.some.injEq] at h
  exact ⟨h.1, h.2.symm⟩

lemma submit_cases {w : Party n} {sub sub' : Submit n τ}
    (h : s.stepSubmit w sub = some (s', sub')) : SubmitCase s w sub s' sub' := by
  cases sub with
  | none => simp [stepSubmit] at h
  | lock j tsk =>
    simp only [stepSubmit, Option.map_eq_some_iff, Prod.mk.injEq] at h
    obtain ⟨s₁, hlock, rfl, rfl⟩ := h
    obtain ⟨hfree, rfl⟩ := lock_cases hlock
    exact .lock j tsk hfree
  | pushFront j tsk =>
    obtain ⟨rfl, rfl⟩ := Prod.mk.inj (Option.some.inj h)
    exact .pushFront j tsk
  | unlock j =>
    obtain ⟨rfl, rfl⟩ := Prod.mk.inj (Option.some.inj h)
    exact .unlock j

lemma worker_cases {i : Fin n} (h : s.stepWorker i (s.place i) = some s') :
    StepCase s (.go i) s' := by
  cases hp : s.place i with
  | pop =>
    simp only [hp, stepWorker, Option.map_eq_some_iff] at h
    obtain ⟨s₁, hlock, rfl⟩ := h
    obtain ⟨hfree, rfl⟩ := lock_cases hlock
    exact .pop i hp hfree
  | empty =>
    simp only [hp, stepWorker, Option.some.injEq] at h
    subst h
    split_ifs with hnone
    · exact .empty i hp hnone
    · exact .notEmpty i hp hnone
  | back =>
    simp only [hp, stepWorker, Option.map_eq_some_iff] at h
    obtain ⟨t, hlast, rfl⟩ := h
    exact .back i t hp hlast
  | popBack t =>
    simp only [hp, stepWorker, Option.some.injEq] at h
    subst h
    exact .popBack i t hp
  | popUnlock t =>
    simp only [hp, stepWorker, Option.some.injEq] at h
    subst h
    exact .popUnlock i t hp
  | lockFirst th₁ th₂ =>
    simp only [hp, stepWorker, Option.map_eq_some_iff] at h
    obtain ⟨s₁, hlock, rfl⟩ := h
    obtain ⟨hfree, rfl⟩ := lock_cases hlock
    exact .lockFirst i th₁ th₂ hp hfree
  | lockSecond th₁ th₂ =>
    simp only [hp, stepWorker, Option.map_eq_some_iff] at h
    obtain ⟨s₁, hlock, rfl⟩ := h
    obtain ⟨hfree, rfl⟩ := lock_cases hlock
    exact .lockSecond i th₁ th₂ hp hfree
  | size th₁ th₂ =>
    simp only [hp, stepWorker, Option.some.injEq] at h
    subst h
    split_ifs with hgt hlt
    · exact .differ i th₁ th₂ true hp hgt
    · exact .differ i th₁ th₂ false hp hlt
    · exact .same i th₁ th₂ hp (by omega)
  | stealBack th₁ th₂ first =>
    simp only [hp, stepWorker, Option.map_eq_some_iff] at h
    obtain ⟨stealed, hlast, rfl⟩ := h
    exact .stealBack i th₁ th₂ first stealed hp hlast
  | stealPop th₁ th₂ first stealed =>
    simp only [hp, stepWorker, Option.some.injEq] at h
    subst h
    exact .stealPop i th₁ th₂ first stealed hp
  | give th₁ th₂ first stealed =>
    simp only [hp, stepWorker] at h
    split_ifs at h with hmine
    · obtain rfl := Option.some.inj h
      exact .take i th₁ th₂ first stealed hp hmine
    · obtain rfl := Option.some.inj h
      exact .give i th₁ th₂ first stealed hp hmine
  | unlockSecond th₁ th₂ t =>
    simp only [hp, stepWorker, Option.some.injEq] at h
    subst h
    exact .unlockSecond i th₁ th₂ t hp
  | unlockFirst th₁ t =>
    simp only [hp, stepWorker, Option.some.injEq] at h
    subst h
    exact .unlockFirst i th₁ t hp
  | check =>
    simp only [hp, stepWorker, Option.some.injEq] at h
    subst h
    exact .check i hp
  | steal | run | left => simp [hp, stepWorker] at h

lemma step_cases (h : s.step a = some s') : StepCase s a s' := by
  cases a with
  | go i => exact worker_cases h
  | draw i r₁ r₂ =>
    simp only [step] at h
    split at h
    · next hp =>
      split_ifs at h with hone heq
      · obtain rfl := Option.some.inj h
        exact .alone i r₁ r₂ hp hone
      · obtain rfl := Option.some.inj h
        exact .draw i r₁ r₂ hp (not_lt.1 hone) heq
    · simp at h
  | finish i =>
    simp only [step] at h
    split at h
    · next t hp =>
      obtain rfl := Option.some.inj h
      exact .finish i t hp
    · simp at h
  | submit i tsk =>
    simp only [step] at h
    split at h
    · next t hp =>
      obtain rfl := Option.some.inj h
      exact .submit i tsk t hp
    · simp at h
  | goSubmit i =>
    simp only [step] at h
    split at h
    · next t sub hp =>
      obtain ⟨⟨s₁, sub'⟩, hsub, rfl⟩ := Option.map_eq_some_iff.1 h
      exact .goSubmit i t sub sub' s₁ hp (submit_cases hsub)
    · simp at h
  | submitOutside k j tsk =>
    simp only [step] at h
    split at h
    · next hidle =>
      obtain rfl := Option.some.inj h
      exact .submitOutside k j tsk hidle
    · simp at h
  | goOutside k =>
    obtain ⟨⟨s₁, sub'⟩, hsub, rfl⟩ := Option.map_eq_some_iff.1 h
    exact .goOutside k sub' s₁ (submit_cases hsub)
  | destroy =>
    obtain rfl := Option.some.inj h
    exact .destroy

end Locked

end TiPI.ThreadPool
