import TiPI.Lib.Latch
import Mathlib.Algebra.BigOperators.Fin

/-!
# The test-and-set locks

Both locks are one atomic word. The threads of the tests do rounds of `lock`, `num++`, `unlock`;
each atomic operation on the word and each read and write of `num` is one step.
-/

namespace TiPI.SpinLock

/-! ### `TASLock` -/

namespace TASLock

/-- Where a call of `lock` is, with its local `state`. -/
inductive Local
  | exchange (state : UInt32)
  /-- the exchange has failed and has stored in `state` what it found -/
  | pause (state : UInt32)
  deriving DecidableEq

/-- `compare_exchange_weak`, which may also fail on a match. -/
def compareExchange (locked state : UInt32) (spurious : Bool) : UInt32 × Option Local :=
  if locked = state ∧ spurious = false then (1, none) else (locked, some (.pause locked))

def lock (locked : UInt32) : Local → Bool → UInt32 × Option Local
  | .exchange state, spurious => compareExchange locked state spurious
  | .pause _, _ => (locked, some (.exchange 0))

/-- A call tries to exchange a zero only. -/
def Local.Ok : Local → Prop
  | .exchange state => state = 0
  | .pause _ => True

lemma lock_spin {locked locked' : UInt32} {l l' : Local} {spurious : Bool}
    (h : lock locked l spurious = (locked', some l')) : locked' = locked ∧ l'.Ok := by
  cases l with
  | exchange state =>
    simp only [lock, compareExchange] at h
    split at h
    · simp at h
    · obtain ⟨rfl, rfl⟩ := by simpa using h
      exact ⟨rfl, trivial⟩
  | pause state =>
    obtain ⟨rfl, rfl⟩ := by simpa [lock] using h
    exact ⟨rfl, rfl⟩

lemma lock_take {locked locked' : UInt32} {l : Local} {spurious : Bool} (hl : l.Ok)
    (h : lock locked l spurious = (locked', none)) : locked = 0 ∧ locked' ≠ 0 := by
  cases l with
  | exchange state =>
    simp only [lock, compareExchange] at h
    split at h
    · next hmatch =>
      obtain ⟨rfl, -⟩ := by simpa using h
      exact ⟨hmatch.1.trans hl, by decide⟩
    · simp at h
  | pause state => simp [lock] at h

/-- The lock with `locked` as its cell. -/
def latch : Latch UInt32 Local where
  cell₀ := 0
  start := .exchange 0
  attempt := lock
  release := 0
  Free := (· = 0)
  Ok := Local.Ok
  free_cell₀ := rfl
  free_release := rfl
  ok_start := rfl
  spin := fun _ h => lock_spin h
  take := lock_take

end TASLock

/-! ### `TTASLock` -/

namespace TTASLock

inductive Local
  /-- `locked` is read next -/
  | load
  /-- `locked` has been read, the inner loop goes on while it was taken -/
  | test (loaded : Bool)
  deriving DecidableEq

/-- The test of the inner loop and the atomic operation that follows it are one step. -/
def lock (locked : Bool) : Local → Bool → Bool × Option Local
  | .load, _ => (locked, some (.test locked))
  | .test true, _ => (locked, some (.test locked))
  | .test false, _ => (true, if locked then some .load else none)

lemma lock_spin {locked locked' : Bool} {l l' : Local} {b : Bool}
    (h : lock locked l b = (locked', some l')) : locked' = locked := by
  cases l with
  | load => exact (by simpa [lock] using h : locked = locked' ∧ _).1.symm
  | test loaded =>
    cases loaded with
    | true => exact (by simpa [lock] using h : locked = locked' ∧ _).1.symm
    | false =>
      -- the exchange stores `true` where it has found `true`
      cases locked with
      | true => exact (by simpa [lock] using h : locked' = true ∧ _).1
      | false => simp [lock] at h

lemma lock_take {locked locked' : Bool} {l : Local} {b : Bool}
    (h : lock locked l b = (locked', none)) : locked = false ∧ locked' ≠ false := by
  cases l with
  | load => simp [lock] at h
  | test loaded =>
    cases loaded with
    | true => simp [lock] at h
    | false =>
      cases locked with
      | true => simp [lock] at h
      | false =>
        obtain rfl : true = locked' := by simpa [lock] using h
        exact ⟨rfl, by decide⟩

/-- The lock with `locked` as its cell. -/
def latch : Latch Bool Local where
  cell₀ := false
  start := .load
  attempt := lock
  release := false
  Free := (· = false)
  Ok := fun _ => True
  free_cell₀ := rfl
  free_release := rfl
  ok_start := trivial
  spin := fun _ h => ⟨lock_spin h, trivial⟩
  take := fun _ h => lock_take h

end TTASLock

/-! ### No update is lost -/

section

variable {R ι : Type*} [AddMonoidWithOne R] [DecidableEq ι] [Fintype ι] {rounds : ι → Nat}

/-- In every state that threads doing rounds of `lock`, `num++`, `unlock` on either lock reach, at
most one is inside, and when all are done `num` is the number of all rounds. -/
theorem no_update_lost :
    (∀ s : Latch.System UInt32 TASLock.Local R ι,
      Reach (Latch.step TASLock.latch) (Latch.init TASLock.latch R rounds) s →
        (∀ i j, (s.thread i).pc.inside = true → (s.thread j).pc.inside = true → i = j) ∧
          (s.Done → s.counter = ((∑ i, rounds i : Nat) : R))) ∧
    (∀ s : Latch.System Bool TTASLock.Local R ι,
      Reach (Latch.step TTASLock.latch) (Latch.init TTASLock.latch R rounds) s →
        (∀ i j, (s.thread i).pc.inside = true → (s.thread j).pc.inside = true → i = j) ∧
          (s.Done → s.counter = ((∑ i, rounds i : Nat) : R))) :=
  ⟨fun _ h => Latch.exclusive_count h, fun _ h => Latch.exclusive_count h⟩

end

/-- Thread `1` tries to get in while thread `0` is inside, whose first exchange has failed without
a reason. -/
def tasRun : List (Fin 2 × Bool) :=
  [(0, false), (0, true), (0, false), (0, false), (1, false), (1, false), (0, false), (0, false),
    (0, false), (1, false), (1, false), (1, false), (1, false), (1, false)]

/-- Both threads find the lock free, thread `1` has the exchange first. -/
def ttasRun : List (Fin 2 × Bool) :=
  [(0, false), (0, false), (1, false), (1, false), (1, false), (0, false), (0, false), (1, false),
    (1, false), (1, false), (0, false), (0, false), (0, false), (0, false), (0, false)]

theorem no_update_lost_two :
    (∃ s : Latch.System UInt32 TASLock.Local Nat (Fin 2),
      Reach (Latch.step TASLock.latch) (Latch.init TASLock.latch Nat fun _ => 1) s ∧
        s.counter = 2) ∧
    ∃ s : Latch.System Bool TTASLock.Local Nat (Fin 2),
      Reach (Latch.step TTASLock.latch) (Latch.init TTASLock.latch Nat fun _ => 1) s ∧
        s.counter = 2 := by
  obtain ⟨s, hs, hdone⟩ : ∃ s : Latch.System UInt32 TASLock.Local Nat (Fin 2),
      Reach (Latch.step TASLock.latch) (Latch.init TASLock.latch Nat fun _ => 1) s ∧ s.Done :=
    exists_of_exec tasRun (by decide)
  obtain ⟨s', hs', hdone'⟩ : ∃ s : Latch.System Bool TTASLock.Local Nat (Fin 2),
      Reach (Latch.step TTASLock.latch) (Latch.init TTASLock.latch Nat fun _ => 1) s ∧ s.Done :=
    exists_of_exec ttasRun (by decide)
  exact ⟨⟨s, hs, (no_update_lost.1 s hs).2 hdone⟩, ⟨s', hs', (no_update_lost.2 s' hs').2 hdone'⟩⟩

end TiPI.SpinLock
