import TiPI.Lib.Progress
import Mathlib.Algebra.BigOperators.Group.Finset.Basic
import Mathlib.Algebra.Ring.Nat
import Mathlib.Data.Nat.Cast.Basic

/-!
# Locks that are one atomic cell

A `Latch` is the code of `lock` and `unlock` over one cell that all threads share. The threads of
a `System` do rounds of `lock`, read a counter, write it back plus one, `unlock`, one atomic step of
any of them at a time.
-/

namespace TiPI

/-- `C` are the values of the cell, `L` the local states of a call of `lock`. -/
structure Latch (C L : Type*) where
  cell₀ : C
  /-- `lock` is called -/
  start : L
  /-- One atomic step of `lock` with the choice of the machine, and `none` when `lock` returns. -/
  attempt : C → L → Bool → C × Option L
  release : C
  Free : C → Prop
  /-- what holds of the local state of a call -/
  Ok : L → Prop
  free_cell₀ : Free cell₀
  free_release : Free release
  ok_start : Ok start
  /-- a step that does not return leaves the cell -/
  spin : ∀ {c c' l l' b}, Ok l → attempt c l b = (c', some l') → c' = c ∧ Ok l'
  /-- `lock` returns from a free cell only, which it takes -/
  take : ∀ {c c' l b}, Ok l → attempt c l b = (c', none) → Free c ∧ ¬ Free c'

namespace Latch

variable {C L R ι : Type*}

inductive Pc (L R : Type*)
  | out
  | locking (l : L)
  | read
  /-- the counter has been read -/
  | write (v : R)
  | unlock
  deriving DecidableEq

/-- Between the end of `lock` and `unlock`. -/
def Pc.inside : Pc L R → Bool
  | .out | .locking _ => false
  | .read | .write _ | .unlock => true

structure Thread (L R : Type*) where
  /-- rounds not started yet -/
  rounds : Nat
  pc : Pc L R

/-- The additions a thread has yet to make. -/
def Thread.pending (th : Thread L R) : Nat :=
  th.rounds + match th.pc with
    | .locking _ | .read | .write _ => 1
    | .out | .unlock => 0

structure System (C L R ι : Type*) where
  cell : C
  counter : R
  thread : ι → Thread L R

variable {lk : Latch C L} {s s' : System C L R ι}

/-! ### What a state has to satisfy -/

/-- What holds of thread `i` in the place `pc`. -/
def Holds (lk : Latch C L) (cell : C) (counter : R) : Pc L R → Prop
  | .out => True
  | .locking l => lk.Ok l
  | .read | .unlock => ¬ lk.Free cell
  | .write v => ¬ lk.Free cell ∧ v = counter

/-- The cell is taken whenever a thread is inside, and one at most is. -/
structure Exclusive (lk : Latch C L) (s : System C L R ι) : Prop where
  holds : ∀ i, Holds lk s.cell s.counter (s.thread i).pc
  unique : ∀ i j, (s.thread i).pc.inside = true → (s.thread j).pc.inside = true → i = j

lemma Holds.not_free {cell : C} {counter : R} {pc : Pc L R} (h : Holds lk cell counter pc)
    (hin : pc.inside = true) : ¬ lk.Free cell := by
  cases pc with
  | out => simp [Pc.inside] at hin
  | locking l => simp [Pc.inside] at hin
  | read => exact h
  | write v => exact h.1
  | unlock => exact h

/-- Outside, only the local state of `lock` matters. -/
lemma Holds.outside {cell cell' : C} {counter counter' : R} {pc : Pc L R}
    (h : Holds lk cell counter pc) (hout : pc.inside = false) : Holds lk cell' counter' pc := by
  cases pc with
  | out => trivial
  | locking l => exact h
  | read => simp [Pc.inside] at hout
  | write v => simp [Pc.inside] at hout
  | unlock => simp [Pc.inside] at hout

lemma Exclusive.others (h : Exclusive lk s) {i : ι} (hin : (s.thread i).pc.inside = true) :
    ∀ j, j ≠ i → (s.thread j).pc.inside = false := by
  intro j hj
  by_contra hjin
  exact hj (h.unique j i (by simpa using hjin) hin)

lemma Exclusive.none_inside (h : Exclusive lk s) (hfree : lk.Free s.cell) (j : ι) :
    (s.thread j).pc.inside = false := by
  by_contra hin
  exact (h.holds j).not_free (by simpa using hin) hfree

variable [AddMonoidWithOne R]

/-- Thread `i` is going to do `rounds i` rounds. -/
def init (lk : Latch C L) (R : Type*) [AddMonoidWithOne R] (rounds : ι → Nat) : System C L R ι :=
  ⟨lk.cell₀, 0, fun i => ⟨rounds i, .out⟩⟩

lemma exclusive_init (rounds : ι → Nat) : Exclusive lk (init lk R rounds) :=
  ⟨fun _ => trivial, fun _ _ hi => by simp [init, Pc.inside] at hi⟩

variable [Fintype ι]

/-- All additions, those that the counter has seen and those to come. -/
def System.total (s : System C L R ι) : R := s.counter + ((∑ i, (s.thread i).pending : Nat) : R)

lemma total_init (rounds : ι → Nat) : (init lk R rounds).total = ((∑ i, rounds i : Nat) : R) := by
  simp [System.total, init, Thread.pending]

/-- All threads have done their rounds. -/
def System.Done (s : System C L R ι) : Prop := ∀ i, (s.thread i).rounds = 0 ∧ (s.thread i).pc = .out

instance [DecidableEq L] [DecidableEq R] (s : System C L R ι) : Decidable s.Done :=
  inferInstanceAs (Decidable (∀ _, _))

lemma System.Done.total (h : s.Done) : s.total = s.counter := by
  have hpend : ∀ i, (s.thread i).pending = 0 := by
    intro i
    simp [Thread.pending, h i]
  simp [System.total, hpend]

omit [Fintype ι]

variable [DecidableEq ι]

def System.move (s : System C L R ι) (i : ι) (pc : Pc L R) : System C L R ι :=
  { s with thread := Function.update s.thread i { s.thread i with pc := pc } }

/-- One atomic step of thread `i`. -/
def step (lk : Latch C L) (s : System C L R ι) : ι × Bool → Option (System C L R ι)
  | (i, b) =>
    match (s.thread i).pc with
    | .out =>
      match (s.thread i).rounds with
      | 0 => none
      | n + 1 =>
        some { s with thread := Function.update s.thread i ⟨n, .locking lk.start⟩ }
    | .locking l =>
      match lk.attempt s.cell l b with
      | (c, some l') => some ({ s with cell := c }.move i (.locking l'))
      | (c, none) => some ({ s with cell := c }.move i .read)
    | .read => some (s.move i (.write s.counter))
    | .write v => some ({ s with counter := v + 1 }.move i .unlock)
    | .unlock => some ({ s with cell := lk.release }.move i .out)

/-- The branches of a step. -/
inductive StepCase (lk : Latch C L) (s : System C L R ι) (i : ι) : System C L R ι → Prop
  | lock (n : Nat) (th : s.thread i = ⟨n + 1, .out⟩) :
      StepCase lk s i { s with thread := Function.update s.thread i ⟨n, .locking lk.start⟩ }
  | spin (b : Bool) (l l' : L) (c : C) (pc : (s.thread i).pc = .locking l)
      (att : lk.attempt s.cell l b = (c, some l')) :
      StepCase lk s i ({ s with cell := c }.move i (.locking l'))
  | enter (b : Bool) (l : L) (c : C) (pc : (s.thread i).pc = .locking l)
      (att : lk.attempt s.cell l b = (c, none)) :
      StepCase lk s i ({ s with cell := c }.move i .read)
  | read (pc : (s.thread i).pc = .read) : StepCase lk s i (s.move i (.write s.counter))
  | write (v : R) (pc : (s.thread i).pc = .write v) :
      StepCase lk s i ({ s with counter := v + 1 }.move i .unlock)
  | unlock (pc : (s.thread i).pc = .unlock) :
      StepCase lk s i ({ s with cell := lk.release }.move i .out)

lemma step_cases {i : ι} {b : Bool} (h : step lk s (i, b) = some s') : StepCase lk s i s' := by
  simp only [step] at h
  split at h
  · next pc =>
    split at h
    · simp at h
    · next n hn =>
      obtain rfl := Option.some.inj h
      have hth : s.thread i = ⟨(s.thread i).rounds, (s.thread i).pc⟩ := rfl
      rw [hn, pc] at hth
      exact .lock n hth
  · next l pc =>
    split at h
    · next c l' att =>
      obtain rfl := Option.some.inj h
      exact .spin b l l' c pc att
    · next c att =>
      obtain rfl := Option.some.inj h
      exact .enter b l c pc att
  · next pc =>
    obtain rfl := Option.some.inj h
    exact .read pc
  · next v pc =>
    obtain rfl := Option.some.inj h
    exact .write v pc
  · next pc =>
    obtain rfl := Option.some.inj h
    exact .unlock pc

/-! ### Mutual exclusion -/

omit [AddMonoidWithOne R] in
/-- Thread `i` is now at `pc`. The other threads keep what they have: nothing that they rely on has
changed, or none of them is inside. -/
lemma Exclusive.update (h : Exclusive lk s) {i : ι} {th : Thread L R} {c : C} {r : R}
    (hth : Holds lk c r th.pc)
    (hsame : (c = s.cell ∧ r = s.counter) ∨ ∀ j, j ≠ i → (s.thread j).pc.inside = false)
    (hin : th.pc.inside = true → ∀ j, j ≠ i → (s.thread j).pc.inside = false) :
    Exclusive lk ⟨c, r, Function.update s.thread i th⟩ := by
  constructor
  · intro j
    by_cases hj : j = i
    · subst hj
      simpa using hth
    · simp only [Function.update_of_ne hj]
      rcases hsame with ⟨rfl, rfl⟩ | hout
      · exact h.holds j
      · exact (h.holds j).outside (hout j hj)
  · intro j k hj hk
    by_cases hji : j = i <;> by_cases hki : k = i
    · rw [hji, hki]
    · subst hji
      simp only [Function.update_self, Function.update_of_ne hki] at hj hk
      simp [hin hj k hki] at hk
    · subst hki
      simp only [Function.update_self, Function.update_of_ne hji] at hj hk
      simp [hin hk j hji] at hj
    · simp only [Function.update_of_ne hji, Function.update_of_ne hki] at hj hk
      exact h.unique j k hj hk

lemma Exclusive.step (h : Exclusive lk s) {a : ι × Bool} (hstep : step lk s a = some s') :
    Exclusive lk s' := by
  have hpc := h.holds a.1
  have hout := h.others (i := a.1)
  cases step_cases hstep with
  | lock n th => exact h.update lk.ok_start (.inl ⟨rfl, rfl⟩) (by simp [Pc.inside])
  | spin b l l' c pc att =>
    rw [pc] at hpc
    obtain ⟨rfl, hok⟩ := lk.spin hpc att
    exact h.update hok (.inl ⟨rfl, rfl⟩) (by simp [Pc.inside])
  | enter b l c pc att =>
    rw [pc] at hpc
    obtain ⟨hfree, htaken⟩ := lk.take hpc att
    have hnone := h.none_inside hfree
    exact h.update htaken (.inr fun j _ => hnone j) fun _ j _ => hnone j
  | read pc =>
    rw [pc] at hpc hout
    exact h.update ⟨hpc, rfl⟩ (.inl ⟨rfl, rfl⟩) fun _ => hout rfl
  | write v pc =>
    rw [pc] at hpc hout
    exact h.update hpc.1 (.inr (hout rfl)) fun _ => hout rfl
  | unlock pc =>
    rw [pc] at hout
    exact h.update trivial (.inr (hout rfl)) (by simp [Pc.inside])

/-! ### No addition is lost -/

variable [Fintype ι]

/-- What thread `i` no longer has to add, the counter has got. -/
lemma System.total_update {i : ι} {th : Thread L R} {c : C} {r : R} (k : Nat)
    (hr : r = s.counter + k) (hpend : th.pending + k = (s.thread i).pending) :
    System.total ⟨c, r, Function.update s.thread i th⟩ = s.total := by
  have hfun : (fun j => (Function.update s.thread i th j).pending) =
      Function.update (fun j => (s.thread j).pending) i th.pending := by
    ext j
    exact Function.apply_update (fun _ (th : Thread L R) => th.pending) s.thread i th j
  have hsum := sum_update_add (fun j => (s.thread j).pending) i th.pending
  rw [← hfun, ← hpend] at hsum
  simp only at hsum
  have htotal : ∑ j, (s.thread j).pending = k + ∑ j, (Function.update s.thread i th j).pending := by
    omega
  rw [System.total, System.total, htotal, hr, Nat.cast_add, add_assoc]

lemma System.total_step (h : Exclusive lk s) {a : ι × Bool} (hstep : Latch.step lk s a = some s') :
    s'.total = s.total := by
  have hpc := h.holds a.1
  cases step_cases hstep with
  | lock n th => exact total_update 0 (by simp) (by simp [th, Thread.pending])
  | spin b l l' c pc att => exact total_update 0 (by simp) (by simp [pc, Thread.pending])
  | enter b l c pc att => exact total_update 0 (by simp) (by simp [pc, Thread.pending])
  | read pc => exact total_update 0 (by simp) (by simp [pc, Thread.pending])
  | write v pc =>
    rw [pc] at hpc
    obtain ⟨-, rfl⟩ := hpc
    exact total_update (s := s) (i := a.1) 1 (by simp) (by simp [pc, Thread.pending])
  | unlock pc => exact total_update 0 (by simp) (by simp [pc, Thread.pending])

/-! ### Runs -/

variable {rounds : ι → Nat}

lemma reach (h : Reach (step lk) (init lk R rounds) s) :
    Exclusive lk s ∧ s.total = ((∑ i, rounds i : Nat) : R) :=
  Run.invariant (P := fun s => Exclusive lk s ∧ s.total = ((∑ i, rounds i : Nat) : R)) h
    ⟨exclusive_init rounds, total_init rounds⟩ fun _ _ _ ⟨hex, htotal⟩ _ hstep =>
      ⟨hex.step hstep, (System.total_step hex hstep).trans htotal⟩

/-- At most one thread is inside, and in the end the counter has every addition. -/
lemma exclusive_count (h : Reach (step lk) (init lk R rounds) s) :
    (∀ i j, (s.thread i).pc.inside = true → (s.thread j).pc.inside = true → i = j) ∧
      (s.Done → s.counter = ((∑ i, rounds i : Nat) : R)) :=
  ⟨(reach h).1.unique, fun hdone => by rw [← hdone.total, (reach h).2]⟩

end Latch

end TiPI
