import TiPI.LockFreeStack.Linearization
import TiPI.Lib.Progress
import Mathlib.Tactic.Ring

/-!
# No thread holds up the others

A compare-exchange that fails, though not spuriously, fails because another one has succeeded since
the head was read. Each success is the last one of its call, so the steps that `n` threads make are
bounded by their calls, whatever their order: whoever is stopped, the others come to their ends.
-/

namespace TiPI.LockFreeStack

variable {A T : Type*}

namespace Pc

/-- The steps to the return of the call when no compare-exchange fails. -/
def left : Pc A T → Nat
  | .popLoad => 6
  | .alloc _ | .readNext _ _ => 5
  | .pushLoad _ _ | .popCas _ _ _ => 4
  | .setNext _ _ _ | .readData _ => 3
  | .pushCas _ _ _ | .delete _ _ => 2
  | .pushed | .popped _ => 1
  | .idle => 0

/-- The call has yet to take effect. -/
def opened : Pc A T → Bool
  | .alloc _ | .pushLoad _ _ | .setNext _ _ _ | .pushCas _ _ _ | .popLoad | .readNext _ _
  | .popCas _ _ _ => true
  | .pushed | .readData _ | .delete _ _ | .popped _ | .idle => false

variable [DecidableEq A]

/-- The head is no longer the one the thread has seen. -/
def Stale (head : TaggedPointer A) (pc : Pc A T) : Prop := ∃ old ∈ pc.snapshot, old ≠ head

instance (head : TaggedPointer A) (pc : Pc A T) : Decidable (pc.Stale head) :=
  inferInstanceAs (Decidable (∃ old ∈ pc.snapshot, _))

/-- What one of the `threads` has put by: its steps to the return, the round that it is going to
lose if its head is stale, and the rounds that its success is going to cost the others. -/
def put (threads : Finset Nat) (head : TaggedPointer A) (pc : Pc A T) : Nat :=
  pc.left + (if pc.Stale head then 2 else 0) + (if pc.opened then 2 * (threads.card - 1) else 0)

/-- Another head makes a thread lose one round at most. -/
lemma put_le (threads : Finset Nat) (head head' : TaggedPointer A) (pc : Pc A T) :
    pc.put threads head' ≤ pc.put threads head + 2 := by
  unfold put
  split_ifs <;> omega

end Pc

namespace Act

def thread : Act A T → Nat
  | .callPush t _ | .callPop t | .alloc t _ | .load t | .setNext t | .cas t _ | .readNext t _
  | .readData t _ | .delete t | .ret t => t

def isCall : Act A T → Bool
  | .callPush _ _ | .callPop _ => true
  | _ => false

def isPush : Act A T → Bool
  | .callPush _ _ => true
  | _ => false

/-- `compare_exchange_weak` fails on the head it expects. -/
def isSpurious : Act A T → Bool
  | .cas _ spurious => spurious
  | _ => false

/-- What an action pays for: a call for itself and for the rounds that the others lose by it, a
spurious failure for the round it costs. -/
def pay (threads : Finset Nat) (act : Act A T) : Nat :=
  (if act.isCall then 2 * threads.card + 5 else 0) + if act.isSpurious then 2 else 0

lemma sum_pay (threads : Finset Nat) (as : List (Act A T)) :
    (as.map (pay threads)).sum =
      (2 * threads.card + 5) * as.countP isCall + 2 * as.countP isSpurious := by
  induction as with
  | nil => rfl
  | cons act as ih =>
    rw [List.map_cons, List.sum_cons, ih, List.countP_cons, List.countP_cons, pay]
    split_ifs <;> ring

end Act

namespace Stack

variable [DecidableEq A] {s s' : Stack A T} {threads : Finset Nat} {t n : Nat} {act : Act A T}

/-- What the threads have put by. -/
def put (threads : Finset Nat) (s : Stack A T) : Nat :=
  ∑ t ∈ threads, (s.pc t).put threads s.head

/-- A step after which the head is what it was. -/
lemma put_keep (ht : t ∈ threads) {pc : Pc A T} (hhead : s'.head = s.head)
    (hpc : s'.pc = Function.update s.pc t pc) :
    s'.put threads + (s.pc t).put threads s.head ≤ s.put threads + pc.put threads s.head := by
  have hle := sum_le_of_others (fun t => (s.pc t).put threads s.head)
    (fun t => (s'.pc t).put threads s'.head) (d := 0) ht fun t' _ hne => by
      rw [hhead, hpc, Function.update_of_ne hne]
      exact le_rfl
  have hself : s'.pc t = pc := by rw [hpc, Function.update_self]
  simpa [put, hself, hhead] using hle

/-- A successful compare-exchange makes the heads of the others stale. -/
lemma put_swap (ht : t ∈ threads) {pc : Pc A T} (hpc : s'.pc = Function.update s.pc t pc) :
    s'.put threads + (s.pc t).put threads s.head ≤
      s.put threads + pc.put threads s'.head + 2 * (threads.card - 1) := by
  have hle := sum_le_of_others (fun t => (s.pc t).put threads s.head)
    (fun t => (s'.pc t).put threads s'.head) (d := 2) ht fun t' _ hne => by
      rw [hpc, Function.update_of_ne hne]
      exact (s.pc t').put_le threads s.head s'.head
  have hself : s'.pc t = pc := by rw [hpc, Function.update_self]
  simpa [put, hself] using hle

/-- `pop` after a read of `head`. -/
def headPc (s : Stack A T) : Pc A T :=
  s.head.ptr.elim (.popped none) fun node => .readNext node s.head.tag

omit [DecidableEq A] in
lemma popHead_eq (s : Stack A T) (t : Nat) :
    (s.popHead t).head = s.head ∧ (s.popHead t).pc = Function.update s.pc t s.headPc := by
  unfold popHead headPc
  cases s.head.ptr <;> exact ⟨rfl, rfl⟩

lemma put_headPc (s : Stack A T) (threads : Finset Nat) :
    s.headPc.put threads s.head ≤ 5 + 2 * (threads.card - 1) := by
  unfold headPc
  obtain ⟨ptr, tag⟩ := s.head
  cases ptr with
  | none =>
    simp only [Option.elim_none, Pc.put, Pc.left, Pc.Stale, Pc.snapshot, Pc.opened]
    simp
    omega
  | some a => simp [Pc.put, Pc.left, Pc.Stale, Pc.snapshot, Pc.opened]

/-- A step that leaves the head alone is paid for by its thread. -/
lemma put_step_keep {p : Pc A T} {k : Nat} (ht : t ∈ threads) (hhead : s'.head = s.head)
    (hpc : s'.pc = Function.update s.pc t p)
    (hle : p.put threads s.head + 1 ≤ (s.pc t).put threads s.head + k) :
    s'.put threads + 1 ≤ s.put threads + k := by
  have hkeep := put_keep ht hhead hpc
  omega

/-- A successful compare-exchange pays for what it costs the others. -/
lemma put_step_swap {p : Pc A T} (ht : t ∈ threads) (hpc : s'.pc = Function.update s.pc t p)
    (hsnap : (s.pc t).snapshot = some s.head) (hopened : (s.pc t).opened = true)
    (hsnap' : p.snapshot = none) (hopened' : p.opened = false)
    (hleft : p.left + 1 = (s.pc t).left) : s'.put threads + 1 ≤ s.put threads := by
  have hswap := put_swap ht hpc
  have hbefore : (s.pc t).put threads s.head = (s.pc t).left + 2 * (threads.card - 1) := by
    simp [Pc.put, Pc.Stale, hsnap, hopened]
  have hafter : p.put threads s'.head = p.left := by
    simp [Pc.put, Pc.Stale, hsnap', hopened']
  omega

/-- A compare-exchange that does not succeed had a stale head, or has failed spuriously. -/
lemma put_step_fails {p : Pc A T} {spurious : Bool} {old : TaggedPointer A} (ht : t ∈ threads)
    (hhead : s'.head = s.head) (hpc : s'.pc = Function.update s.pc t p)
    (hold : (s.pc t).snapshot = some old) (hfails : ¬(s.head = old ∧ spurious = false))
    (hopened : (s.pc t).opened = true)
    (hle : p.put threads s.head ≤ (s.pc t).left + 1 + 2 * (threads.card - 1)) :
    s'.put threads + 1 ≤ s.put threads + (Act.cas t spurious : Act A T).pay threads := by
  refine put_step_keep ht hhead hpc ?_
  have hbefore : (s.pc t).put threads s.head =
      (s.pc t).left + (if old ≠ s.head then 2 else 0) + 2 * (threads.card - 1) := by
    simp [Pc.put, Pc.Stale, hold, hopened]
  have hpay : (Act.cas t spurious : Act A T).pay threads = if spurious then 2 else 0 :=
    Nat.zero_add _
  rw [hbefore, hpay]
  by_cases hstale : old = s.head
  · have hspurious : spurious = true := by
      rw [← Bool.not_eq_false]
      exact fun hs => hfails ⟨hstale.symm, hs⟩
    rw [if_pos hspurious]
    omega
  · rw [if_pos hstale]
    omega

lemma put_step_cas {spurious : Bool} (ht : t ∈ threads)
    (hstep : s.step (.cas t spurious) = some s') :
    s'.put threads + 1 ≤ s.put threads + (Act.cas t spurious : Act A T).pay threads := by
  simp only [step] at hstep
  split at hstep
  · next value a old pc =>
    split_ifs at hstep with hcas
    · obtain ⟨rfl, rfl⟩ := hcas
      obtain rfl := Option.some.inj hstep
      exact (put_step_swap (p := .pushed) ht rfl (by rw [pc]; rfl) (by rw [pc]; rfl) rfl rfl
        (by rw [pc]; rfl)).trans (Nat.le_add_right _ _)
    · obtain rfl := Option.some.inj hstep
      refine put_step_fails (p := .setNext value a s.head) ht rfl rfl (by rw [pc]; rfl) hcas
        (by rw [pc]; rfl) ?_
      simp [pc, Pc.put, Pc.left, Pc.Stale, Pc.snapshot, Pc.opened]
  · next a tag next pc =>
    split_ifs at hstep with hcas
    · obtain ⟨hhead, rfl⟩ := hcas
      obtain rfl := Option.some.inj hstep
      exact (put_step_swap (p := .readData a) ht rfl (by rw [pc, hhead]; rfl) (by rw [pc]; rfl)
        rfl rfl (by rw [pc]; rfl)).trans (Nat.le_add_right _ _)
    · obtain rfl := Option.some.inj hstep
      obtain ⟨hhead, hpc⟩ := s.popHead_eq t
      refine put_step_fails ht hhead hpc (by rw [pc]; rfl) hcas (by rw [pc]; rfl) ?_
      rw [pc]
      exact s.put_headPc threads
  · simp at hstep

/-- A step is paid for by its action and by what its thread has put by. -/
lemma put_step (ht : act.thread ∈ threads) (hstep : s.step act = some s') :
    s'.put threads + 1 ≤ s.put threads + act.pay threads := by
  have hcard : 0 < threads.card := Finset.card_pos.2 ⟨_, ht⟩
  cases step_cases hstep with
  | pushes | pushFails | pops | popFails => exact put_step_cas ht hstep
  | popLoad t pc =>
    obtain ⟨hhead, hpc⟩ := s.popHead_eq t
    refine put_step_keep ht hhead hpc ?_
    have hle := s.put_headPc threads
    have hbefore : (s.pc t).put threads s.head = 6 + 2 * (threads.card - 1) := by
      simp [pc, Pc.put, Pc.left, Pc.Stale, Pc.snapshot, Pc.opened]
    rw [show (s.pc (Act.load t : Act A T).thread).put threads s.head = _ from hbefore]
    omega
  | callPush t value pc | callPop t pc | alloc t a value pc free | pushLoad t value a pc
  | setNext t value a old pc | readNext t garbage a tag pc | readData t garbage a pc
  | delete t a result pc | pushRet t pc | popRet t result pc =>
    refine put_step_keep (t := t) ht rfl rfl ?_
    simp only [pc, Pc.put, Pc.left, Pc.Stale, Pc.snapshot, Pc.opened, Act.pay, Act.isCall,
      Act.isSpurious, Option.mem_def, Option.some.injEq, reduceCtorEq, exists_eq_left', ne_eq,
      not_true_eq_false, false_and, exists_false, if_true, if_false, Bool.false_eq_true]
    omega

/-- The steps of a run are paid for by its calls and its spurious failures, and by what was put by
before. -/
lemma length_le_put (threads : Finset Nat) {s₀ : Stack A T} {as : List (Act A T)}
    (h : Steps step (fun _ act => act.thread ∈ threads) s₀ as s) :
    as.length + s.put threads ≤ s₀.put threads +
      ((2 * threads.card + 5) * as.countP Act.isCall + 2 * as.countP Act.isSpurious) := by
  rw [← Act.sum_pay]
  exact h.length_le (put threads) (Act.pay threads) fun s act s' ht hstep => put_step ht hstep

lemma put_of_idle (hidle : ∀ t ∈ threads, s.pc t = .idle) : s.put threads = 0 := by
  refine Finset.sum_eq_zero fun t ht => ?_
  simp [hidle t ht, Pc.put, Pc.left, Pc.Stale, Pc.snapshot, Pc.opened]

/-- A thread inside a call can go on, spurious failures apart, when `new` finds an address. -/
lemma step_of_inside (garbage : T) (hpc : s.pc t ≠ .idle)
    (hfree : ∀ value, s.pc t = .alloc value → ∃ a, s.heap a = none) :
    ∃ act : Act A T, act.thread = t ∧ act.isCall = false ∧ act.isSpurious = false ∧
      ∃ s', s.step act = some s' := by
  cases hcase : s.pc t with
  | idle => exact absurd hcase hpc
  | alloc value =>
    obtain ⟨a, ha⟩ := hfree value hcase
    exact ⟨.alloc t a, rfl, rfl, rfl, by simp [step, hcase, ha]⟩
  | pushLoad | popLoad => exact ⟨.load t, rfl, rfl, rfl, by simp [step, hcase]⟩
  | setNext => exact ⟨.setNext t, rfl, rfl, rfl, by simp [step, hcase]⟩
  | pushCas | popCas =>
    refine ⟨.cas t false, rfl, rfl, rfl, ?_⟩
    simp only [step, hcase]
    split_ifs <;> exact ⟨_, rfl⟩
  | readNext => exact ⟨.readNext t none, rfl, rfl, rfl, by simp [step, hcase]⟩
  | readData => exact ⟨.readData t garbage, rfl, rfl, rfl, by simp [step, hcase]⟩
  | delete => exact ⟨.delete t, rfl, rfl, rfl, by simp [step, hcase]⟩
  | pushed | popped => exact ⟨.ret t, rfl, rfl, rfl, by simp [step, hcase]⟩

/-- Whatever the order of their steps, `n` threads make at most `2 * n + 5` steps for each call, and
two more for each compare-exchange that fails spuriously; and no thread ever waits for another one,
as long as `new` finds an address. -/
theorem lock_free [Inhabited T] {as : List (Act A T)}
    (h : Steps step (fun _ act => act.thread < n) init as s) :
    as.length ≤ (2 * n + 5) * as.countP Act.isCall + 2 * as.countP Act.isSpurious ∧
      ∀ t, s.pc t ≠ .idle → (∃ a, s.heap a = none) →
        ∃ act : Act A T, act.thread = t ∧ act.isCall = false ∧ act.isSpurious = false ∧
          ∃ s', s.step act = some s' := by
  refine ⟨?_, fun t hpc hfree => step_of_inside default hpc fun _ _ => hfree⟩
  have hlen := length_le_put (Finset.range n) (h.mono fun _ _ hn => Finset.mem_range.2 hn)
  rw [put_of_idle (s := init) fun _ _ => rfl, Finset.card_range] at hlen
  omega

/-- Thread `1` loses a round to thread `2`, which reuses its node. -/
theorem lock_free_reuse : ∃ s : Stack Nat Nat,
    Steps step (fun _ act => act.thread < 3) init reuse s ∧
      reuse.length ≤ (2 * 3 + 5) * reuse.countP Act.isCall + 2 * reuse.countP Act.isSpurious := by
  obtain ⟨s, hrun, -⟩ : ∃ s : Stack Nat Nat,
      Steps step (fun _ act => act.thread < 3) init reuse s ∧ s.head = ⟨none, 6⟩ :=
    steps_of_exec reuse (by decide)
  exact ⟨s, hrun, (lock_free hrun).1⟩

end Stack

end TiPI.LockFreeStack
