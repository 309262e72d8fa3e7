import TiPI.Lib.Run
import Mathlib.Data.Fintype.Card
import Mathlib.Data.List.Nodup
import Mathlib.Order.Nat

/-!
# The ticket lock

Two counters of 64 bits, which wrap. The threads call `lock` and `unlock` in turn, each operation on
a counter is one step.
-/

namespace TiPI.SpinLock

namespace TicketLock

inductive Pc
  | out
  /-- the ticket has been taken -/
  | taken (ticket : UInt64)
  /-- `next` is what `current` was when it was read last -/
  | spin (ticket next : UInt64)
  /-- between the end of `lock` and `unlock` -/
  | inside (ticket : UInt64)
  deriving DecidableEq

def Pc.isInside : Pc → Bool
  | .inside _ => true
  | _ => false

structure System (ι : Type*) where
  nextTicket : UInt64
  current : UInt64
  pc : ι → Pc

/-- The atomic operations, each with the thread that makes it. -/
inductive Act (ι : Type*)
  /-- `next_ticket.fetch_add` -/
  | takeTicket (i : ι)
  /-- a load of `current` into `next` -/
  | load (i : ι)
  /-- the load of `current` behind the loop -/
  | enter (i : ι)
  /-- `current.fetch_add` -/
  | unlock (i : ι)

variable {ι : Type*}

def init (ι : Type*) : System ι := ⟨0, 0, fun _ => .out⟩

/-! ### The history -/

/-- The threads that have taken a ticket, in the order of their `next_ticket.fetch_add`. -/
def takers (as : List (Act ι)) : List ι :=
  as.filterMap fun | .takeTicket i => some i | _ => none

/-- The threads that have got in, in the order in which their calls of `lock` have ended. -/
def entered (as : List (Act ι)) : List ι :=
  as.filterMap fun | .enter i => some i | _ => none

/-- The threads that have left. -/
def left (as : List (Act ι)) : List ι :=
  as.filterMap fun | .unlock i => some i | _ => none

/-- What the thread knows that has the `k`-th ticket, when `served` threads have left: its ticket,
and that it is its turn when it has read its ticket from `current`. -/
def Waits (served k : Nat) : Pc → Prop
  | .out => False
  | .taken ticket => ticket = .ofNat k
  | .spin ticket next => ticket = .ofNat k ∧ (ticket = next → k = served)
  | .inside ticket => ticket = .ofNat k ∧ k = served

/-- The first of the queue when it has got in. -/
def System.served (s : System ι) : List ι → List ι
  | [] => []
  | i :: _ => if (s.pc i).isInside then [i] else []

/-- `queue` are the threads with a ticket that have not left, the first one is served. -/
structure Inv (as : List (Act ι)) (s : System ι) (queue : List ι) : Prop where
  line : takers as = left as ++ queue
  nextTicket : s.nextTicket = .ofNat ((left as).length + queue.length)
  current : s.current = .ofNat (left as).length
  nodup : queue.Nodup
  outside : ∀ i, i ∉ queue → s.pc i = .out
  waits : ∀ j (hj : j < queue.length), Waits (left as).length ((left as).length + j) (s.pc queue[j])
  got_in : entered as = left as ++ s.served queue

/-- Tickets that are fewer than `2 ^ 64` apart differ. -/
lemma eq_zero_of_ofNat {a j : Nat} (hj : j < 2 ^ 64)
    (h : UInt64.ofNat (a + j) = UInt64.ofNat a) : j = 0 := by
  have hmod := congrArg UInt64.toNat h
  simp only [UInt64.toNat_ofNat'] at hmod
  omega

variable {as : List (Act ι)} {s s' : System ι} {queue : List ι}

lemma inv_init : Inv [] (init ι) [] where
  line := rfl
  nextTicket := rfl
  current := rfl
  nodup := .nil
  outside := fun _ _ => rfl
  waits := fun _ hj => absurd hj (Nat.not_lt_zero _)
  got_in := rfl

lemma Inv.notMem_queue (h : Inv as s queue) {i : ι} (hi : s.pc i = .out) : i ∉ queue := by
  intro hmem
  obtain ⟨j, hj, rfl⟩ := List.getElem_of_mem hmem
  have hwaits := h.waits j hj
  rw [hi] at hwaits
  exact hwaits

/-- A thread with a ticket has its place in the queue. -/
lemma Inv.place (h : Inv as s queue) {i : ι} (hi : s.pc i ≠ .out) :
    ∃ j, ∃ hj : j < queue.length, queue[j] = i ∧
      Waits (left as).length ((left as).length + j) (s.pc i) := by
  have hmem : i ∈ queue := by
    by_contra hmem
    exact hi (h.outside i hmem)
  obtain ⟨j, hj, rfl⟩ := List.getElem_of_mem hmem
  exact ⟨j, hj, rfl, h.waits j hj⟩

lemma head_of_getElem {i : ι} {j : Nat} {hj : j < queue.length} (hi : queue[j] = i) (h0 : j = 0) :
    ∃ rest, queue = i :: rest := by
  subst h0
  cases queue with
  | nil => simp at hj
  | cons a rest => exact ⟨rest, by rw [← hi]; rfl⟩

/-- Only the first of the queue can be inside. -/
lemma Inv.head_of_inside (h : Inv as s queue) {i : ι} {ticket : UInt64}
    (hi : s.pc i = .inside ticket) : ∃ rest, queue = i :: rest := by
  obtain ⟨j, hj, hji, hwaits⟩ := h.place (i := i) (by simp [hi])
  rw [hi] at hwaits
  exact head_of_getElem hji (by simpa using hwaits.2)

lemma Pc.eq_inside {pc : Pc} (h : pc.isInside = true) : ∃ ticket, pc = .inside ticket := by
  cases pc with
  | inside ticket => exact ⟨ticket, rfl⟩
  | out => simp [Pc.isInside] at h
  | taken ticket => simp [Pc.isInside] at h
  | spin ticket next => simp [Pc.isInside] at h

lemma Inv.exclusive (h : Inv as s queue) {i i' : ι} (hi : (s.pc i).isInside = true)
    (hi' : (s.pc i').isInside = true) : i = i' := by
  obtain ⟨ticket, hi⟩ := Pc.eq_inside hi
  obtain ⟨ticket', hi'⟩ := Pc.eq_inside hi'
  obtain ⟨rest, hq⟩ := h.head_of_inside hi
  obtain ⟨rest', hq'⟩ := h.head_of_inside hi'
  rw [hq] at hq'
  exact (List.cons.inj hq').1

/-- Who is not the first has one less in front, and has not seen its turn. -/
lemma Waits.advance {served k : Nat} {pc : Pc} (h : Waits served (served + (k + 1)) pc) :
    Waits (served + 1) (served + 1 + k) pc ∧ pc.isInside = false := by
  rw [show served + (k + 1) = served + 1 + k by omega] at h
  cases pc with
  | out => exact h.elim
  | taken ticket => exact ⟨h, rfl⟩
  | spin ticket next => exact ⟨⟨h.1, fun heq => absurd (h.2 heq) (by omega)⟩, rfl⟩
  | inside ticket => exact absurd h.2 (by omega)

/-! ### Steps -/

variable [DecidableEq ι]

def System.move (s : System ι) (i : ι) (pc : Pc) : System ι :=
  { s with pc := Function.update s.pc i pc }

def step (s : System ι) : Act ι → Option (System ι)
  | .takeTicket i =>
    match s.pc i with
    | .out => some ({ s with nextTicket := s.nextTicket + 1 }.move i (.taken s.nextTicket))
    | _ => none
  | .load i =>
    match s.pc i with
    | .taken ticket => some (s.move i (.spin ticket s.current))
    | .spin ticket next =>
      if ticket ≠ next then some (s.move i (.spin ticket s.current)) else none
    | _ => none
  | .enter i =>
    match s.pc i with
    | .spin ticket next => if ticket = next then some (s.move i (.inside ticket)) else none
    | _ => none
  | .unlock i =>
    match s.pc i with
    | .inside _ => some ({ s with current := s.current + 1 }.move i .out)
    | _ => none

/-- The branches of a step. -/
inductive StepCase (s : System ι) : Act ι → System ι → Prop
  | takeTicket (i : ι) (pc : s.pc i = .out) :
      StepCase s (.takeTicket i)
        ({ s with nextTicket := s.nextTicket + 1 }.move i (.taken s.nextTicket))
  | load (i : ι) (ticket : UInt64)
      (pc : s.pc i = .taken ticket ∨ ∃ next, s.pc i = .spin ticket next) :
      StepCase s (.load i) (s.move i (.spin ticket s.current))
  | enter (i : ι) (ticket : UInt64) (pc : s.pc i = .spin ticket ticket) :
      StepCase s (.enter i) (s.move i (.inside ticket))
  | unlock (i : ι) (ticket : UInt64) (pc : s.pc i = .inside ticket) :
      StepCase s (.unlock i) ({ s with current := s.current + 1 }.move i .out)

lemma step_cases {a : Act ι} (h : step s a = some s') : StepCase s a s' := by
  cases a with
  | takeTicket i =>
    simp only [step] at h
    split at h
    · next pc =>
      obtain rfl := Option.some.inj h
      exact .takeTicket i pc
    · simp at h
  | load i =>
    simp only [step] at h
    split at h
    · next ticket pc =>
      obtain rfl := Option.some.inj h
      exact .load i ticket (.inl pc)
    · next ticket next pc =>
      simp only [Option.ite_none_right_eq_some, Option.some.injEq] at h
      obtain ⟨-, rfl⟩ := h
      exact .load i ticket (.inr ⟨next, pc⟩)
    · simp at h
  | enter i =>
    simp only [step] at h
    split at h
    · next ticket next pc =>
      simp only [Option.ite_none_right_eq_some, Option.some.injEq] at h
      obtain ⟨rfl, rfl⟩ := h
      exact .enter i ticket pc
    · simp at h
  | unlock i =>
    simp only [step] at h
    split at h
    · next ticket pc =>
      obtain rfl := Option.some.inj h
      exact .unlock i ticket pc
    · simp at h

/-- The thread at place `j` goes on with its ticket. -/
lemma Inv.move (h : Inv as s queue) {i : ι} {j : Nat} (hj : j < queue.length) (hji : queue[j] = i)
    {pc : Pc} {a : Act ι} (hwaits : Waits (left as).length ((left as).length + j) pc)
    (htakers : takers (as ++ [a]) = takers as) (hleft : left (as ++ [a]) = left as)
    (hentered : entered (as ++ [a]) = left as ++ (s.move i pc).served queue) :
    Inv (as ++ [a]) (s.move i pc) queue := by
  refine ⟨?_, ?_, ?_, h.nodup, ?_, ?_, ?_⟩
  · rw [htakers, hleft]
    exact h.line
  · rw [hleft]
    exact h.nextTicket
  · rw [hleft]
    exact h.current
  · intro i' hi'
    have hne : i' ≠ i := fun heq => hi' (heq ▸ hji ▸ List.getElem_mem hj)
    simpa [System.move, hne] using h.outside i' hi'
  · intro k hk
    rw [hleft]
    by_cases hkj : k = j
    · subst hkj
      simpa [System.move, hji] using hwaits
    · have hne : queue[k] ≠ i := fun heq => hkj (h.nodup.getElem_inj_iff.1 (heq.trans hji.symm))
      simpa [System.move, hne] using h.waits k hk
  · rw [hleft]
    exact hentered

lemma served_move {i : ι} (pc : Pc) (hi : i ∉ queue ∨ (s.pc i).isInside = pc.isInside) :
    (s.move i pc).served queue = s.served queue := by
  cases queue with
  | nil => rfl
  | cons a rest =>
    by_cases ha : a = i
    · subst ha
      simp_all [System.served, System.move]
    · simp [System.served, System.move, ha]

lemma served_join {i : ι} (pc : Pc) (hi : i ∉ queue) (hpc : pc.isInside = false) :
    (s.move i pc).served (queue ++ [i]) = s.served queue := by
  cases queue with
  | nil => simp [System.served, System.move, hpc]
  | cons a rest =>
    rw [← served_move pc (.inl hi)]
    rfl

/-- Thread `i` joins the queue. -/
lemma Inv.takeTicket (h : Inv as s queue) {i : ι} (hi : s.pc i = .out) :
    Inv (as ++ [.takeTicket i])
      ({ s with nextTicket := s.nextTicket + 1 }.move i (.taken s.nextTicket)) (queue ++ [i]) := by
  have hmem := h.notMem_queue hi
  have hleft : left (as ++ [.takeTicket i]) = left as := by simp [left]
  refine ⟨?_, ?_, ?_, ?_, ?_, ?_, ?_⟩
  · rw [hleft, ← List.append_assoc, ← h.line]
    simp [takers]
  · simp [hleft, System.move, h.nextTicket, UInt64.add_assoc]
  · simp [hleft, System.move, h.current]
  · exact List.nodup_append.2 ⟨h.nodup, by simp, by
      simpa using fun a ha (heq : a = i) => hmem (heq ▸ ha)⟩
  · intro i' hi'
    simp only [List.mem_append, List.mem_singleton, not_or] at hi'
    simpa [System.move, hi'.2] using h.outside i' hi'.1
  · intro k hk
    rw [hleft]
    by_cases hk' : k < queue.length
    · have hne : queue[k] ≠ i := fun heq => hmem (heq ▸ List.getElem_mem hk')
      simpa [System.move, hk', hne] using h.waits k hk'
    · obtain rfl : k = queue.length := by
        simp only [List.length_append, List.length_singleton] at hk
        omega
      simpa [System.move, Waits] using h.nextTicket
  · have hserved := served_join (s := s) (.taken s.nextTicket) hmem rfl
    rw [hleft]
    exact (by simp [entered] : _ = entered as).trans (h.got_in.trans (by rw [← hserved]; rfl))

/-- The first of the queue leaves. -/
lemma Inv.unlock {i : ι} {rest : List ι} (h : Inv as s (i :: rest)) {ticket : UInt64}
    (hi : s.pc i = .inside ticket) :
    Inv (as ++ [.unlock i]) ({ s with current := s.current + 1 }.move i .out) rest := by
  have hleft : left (as ++ [.unlock i]) = left as ++ [i] := by simp [left]
  obtain ⟨hmem, hnodup⟩ := List.nodup_cons.1 h.nodup
  refine ⟨?_, ?_, ?_, hnodup, ?_, ?_, ?_⟩
  · rw [hleft]
    simpa [takers] using h.line
  · simpa [hleft, System.move, Nat.add_assoc, Nat.add_comm] using h.nextTicket
  · simp [hleft, System.move, h.current]
  · intro i' hi'
    by_cases hii : i' = i
    · simp [System.move, hii]
    · simpa [System.move, hii] using h.outside i' (by simp [hii, hi'])
  · intro k hk
    have hne : rest[k] ≠ i := fun heq => hmem (heq ▸ List.getElem_mem hk)
    rw [hleft, List.length_append, List.length_singleton]
    have hwaits : Waits _ _ (s.pc rest[k]) := h.waits (k + 1) (by simpa using hk)
    simpa [System.move, hne] using hwaits.advance.1
  · have hserved : ({ s with current := s.current + 1 }.move i .out).served rest = [] := by
      cases rest with
      | nil => rfl
      | cons a rest =>
        have hne : a ≠ i := fun heq => hmem (by simp [heq])
        have hwaits : Waits _ _ (s.pc a) := h.waits 1 (by simp)
        simpa [System.served, System.move, hne] using hwaits.advance.2
    have hentered : entered as = left as ++ [i] := by
      simpa [System.served, hi, Pc.isInside] using h.got_in
    rw [hserved, hleft, List.append_nil, ← hentered]
    simp [entered]

variable [Fintype ι]

lemma Inv.step (h : Inv as s queue) (hcard : Fintype.card ι < 2 ^ 64) {a : Act ι}
    (hstep : TicketLock.step s a = some s') : ∃ queue', Inv (as ++ [a]) s' queue' := by
  have hlen : queue.length < 2 ^ 64 := h.nodup.length_le_card.trans_lt hcard
  cases step_cases hstep with
  | takeTicket i pc => exact ⟨_, h.takeTicket pc⟩
  | load i ticket pc =>
    have hout : s.pc i ≠ .out ∧ (s.pc i).isInside = false := by
      rcases pc with pc | ⟨next, pc⟩ <;> simp [pc, Pc.isInside]
    obtain ⟨j, hj, hji, hwaits⟩ := h.place hout.1
    have hticket : ticket = .ofNat ((left as).length + j) := by
      rcases pc with pc | ⟨next, pc⟩
      · rw [pc] at hwaits
        exact hwaits
      · rw [pc] at hwaits
        exact hwaits.1
    refine ⟨queue, h.move hj hji ⟨hticket, fun hturn => ?_⟩ ?_ ?_ ?_⟩
    · rw [hticket, h.current] at hturn
      rw [eq_zero_of_ofNat (hj.trans hlen) hturn, Nat.add_zero]
    · simp [takers]
    · simp [left]
    · rw [served_move _ (.inr hout.2), ← h.got_in]
      simp [entered]
  | enter i ticket pc =>
    obtain ⟨j, hj, hji, hwaits⟩ := h.place (i := i) (by simp [pc])
    rw [pc] at hwaits
    refine ⟨queue, h.move hj hji ⟨hwaits.1, hwaits.2 rfl⟩ ?_ ?_ ?_⟩
    · simp [takers]
    · simp [left]
    · obtain ⟨rest, rfl⟩ := head_of_getElem hji (by simpa using hwaits.2 rfl)
      have hentered : entered as = left as := by
        simpa [System.served, pc, Pc.isInside] using h.got_in
      simp [entered, System.served, System.move, Pc.isInside, ← hentered]
  | unlock i ticket pc =>
    obtain ⟨rest, rfl⟩ := h.head_of_inside pc
    exact ⟨rest, h.unlock pc⟩

/-- With fewer than `2 ^ 64` threads, at most one is inside, and the threads get in in the order in
which they have taken their tickets. -/
theorem exclusive_fifo (hcard : Fintype.card ι < 2 ^ 64)
    (h : AllSteps step (init ι) as s) :
    (∀ i i', (s.pc i).isInside = true → (s.pc i').isInside = true → i = i') ∧
      entered as <+: takers as := by
  obtain ⟨queue, hinv⟩ : ∃ queue, Inv as s queue :=
    Steps.invariant (P := fun as s => ∃ queue, Inv as s queue) h ⟨[], inv_init⟩
      fun _ _ _ _ ⟨_, hinv⟩ _ hstep => hinv.step hcard hstep
  constructor
  · intro i i' hi hi'
    exact hinv.exclusive hi hi'
  · rw [hinv.got_in, hinv.line, List.prefix_append_right_inj]
    cases queue with
    | nil => exact List.nil_prefix
    | cons i rest =>
      simp only [System.served]
      split
      · exact ⟨rest, rfl⟩
      · exact List.nil_prefix

/-- Thread `1` reads `current` before thread `0` leaves and once more behind. -/
def handOver : List (Act (Fin 2)) :=
  [.takeTicket 0, .takeTicket 1, .load 1, .load 0, .enter 0, .load 1, .unlock 0, .load 1, .enter 1]

theorem exclusive_fifo_two : ∃ as : List (Act (Fin 2)), ∃ s, AllSteps step (init (Fin 2)) as s ∧
    entered as = [0, 1] ∧ entered as <+: takers as ∧ (s.pc 0).isInside = false := by
  obtain ⟨s, hs, hin⟩ : ∃ s, AllSteps step (init (Fin 2)) handOver s ∧ (s.pc 1).isInside = true :=
    steps_of_exec handOver (by decide)
  obtain ⟨hex, hfifo⟩ := exclusive_fifo (by decide) hs
  refine ⟨handOver, s, hs, by decide, hfifo, ?_⟩
  by_contra h0
  simpa using hex 0 1 (by simpa using h0) hin

end TicketLock

end TiPI.SpinLock
