import TiPI.Lib.AtomicObject
import Mathlib.Algebra.Order.Ring.Nat

/-!
# The lock-free stack

Threads push and pop on a list of nodes under one atomic head, a pointer with a tag. Each atomic
access, each read or write of a node, each allocation and each `delete` is a step of its own. The
allocator may hand out a freed address at once, and a read of a freed node gives anything.
-/

namespace TiPI.LockFreeStack

variable {A T : Type*}

structure Node (A T : Type*) where
  data : T
  next : Option A
  deriving DecidableEq

/-- `none` is `nullptr`. -/
structure TaggedPointer (A : Type*) where
  ptr : Option A
  tag : Nat
  deriving DecidableEq

/-- `tag + 1` on `uintptr_t`. -/
def nextTag (tag : Nat) : Nat := (tag + 1) % 2 ^ 64

inductive StackOp (T : Type*)
  | push (value : T)
  | pop
  deriving DecidableEq

/-- A last-in-first-out stack. `none` is the `{}` that `pop` returns on an empty stack. -/
def lifo : List T → StackOp T → List T × Option T
  | s, .push value => (value :: s, none)
  | [], .pop => ([], none)
  | value :: s, .pop => (s, some value)

/-- Where a thread is, with its local variables. -/
inductive Pc (A T : Type*)
  | idle
  /-- `push` in front of `new Node` -/
  | alloc (value : T)
  /-- `push` in front of the load of `head` -/
  | pushLoad (value : T) (newNode : A)
  | setNext (value : T) (newNode : A) (oldHead : TaggedPointer A)
  | pushCas (value : T) (newNode : A) (oldHead : TaggedPointer A)
  | pushed
  | popLoad
  /-- in the loop of `pop`, in front of the read of `oldHead.ptr->next` -/
  | readNext (node : A) (tag : Nat)
  | popCas (node : A) (tag : Nat) (next : Option A)
  | readData (node : A)
  | delete (node : A) (result : T)
  | popped (result : Option T)
  deriving DecidableEq

structure Stack (A T : Type*) where
  head : TaggedPointer A
  /-- the allocated nodes -/
  heap : A → Option (Node A T)
  pc : Nat → Pc A T
  /-- calls, returns, and the steps at which the calls take effect, oldest first -/
  trace : List (OpEvent (StackOp T) (Option T))
  /-- the number of successful compare-exchanges -/
  successes : Nat

inductive Act (A T : Type*)
  | callPush (t : Nat) (value : T)
  | callPop (t : Nat)
  /-- `new Node`, at an address that is free -/
  | alloc (t : Nat) (address : A)
  | load (t : Nat)
  | setNext (t : Nat)
  | cas (t : Nat) (spurious : Bool)
  /-- `garbage` is read where the node has been freed -/
  | readNext (t : Nat) (garbage : Option A)
  | readData (t : Nat) (garbage : T)
  | delete (t : Nat)
  | ret (t : Nat)

namespace Stack

def init : Stack A T := ⟨⟨none, 0⟩, fun _ => none, fun _ => .idle, [], 0⟩

def setPc (s : Stack A T) (t : Nat) (pc : Pc A T) : Stack A T :=
  { s with pc := Function.update s.pc t pc }

def record (s : Stack A T) (ev : OpEvent (StackOp T) (Option T)) : Stack A T :=
  { s with trace := s.trace ++ [ev] }

/-- A successful compare-exchange. -/
def swap (s : Stack A T) (ptr : Option A) : Stack A T :=
  { s with head := ⟨ptr, nextTag s.head.tag⟩, successes := s.successes + 1 }

/-- `pop` has read `head`: it ends on `nullptr` and else goes on with this head. -/
def popHead (s : Stack A T) (t : Nat) : Stack A T :=
  match s.head.ptr with
  | none => (s.record (.effect t .pop none)).setPc t (.popped none)
  | some node => s.setPc t (.readNext node s.head.tag)

variable [DecidableEq A]

def setNode (s : Stack A T) (a : A) (node : Option (Node A T)) : Stack A T :=
  { s with heap := Function.update s.heap a node }

def step (s : Stack A T) : Act A T → Option (Stack A T)
  | .callPush t value =>
    match s.pc t with
    | .idle => some ((s.record (.call t (.push value))).setPc t (.alloc value))
    | _ => none
  | .callPop t =>
    match s.pc t with
    | .idle => some ((s.record (.call t .pop)).setPc t .popLoad)
    | _ => none
  | .alloc t address =>
    match s.pc t, s.heap address with
    | .alloc value, none =>
      some ((s.setNode address (some ⟨value, none⟩)).setPc t (.pushLoad value address))
    | _, _ => none
  | .load t =>
    match s.pc t with
    | .pushLoad value newNode => some (s.setPc t (.setNext value newNode s.head))
    | .popLoad => some (s.popHead t)
    | _ => none
  | .setNext t =>
    match s.pc t with
    | .setNext value newNode oldHead =>
      some ((s.setNode newNode
        ((s.heap newNode).map fun node => { node with next := oldHead.ptr })).setPc t
          (.pushCas value newNode oldHead))
    | _ => none
  | .cas t spurious =>
    match s.pc t with
    | .pushCas value newNode oldHead =>
      if s.head = oldHead ∧ spurious = false then
        some (((s.swap (some newNode)).record (.effect t (.push value) none)).setPc t .pushed)
      else some (s.setPc t (.setNext value newNode s.head))
    | .popCas node tag next =>
      if s.head = ⟨some node, tag⟩ ∧ spurious = false then
        some (((s.swap next).record (.effect t .pop ((s.heap node).map Node.data))).setPc t
          (.readData node))
      else some (s.popHead t)
    | _ => none
  | .readNext t garbage =>
    match s.pc t with
    | .readNext node tag =>
      some (s.setPc t (.popCas node tag ((s.heap node).elim garbage Node.next)))
    | _ => none
  | .readData t garbage =>
    match s.pc t with
    | .readData node => some (s.setPc t (.delete node ((s.heap node).elim garbage Node.data)))
    | _ => none
  | .delete t =>
    match s.pc t with
    | .delete node result => some ((s.setNode node none).setPc t (.popped (some result)))
    | _ => none
  | .ret t =>
    match s.pc t with
    | .pushed => some ((s.record (.ret t none)).setPc t .idle)
    | .popped result => some ((s.record (.ret t result)).setPc t .idle)
    | _ => none

/-- The branches of a step. -/
inductive StepCase (s : Stack A T) : Act A T → Stack A T → Prop
  | callPush (t : Nat) (value : T) (pc : s.pc t = .idle) :
      StepCase s (.callPush t value)
        ((s.record (.call t (.push value))).setPc t (.alloc value))
  | callPop (t : Nat) (pc : s.pc t = .idle) :
      StepCase s (.callPop t) ((s.record (.call t .pop)).setPc t .popLoad)
  | alloc (t : Nat) (a : A) (value : T) (pc : s.pc t = .alloc value) (free : s.heap a = none) :
      StepCase s (.alloc t a)
        ((s.setNode a (some ⟨value, none⟩)).setPc t (.pushLoad value a))
  | pushLoad (t : Nat) (value : T) (a : A) (pc : s.pc t = .pushLoad value a) :
      StepCase s (.load t) (s.setPc t (.setNext value a s.head))
  | popLoad (t : Nat) (pc : s.pc t = .popLoad) : StepCase s (.load t) (s.popHead t)
  | setNext (t : Nat) (value : T) (a : A) (old : TaggedPointer A)
      (pc : s.pc t = .setNext value a old) :
      StepCase s (.setNext t)
        ((s.setNode a ((s.heap a).map fun node => { node with next := old.ptr })).setPc t
          (.pushCas value a old))
  | pushes (t : Nat) (value : T) (a : A) (pc : s.pc t = .pushCas value a s.head) :
      StepCase s (.cas t false)
        (((s.swap (some a)).record (.effect t (.push value) none)).setPc t .pushed)
  | pushFails (t : Nat) (spurious : Bool) (value : T) (a : A) (old : TaggedPointer A)
      (pc : s.pc t = .pushCas value a old) :
      StepCase s (.cas t spurious) (s.setPc t (.setNext value a s.head))
  | pops (t : Nat) (a : A) (tag : Nat) (next : Option A) (pc : s.pc t = .popCas a tag next)
      (head : s.head = ⟨some a, tag⟩) :
      StepCase s (.cas t false)
        (((s.swap next).record (.effect t .pop ((s.heap a).map Node.data))).setPc t (.readData a))
  | popFails (t : Nat) (spurious : Bool) (a : A) (tag : Nat) (next : Option A)
      (pc : s.pc t = .popCas a tag next) : StepCase s (.cas t spurious) (s.popHead t)
  | readNext (t : Nat) (garbage : Option A) (a : A) (tag : Nat) (pc : s.pc t = .readNext a tag) :
      StepCase s (.readNext t garbage)
        (s.setPc t (.popCas a tag ((s.heap a).elim garbage Node.next)))
  | readData (t : Nat) (garbage : T) (a : A) (pc : s.pc t = .readData a) :
      StepCase s (.readData t garbage)
        (s.setPc t (.delete a ((s.heap a).elim garbage Node.data)))
  | delete (t : Nat) (a : A) (result : T) (pc : s.pc t = .delete a result) :
      StepCase s (.delete t) ((s.setNode a none).setPc t (.popped (some result)))
  | pushRet (t : Nat) (pc : s.pc t = .pushed) :
      StepCase s (.ret t) ((s.record (.ret t none)).setPc t .idle)
  | popRet (t : Nat) (result : Option T) (pc : s.pc t = .popped result) :
      StepCase s (.ret t) ((s.record (.ret t result)).setPc t .idle)

lemma step_cases {s s' : Stack A T} {act : Act A T} (h : s.step act = some s') :
    StepCase s act s' := by
  cases act with
  | callPush t value =>
    simp only [step] at h
    split at h
    · next pc =>
      obtain rfl := Option.some.inj h
      exact .callPush t value pc
    · simp at h
  | callPop t =>
    simp only [step] at h
    split at h
    · next pc =>
      obtain rfl := Option.some.inj h
      exact .callPop t pc
    · simp at h
  | alloc t a =>
    simp only [step] at h
    split at h
    · next value pc free =>
      obtain rfl := Option.some.inj h
      exact .alloc t a value pc free
    · simp at h
  | load t =>
    simp only [step] at h
    split at h
    · next value a pc =>
      obtain rfl := Option.some.inj h
      exact .pushLoad t value a pc
    · next pc =>
      obtain rfl := Option.some.inj h
      exact .popLoad t pc
    · simp at h
  | setNext t =>
    simp only [step] at h
    split at h
    · next value a old pc =>
      obtain rfl := Option.some.inj h
      exact .setNext t value a old pc
    · simp at h
  | cas t spurious =>
    simp only [step] at h
    split at h
    · next value a old pc =>
      split at h
      · next hcas =>
        obtain ⟨rfl, rfl⟩ := hcas
        obtain rfl := Option.some.inj h
        exact .pushes t value a pc
      · obtain rfl := Option.some.inj h
        exact .pushFails t spurious value a old pc
    · next a tag next' pc =>
      split at h
      · next hcas =>
        obtain ⟨hhead, rfl⟩ := hcas
        obtain rfl := Option.some.inj h
        exact .pops t a tag next' pc hhead
      · obtain rfl := Option.some.inj h
        exact .popFails t spurious a tag next' pc
    · simp at h
  | readNext t garbage =>
    simp only [step] at h
    split at h
    · next a tag pc =>
      obtain rfl := Option.some.inj h
      exact .readNext t garbage a tag pc
    · simp at h
  | readData t garbage =>
    simp only [step] at h
    split at h
    · next a pc =>
      obtain rfl := Option.some.inj h
      exact .readData t garbage a pc
    · simp at h
  | delete t =>
    simp only [step] at h
    split at h
    · next a result pc =>
      obtain rfl := Option.some.inj h
      exact .delete t a result pc
    · simp at h
  | ret t =>
    simp only [step] at h
    split at h
    · next pc =>
      obtain rfl := Option.some.inj h
      exact .pushRet t pc
    · next result pc =>
      obtain rfl := Option.some.inj h
      exact .popRet t result pc
    · simp at h

lemma successes_le {s s' : Stack A T} {act : Act A T} (h : s.step act = some s') :
    s.successes ≤ s'.successes := by
  have hpop : ∀ t, (s.popHead t).successes = s.successes := by
    intro t
    unfold popHead
    split <;> rfl
  cases step_cases h with
  | pushes | pops => exact Nat.le_succ _
  | popLoad t | popFails t => exact (hpop t).ge
  | _ => exact le_refl _

end Stack

end TiPI.LockFreeStack
