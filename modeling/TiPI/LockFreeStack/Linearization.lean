import TiPI.LockFreeStack.Stack
import Mathlib.Data.Multiset.Basic
import Mathlib.Algebra.Order.Group.Multiset
import Mathlib.Tactic.Abel

/-!
# The stack is linearizable

Every node that is allocated is in the chain from `head` or owned by one thread. A thread that has
seen the current tag has seen the current head, and the chain keeps the `next` of its nodes, so a
compare-exchange that succeeds is a step of the sequential stack.
-/

namespace TiPI.LockFreeStack

variable {A T : Type*}

/-! ### What a thread holds -/

namespace Pc

/-- The node a thread has allocated and not yet pushed, or popped and not yet deleted. -/
def owned : Pc A T → Option A
  | .pushLoad _ a | .setNext _ a _ | .pushCas _ a _ | .readData a | .delete a _ => some a
  | .idle | .alloc _ | .pushed | .popLoad | .readNext _ _ | .popCas _ _ _ | .popped _ => none

/-- The head a thread has seen and will compare with. -/
def snapshot : Pc A T → Option (TaggedPointer A)
  | .setNext _ _ old | .pushCas _ _ old => some old
  | .readNext a tag | .popCas a tag _ => some ⟨some a, tag⟩
  | .idle | .alloc _ | .pushLoad _ _ | .pushed | .popLoad | .readData _ | .delete _ _
  | .popped _ => none

/-- What is in the node a thread owns. -/
def Ready (heap : A → Option (Node A T)) : Pc A T → Prop
  | .pushLoad value a | .setNext value a _ => ∃ next, heap a = some ⟨value, next⟩
  | .pushCas value a old => heap a = some ⟨value, old.ptr⟩
  | .readData a | .delete a _ => ∃ node, heap a = some node
  | .idle | .alloc _ | .pushed | .popLoad | .readNext _ _ | .popCas _ _ _ | .popped _ => True

/-- How far the call of a thread is. -/
def phase (heap : A → Option (Node A T)) : Pc A T → Phase (StackOp T) (Option T)
  | .idle => .idle
  | .alloc value | .pushLoad value _ | .setNext value _ _ | .pushCas value _ _ =>
    .called (.push value)
  | .pushed => .effected none
  | .popLoad | .readNext _ _ | .popCas _ _ _ => .called .pop
  | .readData a => .effected ((heap a).map Node.data)
  | .delete _ result => .effected (some result)
  | .popped result => .effected result

variable {heap heap' : A → Option (Node A T)} {pc : Pc A T}

lemma Ready.allocated (h : pc.Ready heap) {a : A} (ha : pc.owned = some a) :
    ∃ node, heap a = some node := by
  cases pc with
  | pushLoad value b =>
    obtain rfl := Option.some.inj ha
    exact ⟨_, h.choose_spec⟩
  | setNext value b old =>
    obtain rfl := Option.some.inj ha
    exact ⟨_, h.choose_spec⟩
  | pushCas value b old =>
    obtain rfl := Option.some.inj ha
    exact ⟨_, h⟩
  | readData b =>
    obtain rfl := Option.some.inj ha
    exact h
  | delete b result =>
    obtain rfl := Option.some.inj ha
    exact h
  | _ => simp [owned] at ha

/-- Only the owned node matters to a thread. -/
lemma Ready.congr (h : pc.Ready heap) (hsame : ∀ a, pc.owned = some a → heap' a = heap a) :
    pc.Ready heap' := by
  cases pc with
  | pushLoad value a => simpa only [Ready, hsame a rfl] using h
  | setNext value a old => simpa only [Ready, hsame a rfl] using h
  | pushCas value a old => exact (hsame a rfl).trans h
  | readData a => simpa only [Ready, hsame a rfl] using h
  | delete a result => simpa only [Ready, hsame a rfl] using h
  | _ => exact trivial

lemma phase_congr (hsame : ∀ a, pc.owned = some a → heap' a = heap a) :
    pc.phase heap' = pc.phase heap := by
  cases pc with
  | readData a => simp [phase, hsame a rfl]
  | _ => rfl

end Pc

/-! ### The chain from the head -/

inductive Chain (heap : A → Option (Node A T)) : Option A → List (A × T) → Prop
  | nil : Chain heap none []
  | cons {a : A} {value : T} {next : Option A} {nodes : List (A × T)}
      (node : heap a = some ⟨value, next⟩) (rest : Chain heap next nodes) :
      Chain heap (some a) ((a, value) :: nodes)

lemma Chain.allocated {heap : A → Option (Node A T)} {p : Option A} {nodes : List (A × T)}
    (h : Chain heap p nodes) {a : A} (ha : a ∈ nodes.map Prod.fst) :
    ∃ node, heap a = some node := by
  induction h with
  | nil => simp at ha
  | cons node _ ih =>
    rcases List.mem_cons.mp ha with rfl | ha
    · exact ⟨_, node⟩
    · exact ih ha

lemma Chain.congr {heap heap' : A → Option (Node A T)} {p : Option A} {nodes : List (A × T)}
    (h : Chain heap p nodes) (hsame : ∀ a ∈ nodes.map Prod.fst, heap' a = heap a) :
    Chain heap' p nodes := by
  induction h with
  | nil => exact .nil
  | cons node _ ih =>
    exact .cons ((hsame _ List.mem_cons_self).trans node)
      (ih fun a ha => hsame a (List.mem_cons_of_mem _ ha))

/-! ### The invariant -/

/-- A head that was seen is an older one, or the current one if it has the current tag. -/
structure TaggedPointer.Seen (head old : TaggedPointer A) : Prop where
  le : old.tag ≤ head.tag
  eq : old.tag = head.tag → old = head

lemma TaggedPointer.seen_self (head : TaggedPointer A) : head.Seen head :=
  ⟨le_refl _, fun _ => rfl⟩

/-- The nodes in the chain and the atomic stack behind a state. -/
structure Inv [DecidableEq T] (s : Stack A T) (nodes : List (A × T))
    (o : Atomic (List T) (StackOp T) (Option T)) : Prop where
  tag : s.head.tag = s.successes
  chain : Chain s.heap s.head.ptr nodes
  nodup : (nodes.map Prod.fst).Nodup
  apart : ∀ t a, (s.pc t).owned = some a → a ∉ nodes.map Prod.fst
  owner : ∀ t t' a, (s.pc t).owned = some a → (s.pc t').owned = some a → t = t'
  ready : ∀ t, (s.pc t).Ready s.heap
  seen : ∀ t old, (s.pc t).snapshot = some old → s.head.Seen old
  next : ∀ t a tag next, s.pc t = .popCas a tag next → s.head = ⟨some a, tag⟩ →
    ∃ value, s.heap a = some ⟨value, next⟩
  obj : o.obj = nodes.map Prod.snd
  phase : ∀ t, o.phase t = (s.pc t).phase s.heap
  steps : AllSteps (Atomic.step lifo) (Atomic.start []) s.trace o

section

variable [DecidableEq T] {s : Stack A T} {nodes : List (A × T)}
  {o o' : Atomic (List T) (StackOp T) (Option T)} {t : Nat} {pc : Pc A T}

lemma inv_init : Inv (Stack.init : Stack A T) [] (Atomic.start []) where
  tag := rfl
  chain := .nil
  nodup := List.nodup_nil
  apart := by simp
  owner := by simp [Stack.init, Pc.owned]
  ready _ := trivial
  seen := by simp [Stack.init, Pc.snapshot]
  next := by simp [Stack.init]
  obj := rfl
  phase _ := rfl
  steps := .nil

/-- A node that no chain and no thread but `t` has. -/
structure Private (s : Stack A T) (nodes : List (A × T)) (t : Nat) (a : A) : Prop where
  apart : a ∉ nodes.map Prod.fst
  others : ∀ t', t' ≠ t → (s.pc t').owned ≠ some a

omit [DecidableEq T] in
lemma Private.ne {a b : A} (h : Private s nodes t a)
    (hb : b ∈ nodes.map Prod.fst ∨ ∃ t', t' ≠ t ∧ (s.pc t').owned = some b) : b ≠ a := by
  rintro rfl
  rcases hb with hb | ⟨t', hne, hb⟩
  · exact h.apart hb
  · exact h.others t' hne hb

lemma Inv.own (h : Inv s nodes o) {a : A} (ha : (s.pc t).owned = some a) :
    Private s nodes t a :=
  ⟨h.apart t a ha, fun t' hne ha' => hne (h.owner t' t a ha' ha)⟩

/-- A free address is nobody's. -/
lemma Inv.free (h : Inv s nodes o) {a : A} (ha : s.heap a = none) : Private s nodes t a := by
  refine ⟨fun hmem => ?_, fun t' _ hown => ?_⟩
  · obtain ⟨node, hnode⟩ := h.chain.allocated hmem
    simp [ha] at hnode
  · obtain ⟨node, hnode⟩ := (h.ready t').allocated hown
    simp [ha] at hnode

/-- A node has one owner still when thread `t` gets one that no other thread has. -/
lemma Inv.owner_update (h : Inv s nodes o)
    (howned : ∀ a, pc.owned = some a → ∀ t', t' ≠ t → (s.pc t').owned ≠ some a) (t₁ t₂ : Nat)
    (a : A) (h₁ : (Function.update s.pc t pc t₁).owned = some a)
    (h₂ : (Function.update s.pc t pc t₂).owned = some a) : t₁ = t₂ := by
  by_cases ht₁ : t₁ = t <;> by_cases ht₂ : t₂ = t
  · rw [ht₁, ht₂]
  · subst ht₁
    rw [Function.update_self] at h₁
    rw [Function.update_of_ne ht₂] at h₂
    exact absurd h₂ (howned a h₁ t₂ ht₂)
  · subst ht₂
    rw [Function.update_self] at h₂
    rw [Function.update_of_ne ht₁] at h₁
    exact absurd h₁ (howned a h₂ t₁ ht₁)
  · rw [Function.update_of_ne ht₁] at h₁
    rw [Function.update_of_ne ht₂] at h₂
    exact h.owner t₁ t₂ a h₁ h₂

/-- A step of thread `t` that leaves `head` and the nodes of the others alone. -/
lemma Inv.keep (h : Inv s nodes o) {heap : A → Option (Node A T)}
    {trace : List (OpEvent (StackOp T) (Option T))}
    (hheap : ∀ b, (b ∈ nodes.map Prod.fst ∨ ∃ t', t' ≠ t ∧ (s.pc t').owned = some b) →
      heap b = s.heap b)
    (howned : ∀ a, pc.owned = some a → Private s nodes t a)
    (hready : pc.Ready heap) (hseen : ∀ old, pc.snapshot = some old → s.head.Seen old)
    (hnext : ∀ a tag next, pc = .popCas a tag next → s.head = ⟨some a, tag⟩ →
      ∃ value, heap a = some ⟨value, next⟩)
    (hsteps : AllSteps (Atomic.step lifo) (Atomic.start []) trace o') (hobj : o'.obj = o.obj)
    (hphase : o'.phase = Function.update o.phase t (pc.phase heap)) :
    Inv { s with heap := heap, pc := Function.update s.pc t pc, trace := trace } nodes o' := by
  have hother : ∀ t', t' ≠ t → ∀ a, (s.pc t').owned = some a → heap a = s.heap a :=
    fun t' hne a ha => hheap a (Or.inr ⟨t', hne, ha⟩)
  refine ⟨h.tag, h.chain.congr fun a ha => hheap a (Or.inl ha), h.nodup, ?_, ?_, ?_, ?_, ?_,
    hobj.trans h.obj, ?_, hsteps⟩
  · exact (Function.forall_update_iff s.pc fun _ pc => ∀ a, pc.owned = some a →
      a ∉ nodes.map Prod.fst).2
      ⟨fun a ha => (howned a ha).apart, fun t' _ => h.apart t'⟩
  · exact h.owner_update fun a ha => (howned a ha).others
  · exact (Function.forall_update_iff s.pc fun _ pc => pc.Ready heap).2
      ⟨hready, fun t' ht => (h.ready t').congr (hother t' ht)⟩
  · exact (Function.forall_update_iff s.pc fun _ pc => ∀ old, pc.snapshot = some old →
      s.head.Seen old).2
      ⟨hseen, fun t' _ => h.seen t'⟩
  · refine (Function.forall_update_iff s.pc fun _ pc => ∀ a tag next, pc = .popCas a tag next →
      s.head = ⟨some a, tag⟩ → ∃ value, heap a = some ⟨value, next⟩).2 ⟨hnext, ?_⟩
    intro t' _ a tag next hpc hhead
    obtain ⟨value, hnode⟩ := h.next t' a tag next hpc hhead
    refine ⟨value, (hheap a (Or.inl ?_)).trans hnode⟩
    have hchain := h.chain
    rw [hhead] at hchain
    cases hchain with
    | cons => exact List.mem_cons_self
  · rw [hphase]
    refine (Function.forall_update_iff s.pc fun t' pc' =>
      Function.update o.phase t (pc.phase heap) t' = pc'.phase heap).2 ⟨Function.update_self .., ?_⟩
    intro t' ht
    rw [Function.update_of_ne ht, h.phase t']
    exact (Pc.phase_congr (hother t' ht)).symm

/-- A step of thread `t` without an event. -/
lemma Inv.quiet (h : Inv s nodes o) (heap : A → Option (Node A T))
    (hheap : ∀ b, (b ∈ nodes.map Prod.fst ∨ ∃ t', t' ≠ t ∧ (s.pc t').owned = some b) →
      heap b = s.heap b)
    (howned : ∀ a, pc.owned = some a → Private s nodes t a)
    (hready : pc.Ready heap) (hseen : ∀ old, pc.snapshot = some old → s.head.Seen old)
    (hnext : ∀ a tag next, pc = .popCas a tag next → s.head = ⟨some a, tag⟩ →
      ∃ value, heap a = some ⟨value, next⟩)
    (hphase : pc.phase heap = (s.pc t).phase s.heap) :
    Inv { s with heap := heap, pc := Function.update s.pc t pc } nodes o := by
  refine h.keep hheap howned hready hseen hnext h.steps rfl ?_
  rw [hphase, ← h.phase t, Function.update_eq_self]

/-- A step of thread `t` on its local variables, with an event that leaves the atomic stack as it
is. -/
lemma Inv.event (h : Inv s nodes o) {ev : OpEvent (StackOp T) (Option T)}
    (hown : pc.owned = none) (hsnap : pc.snapshot = none)
    (hstep : o.step lifo ev = some (o.setPhase t (pc.phase s.heap))) :
    Inv ((s.record ev).setPc t pc) nodes (o.setPhase t (pc.phase s.heap)) := by
  refine h.keep (fun _ _ => rfl) (by simp [hown]) ?_ (by simp [hsnap]) ?_
    (h.steps.snoc trivial hstep) rfl rfl
  · cases pc <;> first | exact trivial | simp [Pc.owned] at hown
  · rintro a tag next rfl
    simp [Pc.snapshot] at hsnap

/-- A read of `head` in `pop`. -/
lemma Inv.popHead (h : Inv s nodes o) (hphase : o.phase t = .called .pop) :
    ∃ o', Inv (s.popHead t) nodes o' := by
  unfold Stack.popHead
  cases hp : s.head.ptr with
  | none =>
    refine ⟨_, h.event rfl rfl ?_⟩
    have hchain := h.chain
    rw [hp] at hchain
    cases hchain
    have hobj : o.obj = [] := h.obj
    simp [Atomic.step, hphase, hobj, lifo, Pc.phase, Atomic.setPhase]
  | some a =>
    refine ⟨o, h.quiet s.heap (fun _ _ => rfl) (by simp [Pc.owned]) trivial ?_ (by simp) ?_⟩
    · intro old hold
      obtain rfl := Option.some.inj hold
      rw [← hp]
      exact s.head.seen_self
    · rw [← h.phase t, hphase]
      rfl

/-- A successful compare-exchange of thread `t`. Whatever the others have seen is old by now. -/
lemma Inv.swap (h : Inv s nodes o) (o' : Atomic (List T) (StackOp T) (Option T))
    {ptr : Option A} {nodes' : List (A × T)} {ev : OpEvent (StackOp T) (Option T)}
    (hlt : s.successes + 1 < 2 ^ 64)
    (hchain : Chain s.heap ptr nodes') (hnodup : (nodes'.map Prod.fst).Nodup)
    (hapart : ∀ t', t' ≠ t → ∀ a, (s.pc t').owned = some a → a ∉ nodes'.map Prod.fst)
    (howned : ∀ a, pc.owned = some a → Private s nodes' t a)
    (hready : pc.Ready s.heap) (hsnap : pc.snapshot = none)
    (hstep : o.step lifo ev = some o') (hobj : o'.obj = nodes'.map Prod.snd)
    (hphase : o'.phase = Function.update o.phase t (pc.phase s.heap)) :
    Inv (((s.swap ptr).record ev).setPc t pc) nodes' o' := by
  have htag : nextTag s.head.tag = s.head.tag + 1 := by
    rw [nextTag, h.tag]
    exact Nat.mod_eq_of_lt hlt
  simp only [Stack.swap, Stack.record, Stack.setPc, htag]
  refine ⟨by rw [h.tag], hchain, hnodup, ?_, ?_, ?_, ?_, ?_, hobj, ?_, h.steps.snoc trivial hstep⟩
  · exact (Function.forall_update_iff s.pc fun _ pc => ∀ a, pc.owned = some a →
      a ∉ nodes'.map Prod.fst).2
      ⟨fun a ha => (howned a ha).apart, hapart⟩
  · exact h.owner_update fun a ha => (howned a ha).others
  · exact (Function.forall_update_iff s.pc fun _ pc => pc.Ready s.heap).2
      ⟨hready, fun t' _ => h.ready t'⟩
  · refine (Function.forall_update_iff s.pc fun _ pc => ∀ old, pc.snapshot = some old →
      TaggedPointer.Seen ⟨ptr, s.head.tag + 1⟩ old).2 ⟨by simp [hsnap], ?_⟩
    intro t' _ old hold
    have hle := (h.seen t' old hold).le
    exact ⟨by dsimp only; omega, fun heq => by dsimp only at heq; omega⟩
  · refine (Function.forall_update_iff s.pc fun _ pc => ∀ a tag next, pc = .popCas a tag next →
      (⟨ptr, s.head.tag + 1⟩ : TaggedPointer A) = ⟨some a, tag⟩ →
        ∃ value, s.heap a = some ⟨value, next⟩).2 ⟨?_, ?_⟩
    · rintro a tag next rfl
      simp [Pc.snapshot] at hsnap
    · intro t' _ a tag next hpc hhead
      have hle : tag ≤ s.head.tag := (h.seen t' ⟨some a, tag⟩ (by rw [hpc]; rfl)).le
      have heq : s.head.tag + 1 = tag := congrArg TaggedPointer.tag hhead
      omega
  · rw [hphase]
    refine (Function.forall_update_iff s.pc fun t' pc' =>
      Function.update o.phase t (pc.phase s.heap) t' = pc'.phase s.heap).2
        ⟨Function.update_self .., ?_⟩
    intro t' ht
    rw [Function.update_of_ne ht]
    exact h.phase t'

end

/-! ### The steps -/

section

variable [DecidableEq A] [DecidableEq T] {s : Stack A T} {nodes : List (A × T)}
  {o : Atomic (List T) (StackOp T) (Option T)} {t : Nat}

omit [DecidableEq A] in
lemma Inv.pushes (h : Inv s nodes o) (hlt : s.successes + 1 < 2 ^ 64) {value : T} {a : A}
    (pc : s.pc t = .pushCas value a s.head) :
    ∃ o', Inv (((s.swap (some a)).record (.effect t (.push value) none)).setPc t .pushed)
      ((a, value) :: nodes) o' := by
  have hown : Private s nodes t a := h.own (by rw [pc]; rfl)
  have hnode : s.heap a = some ⟨value, s.head.ptr⟩ := by
    have hready := h.ready t
    rwa [pc] at hready
  have hphase : o.phase t = .called (.push value) := by
    rw [h.phase t, pc]
    rfl
  refine ⟨_, h.swap ({ o with obj := value :: o.obj }.setPhase t (.effected none)) hlt
    (.cons hnode h.chain) ?_ ?_ (by simp [Pc.owned]) trivial rfl ?_ ?_ rfl⟩
  · exact List.nodup_cons.mpr ⟨hown.apart, h.nodup⟩
  · intro t' hne b hb hmem
    rcases List.mem_cons.mp hmem with rfl | hmem
    · exact hown.others t' hne hb
    · exact h.apart t' b hb hmem
  · simp [Atomic.step, hphase, lifo]
  · simp [h.obj]

omit [DecidableEq A] in
lemma Inv.pops (h : Inv s nodes o) (hlt : s.successes + 1 < 2 ^ 64) {a : A} {tag : Nat}
    {next : Option A} (pc : s.pc t = .popCas a tag next) (head : s.head = ⟨some a, tag⟩) :
    ∃ nodes' o', Inv (((s.swap next).record
      (.effect t .pop ((s.heap a).map Node.data))).setPc t (.readData a)) nodes' o' := by
  obtain ⟨value, hnode⟩ := h.next t a tag next pc head
  have hphase : o.phase t = .called .pop := by
    rw [h.phase t, pc]
    rfl
  have hchain := h.chain
  have hnodup := h.nodup
  have hobj := h.obj
  have hapart := h.apart
  rw [head] at hchain
  cases hchain with
  | @cons _ value' next' rest hnode' hrest =>
    obtain ⟨rfl, rfl⟩ : value' = value ∧ next' = next := by simpa [hnode'] using hnode
    obtain ⟨hfresh, hrestnodup⟩ := List.nodup_cons.mp hnodup
    refine ⟨rest, _, h.swap
      ({ o with obj := rest.map Prod.snd }.setPhase t (.effected (some value'))) hlt hrest
      hrestnodup ?_ ?_ ⟨_, hnode'⟩ rfl ?_ rfl ?_⟩
    · exact fun t' _ b hb hmem => hapart t' b hb (List.mem_cons_of_mem _ hmem)
    · intro b hb
      obtain rfl := Option.some.inj hb
      exact ⟨hfresh, fun t' _ hb => hapart t' a hb List.mem_cons_self⟩
    · simp [Atomic.step, hphase, hobj, hnode', lifo]
    · simp [Atomic.setPhase, Pc.phase, hnode']

omit [DecidableEq A] in
/-- A head seen in the loop of `pop` gives the `next` of its node as long as it is the head. -/
lemma Inv.next_of_head (h : Inv s nodes o) {a : A} {tag : Nat} (head : s.head = ⟨some a, tag⟩)
    (garbage : Option A) :
    ∃ value, s.heap a = some ⟨value, (s.heap a).elim garbage Node.next⟩ := by
  have hchain := h.chain
  rw [head] at hchain
  cases hchain with
  | @cons _ value next rest hnode hrest => exact ⟨value, by simp [hnode]⟩

lemma Inv.step {s' : Stack A T} {act : Act A T} (h : Inv s nodes o) (hstep : s.step act = some s')
    (hlt : s'.successes < 2 ^ 64) : ∃ nodes' o', Inv s' nodes' o' := by
  have hphase := h.phase
  have hready := h.ready
  have hseen := h.seen
  cases Stack.step_cases hstep with
  | callPush t value pc =>
    refine ⟨nodes, _, h.event rfl rfl ?_⟩
    simp [Atomic.step, hphase t, pc, Pc.phase]
  | callPop t pc =>
    refine ⟨nodes, _, h.event rfl rfl ?_⟩
    simp [Atomic.step, hphase t, pc, Pc.phase]
  | alloc t a value pc free =>
    have hfree : Private s nodes t a := h.free free
    refine ⟨nodes, o, h.quiet (Function.update s.heap a _) ?_ ?_ ?_ (by simp [Pc.snapshot])
      (by simp) (by rw [pc]; rfl)⟩
    · exact fun b hb => Function.update_of_ne (hfree.ne hb) _ _
    · intro b hb
      obtain rfl := Option.some.inj hb
      exact hfree
    · exact ⟨none, Function.update_self _ _ _⟩
  | pushLoad t value a pc =>
    refine ⟨nodes, o, h.quiet s.heap (fun _ _ => rfl) ?_ ?_ ?_ (by simp) (by rw [pc]; rfl)⟩
    · exact fun b hb => h.own (by rw [pc]; exact hb)
    · have hnode := hready t
      rwa [pc] at hnode
    · intro old hold
      obtain rfl := Option.some.inj hold
      exact s.head.seen_self
  | popLoad t pc =>
    obtain ⟨o', ho'⟩ := h.popHead (t := t) (by rw [hphase t, pc]; rfl)
    exact ⟨nodes, o', ho'⟩
  | setNext t value a old pc =>
    have hown : Private s nodes t a := h.own (by rw [pc]; rfl)
    obtain ⟨next, hnode⟩ : ∃ next, s.heap a = some ⟨value, next⟩ := by
      have hnode := hready t
      rwa [pc] at hnode
    refine ⟨nodes, o, h.quiet (Function.update s.heap a _) ?_ ?_ ?_ ?_ (by simp)
      (by rw [pc]; rfl)⟩
    · exact fun b hb => Function.update_of_ne (hown.ne hb) _ _
    · exact fun b hb => h.own (by rw [pc]; exact hb)
    · simp [Pc.Ready, hnode]
    · exact fun old' hold => hseen t old' (by rw [pc]; exact hold)
  | pushes t value a pc =>
    obtain ⟨o', ho'⟩ := h.pushes hlt pc
    exact ⟨_, o', ho'⟩
  | pushFails t spurious value a old pc =>
    refine ⟨nodes, o, h.quiet s.heap (fun _ _ => rfl) ?_ ?_ ?_ (by simp) (by rw [pc]; rfl)⟩
    · exact fun b hb => h.own (by rw [pc]; exact hb)
    · have hnode := hready t
      rw [pc] at hnode
      exact ⟨old.ptr, hnode⟩
    · intro old' hold
      obtain rfl := Option.some.inj hold
      exact s.head.seen_self
  | pops t a tag next pc head => exact h.pops hlt pc head
  | popFails t spurious a tag next pc =>
    obtain ⟨o', ho'⟩ := h.popHead (t := t) (by rw [hphase t, pc]; rfl)
    exact ⟨nodes, o', ho'⟩
  | readNext t garbage a tag pc =>
    refine ⟨nodes, o, h.quiet s.heap (fun _ _ => rfl) (by simp [Pc.owned]) trivial ?_ ?_
      (by rw [pc]; rfl)⟩
    · exact fun old hold => hseen t old (by rw [pc]; exact hold)
    · rintro a' tag' next heq hhead
      obtain ⟨rfl, rfl, rfl⟩ := Pc.popCas.inj heq
      exact h.next_of_head hhead garbage
  | readData t garbage a pc =>
    obtain ⟨node, hnode⟩ : ∃ node, s.heap a = some node := by
      have hnode := hready t
      rwa [pc] at hnode
    refine ⟨nodes, o,
      h.quiet s.heap (fun _ _ => rfl) ?_ ⟨node, hnode⟩ (by simp [Pc.snapshot]) (by simp) ?_⟩
    · exact fun b hb => h.own (by rw [pc]; exact hb)
    · simp [pc, Pc.phase, hnode]
  | delete t a result pc =>
    have hown : Private s nodes t a := h.own (by rw [pc]; rfl)
    refine ⟨nodes, o, h.quiet (Function.update s.heap a none) ?_ (by simp [Pc.owned])
      trivial (by simp [Pc.snapshot]) (by simp) (by rw [pc]; rfl)⟩
    exact fun b hb => Function.update_of_ne (hown.ne hb) _ _
  | pushRet t pc =>
    refine ⟨nodes, _, h.event rfl rfl ?_⟩
    simp [Atomic.step, hphase t, pc, Pc.phase]
  | popRet t result pc =>
    refine ⟨nodes, _, h.event rfl rfl ?_⟩
    simp [Atomic.step, hphase t, pc, Pc.phase]

end

/-! ### Runs -/

/-- The values pushed by operations. -/
def pushed (cs : List (Completed (StackOp T) (Option T))) : List T :=
  cs.filterMap fun c =>
    match c.op with
    | .push value => some value
    | .pop => none

/-- The values popped by operations. -/
def popped (cs : List (Completed (StackOp T) (Option T))) : List T :=
  cs.filterMap fun c =>
    match c.op with
    | .push _ => none
    | .pop => c.res

/-- What was on a sequential stack or pushed is popped once or still there. -/
lemma balance {s s' : List T} {cs : List (Completed (StackOp T) (Option T))}
    (h : Legal (fun s op res s' => lifo s op = (s', res)) s cs s') :
    (pushed cs : Multiset T) + (s : Multiset T) = (popped cs : Multiset T) + (s' : Multiset T) := by
  induction h with
  | nil s => rfl
  | @cons s s₁ s' c cs head tail ih =>
    obtain ⟨id, op, res⟩ := c
    cases op with
    | push value =>
      obtain ⟨rfl, rfl⟩ := Prod.mk.inj head
      have hpushed : pushed (⟨id, .push value, none⟩ :: cs) = value :: pushed cs := rfl
      have hpopped : popped (⟨id, .push value, none⟩ :: cs) = popped cs := rfl
      rw [hpushed, hpopped, ← ih]
      simp only [← Multiset.cons_coe, ← Multiset.singleton_add]
      abel
    | pop =>
      cases s with
      | nil =>
        obtain ⟨rfl, rfl⟩ := Prod.mk.inj head
        exact ih
      | cons value rest =>
        obtain ⟨rfl, rfl⟩ := Prod.mk.inj head
        have hpushed : pushed (⟨id, .pop, some value⟩ :: cs) = pushed cs := rfl
        have hpopped : popped (⟨id, .pop, some value⟩ :: cs) = value :: popped cs := rfl
        rw [hpushed, hpopped]
        simp only [← Multiset.cons_coe, ← Multiset.singleton_add]
        rw [add_assoc, ← ih]
        abel

variable [DecidableEq A] [DecidableEq T]

lemma inv_run {s : Stack A T} (h : Reach Stack.step Stack.init s) (hlt : s.successes < 2 ^ 64) :
    ∃ nodes o, Inv s nodes o := by
  refine Run.invariant (P := fun s : Stack A T => s.successes < 2 ^ 64 → ∃ nodes o, Inv s nodes o)
    h (fun _ => ⟨[], _, inv_init⟩) ?_ hlt
  intro s act s' hs _ hstep hlt
  have hle : s.successes ≤ s'.successes := Stack.successes_le hstep
  obtain ⟨nodes, o, hinv⟩ := hs (by omega)
  exact hinv.step hstep hlt

/-- With fewer than `2 ^ 64` successful compare-exchanges, the calls and returns of every run, with
the successful compare-exchanges and the reads of a null head between them, are a run of the
atomic stack. The chain from `head` has its values: those pushed and not yet popped. -/
theorem linearizable {s : Stack A T} (h : Reach Stack.step Stack.init s)
    (hlt : s.successes < 2 ^ 64) :
    ∃ (nodes : List (A × T)) (o : Atomic (List T) (StackOp T) (Option T)),
      AllSteps (Atomic.step lifo) (Atomic.start []) s.trace o ∧
      Legal (fun s op res s' => lifo s op = (s', res)) [] (Atomic.effects s.trace) o.obj ∧
      Chain s.heap s.head.ptr nodes ∧ o.obj = nodes.map Prod.snd ∧
      (pushed (Atomic.effects s.trace) : Multiset T) =
        (popped (Atomic.effects s.trace) : Multiset T) + (nodes.map Prod.snd : List T) := by
  obtain ⟨nodes, o, hinv⟩ := inv_run h hlt
  have hlegal := Atomic.legal_of_steps hinv.steps
  have hbalance := balance hlegal
  rw [hinv.obj, Multiset.coe_nil, add_zero] at hbalance
  exact ⟨nodes, o, hinv.steps, hlegal, hinv.chain, hinv.obj, hbalance⟩

/-- Thread `t` pushes `value` in a node at `a`. -/
def pushAt (t value a : Nat) : List (Act Nat Nat) :=
  [.callPush t value, .alloc t a, .load t, .setNext t, .cas t false, .ret t]

def popWhole (t : Nat) : List (Act Nat Nat) :=
  [.callPop t, .load t, .readNext t none, .cas t false, .readData t 0, .delete t, .ret t]

/-- Thread `1` has read the head and its `next`; then thread `2` pops both nodes and pushes another
value at the address of the old head. The compare-exchange of thread `1` fails on the tag. -/
def reuse : List (Act Nat Nat) :=
  pushAt 0 5 0 ++ pushAt 0 6 1 ++ [.callPop 1, .load 1, .readNext 1 none] ++ popWhole 2 ++
    popWhole 2 ++ pushAt 2 7 1 ++
    [.cas 1 false, .readNext 1 none, .cas 1 false, .readData 1 0, .delete 1, .ret 1]

theorem linearizable_reuse : ∃ (s : Stack Nat Nat) (nodes : List (Nat × Nat))
    (o : Atomic (List Nat) (StackOp Nat) (Option Nat)), Reach Stack.step Stack.init s ∧
    .ret 1 (some 7) ∈ s.trace ∧ s.head = ⟨none, 6⟩ ∧
    AllSteps (Atomic.step lifo) (Atomic.start []) s.trace o ∧
    Chain s.heap s.head.ptr nodes ∧ o.obj = nodes.map Prod.snd := by
  obtain ⟨s, hrun, hlt, hret, hhead⟩ : ∃ s : Stack Nat Nat, Reach Stack.step Stack.init s ∧
      (s.successes < 2 ^ 64 ∧ .ret 1 (some 7) ∈ s.trace ∧ s.head = ⟨none, 6⟩) :=
    exists_of_exec reuse (by decide)
  obtain ⟨nodes, o, hsteps, -, hchain, hobj, -⟩ := linearizable hrun hlt
  exact ⟨s, nodes, o, hrun, hret, hhead, hsteps, hchain, hobj⟩

end TiPI.LockFreeStack
