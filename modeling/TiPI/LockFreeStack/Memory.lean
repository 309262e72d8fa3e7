import TiPI.LockFreeStack.Progress
import Mathlib.Data.List.TakeWhile

/-!
# The nodes of the stack

Every allocated node is in the chain or owned by one call, so none is lost and none is deleted
twice. The destructor pops until it gets a value that is false: it leaves what is below that value.
-/

namespace TiPI.LockFreeStack

variable {A T : Type*}

lemma Chain.unique {heap : A → Option (Node A T)} {p : Option A} {nodes nodes' : List (A × T)}
    (h : Chain heap p nodes) (h' : Chain heap p nodes') : nodes' = nodes := by
  induction h generalizing nodes' with
  | nil =>
    cases h'
    rfl
  | cons node _ ih =>
    cases h' with
    | cons node' rest' =>
      rw [node, Option.some.injEq, Node.mk.injEq] at node'
      obtain ⟨rfl, rfl⟩ := node'
      rw [ih rest']

/-- Every allocated node is in the chain, or a thread owns it. -/
def Covered (s : Stack A T) (nodes : List (A × T)) : Prop :=
  ∀ a node, s.heap a = some node → a ∈ nodes.map Prod.fst ∨ ∃ t, (s.pc t).owned = some a

section

variable [DecidableEq T] {s s' : Stack A T} {nodes nodes' : List (A × T)}
  {o o' : Atomic (List T) (StackOp T) (Option T)} {t : Nat} {pc : Pc A T}

omit [DecidableEq T] in
/-- What a thread owns still is what it owned, or a node it has just got. -/
lemma Covered.owned_update (hc : Covered s nodes) {a : A} {node : Node A T}
    (ha : s.heap a = some node)
    (howned : (s.pc t).owned = some a → pc.owned = some a ∨ a ∈ nodes'.map Prod.fst)
    (hnodes : a ∈ nodes.map Prod.fst → a ∈ nodes'.map Prod.fst ∨ pc.owned = some a) :
    a ∈ nodes'.map Prod.fst ∨ ∃ t', (Function.update s.pc t pc t').owned = some a := by
  have hself : Function.update s.pc t pc t = pc := Function.update_self ..
  rcases hc a node ha with hmem | ⟨t', ht'⟩
  · exact (hnodes hmem).imp_right fun hown => ⟨t, hself.symm ▸ hown⟩
  · by_cases htt : t' = t
    · subst htt
      exact (howned ht').symm.imp_right fun hown => ⟨t', hself.symm ▸ hown⟩
    · exact .inr ⟨t', by rwa [Function.update_of_ne htt]⟩

/-- A step that leaves the head and the nodes of the chain alone, and allocates nothing. -/
lemma Covered.keep (h : Inv s nodes o) (hc : Covered s nodes) (h' : Inv s' nodes' o')
    (hhead : s'.head = s.head) (hpc : s'.pc = Function.update s.pc t pc)
    (hheap : ∀ b, (∃ node, s'.heap b = some node) → ∃ node, s.heap b = some node)
    (hsame : ∀ b ∈ nodes.map Prod.fst, s'.heap b = s.heap b)
    (howned : ∀ b, (s.pc t).owned = some b → pc.owned = some b ∨ s'.heap b = none) :
    Covered s' nodes' := by
  have hchain : Chain s'.heap s'.head.ptr nodes := hhead ▸ h.chain.congr hsame
  obtain rfl := hchain.unique h'.chain
  intro a node ha
  obtain ⟨node', hnode'⟩ := hheap a ⟨node, ha⟩
  rw [hpc]
  refine hc.owned_update hnode' (fun hown => .inl ?_) .inl
  refine (howned a hown).resolve_right fun hnone => ?_
  exact absurd (hnone.symm.trans ha) (by simp)

variable [DecidableEq A]

lemma Covered.step {act : Act A T} (h : Inv s nodes o) (hc : Covered s nodes)
    (h' : Inv s' nodes' o') (hstep : s.step act = some s') : Covered s' nodes' := by
  have hid : ∀ b, (∃ node, s.heap b = some node) → ∃ node, s.heap b = some node := fun _ hb => hb
  have hpop : ∀ t, (s.popHead t).head = s.head ∧ (s.popHead t).heap = s.heap ∧
      ∃ pc, (s.popHead t).pc = Function.update s.pc t pc := by
    intro t
    unfold Stack.popHead
    split <;> exact ⟨rfl, rfl, _, rfl⟩
  cases Stack.step_cases hstep with
  | callPush t value pc | callPop t pc | pushLoad t value a pc | pushFails t spurious value a old pc
  | readNext t garbage a tag pc | readData t garbage a pc | pushRet t pc | popRet t result pc =>
    refine hc.keep (t := t) h h' rfl rfl hid (fun _ _ => rfl) fun b hb => .inl ?_
    rw [pc] at hb
    exact hb
  | popLoad t pc | popFails t spurious a tag next pc =>
    obtain ⟨hhead, hheap, pc', hpc'⟩ := hpop t
    refine hc.keep (t := t) h h' hhead hpc' (by rw [hheap]; exact hid) (fun b _ => by rw [hheap])
      fun b hb => ?_
    rw [pc] at hb
    simp [Pc.owned] at hb
  | alloc t a value pc free =>
    have hchain : Chain (Function.update s.heap a (some ⟨value, none⟩)) s.head.ptr nodes := by
      refine h.chain.congr fun b hb => Function.update_of_ne ?_ _ _
      exact ((h.free free : Private s nodes t a).ne (.inl hb))
    obtain rfl := hchain.unique h'.chain
    intro b node hb
    by_cases hba : b = a
    · exact .inr ⟨t, by simp [Stack.setPc, Stack.setNode, Pc.owned, hba]⟩
    · have hb' : s.heap b = some node := by
        simpa [Stack.setPc, Stack.setNode, hba] using hb
      refine hc.owned_update hb' (fun hown => ?_) .inl
      rw [pc] at hown
      simp [Pc.owned] at hown
  | setNext t value a old pc =>
    have hown : Private s nodes t a := h.own (by rw [pc]; rfl)
    refine hc.keep (t := t) h h' rfl rfl ?_
      (fun b hb => Function.update_of_ne (hown.ne (.inl hb)) _ _) fun b hb => .inl ?_
    · intro b hb
      by_cases hba : b = a
      · subst hba
        simpa [Stack.setPc, Stack.setNode] using hb
      · simpa [Stack.setPc, Stack.setNode, hba] using hb
    · rw [pc] at hb
      exact hb
  | pushes t value a pc =>
    have hready := h.ready t
    rw [pc] at hready
    obtain rfl := (Chain.cons hready h.chain).unique h'.chain
    intro b node hb
    refine hc.owned_update hb (fun hown => .inr ?_) fun hb => .inl (List.mem_cons_of_mem _ hb)
    rw [pc] at hown
    obtain rfl := Option.some.inj hown
    exact List.mem_cons_self
  | pops t a tag next pc head =>
    obtain ⟨value, hnode⟩ := h.next t a tag next pc head
    have hchain := h.chain
    rw [head] at hchain
    cases hchain with
    | @cons _ value' next' rest hnode' hrest =>
      obtain ⟨rfl, rfl⟩ : value' = value ∧ next' = next := by simpa [hnode'] using hnode
      obtain rfl := hrest.unique h'.chain
      intro b node hb
      refine hc.owned_update hb (fun hown => ?_) fun hb => ?_
      · rw [pc] at hown
        simp [Pc.owned] at hown
      · rcases List.mem_cons.1 hb with rfl | hb
        · exact .inr rfl
        · exact .inl hb
  | delete t a result pc =>
    have hown : Private s nodes t a := h.own (by rw [pc]; rfl)
    refine hc.keep (t := t) h h' rfl rfl ?_
      (fun b hb => Function.update_of_ne (hown.ne (.inl hb)) _ _) fun b hb => .inr ?_
    · intro b hb
      by_cases hba : b = a
      · subst hba
        simp [Stack.setPc, Stack.setNode] at hb
      · simpa [Stack.setPc, Stack.setNode, hba] using hb
    · rw [pc] at hb
      obtain rfl := Option.some.inj hb
      exact Function.update_self ..

end

namespace Stack

/-- `isEmpty` reads `head` once. -/
def isEmpty (s : Stack A T) : Bool := s.head.ptr.isNone

end Stack

section

variable [DecidableEq A] [DecidableEq T] {s : Stack A T}

/-- The invariant, with every allocated node accounted for. -/
lemma covered_run (h : Reach Stack.step Stack.init s) (hlt : s.successes < 2 ^ 64) :
    ∃ nodes o, Inv s nodes o ∧ Covered s nodes := by
  refine Run.invariant (P := fun s : Stack A T => s.successes < 2 ^ 64 →
    ∃ nodes o, Inv s nodes o ∧ Covered s nodes) h ?_ ?_ hlt
  · exact fun _ => ⟨[], _, inv_init, fun a node ha => absurd ha (by simp [Stack.init])⟩
  · intro s act s' hs _ hstep hlt
    have hle : s.successes ≤ s'.successes := Stack.successes_le hstep
    obtain ⟨nodes, o, hinv, hc⟩ := hs (by omega)
    obtain ⟨nodes', o', hinv'⟩ := hinv.step hstep hlt
    exact ⟨nodes', o', hinv', hc.step hinv hinv' hstep⟩

/-- With fewer than `2 ^ 64` successful compare-exchanges, in every run: the allocated nodes are
those in the chain from `head`, none twice, and those that a call owns, which no other call and no
chain has. So no node is lost, and a call that sets `next`, reads the data or deletes finds its node
allocated. `isEmpty` gives whether the chain is empty. -/
theorem nodes_accounted (h : Reach Stack.step Stack.init s) (hlt : s.successes < 2 ^ 64) :
    ∃ nodes, Chain s.heap s.head.ptr nodes ∧ (nodes.map Prod.fst).Nodup ∧
      (s.isEmpty = true ↔ nodes = []) ∧
      (∀ a, (∃ node, s.heap a = some node) ↔
        a ∈ nodes.map Prod.fst ∨ ∃ t, (s.pc t).owned = some a) ∧
      ∀ t a, (s.pc t).owned = some a →
        a ∉ nodes.map Prod.fst ∧ ∀ t', (s.pc t').owned = some a → t' = t := by
  obtain ⟨nodes, o, hinv, hc⟩ := covered_run h hlt
  refine ⟨nodes, hinv.chain, hinv.nodup, ?_, fun a => ⟨?_, ?_⟩, fun t a ha => ⟨?_, ?_⟩⟩
  · have hchain := hinv.chain
    unfold Stack.isEmpty
    cases hp : s.head.ptr with
    | none =>
      rw [hp] at hchain
      cases hchain
      simp
    | some a =>
      rw [hp] at hchain
      cases hchain
      simp
  · rintro ⟨node, ha⟩
    exact hc a node ha
  · rintro (ha | ⟨t, ha⟩)
    · exact hinv.chain.allocated ha
    · exact (hinv.ready t).allocated ha
  · exact hinv.apart t a ha
  · exact fun t' ha' => hinv.owner t' t a ha' ha

/-- A node in the chain, and one that a `pop` has taken out of it. -/
theorem nodes_accounted_popping : ∃ (s : Stack Nat Nat) (nodes : List (Nat × Nat)),
    Reach Stack.step Stack.init s ∧ s.pc 1 = .readData 1 ∧ Chain s.heap s.head.ptr nodes ∧
      ∀ a, (∃ node, s.heap a = some node) ↔
        a ∈ nodes.map Prod.fst ∨ ∃ t, (s.pc t).owned = some a := by
  obtain ⟨s, hrun, hlt, hpc⟩ : ∃ s : Stack Nat Nat, Reach Stack.step Stack.init s ∧
      (s.successes < 2 ^ 64 ∧ s.pc 1 = .readData 1) :=
    exists_of_exec (pushAt 0 5 0 ++ pushAt 0 6 1 ++
      [.callPop 1, .load 1, .readNext 1 none, .cas 1 false]) (by decide)
  obtain ⟨nodes, hchain, -, -, hallocated, -⟩ := nodes_accounted hrun hlt
  exact ⟨s, nodes, hrun, hpc, hchain, hallocated⟩

end

/-! ### The destructor -/

namespace Stack

/-- The last event since the trace was `begun`. -/
def since (begun : List (OpEvent (StackOp T) (Option T))) (s : Stack A T) :
    Option (OpEvent (StackOp T) (Option T)) := (s.trace.drop begun.length).getLast?

end Stack

/-- `while (pop());` calls `pop` again unless the last result is false. A `pop` that finds the stack
empty returns `T{}`, which is `empty`. -/
def goesOn (truthy : T → Bool) (empty : T) : Option (OpEvent (StackOp T) (Option T)) → Bool
  | some (.ret _ res) => truthy (res.getD empty)
  | _ => true

/-- A step of the destructor, which thread `t` runs. -/
def Destroys (truthy : T → Bool) (empty : T) (t : Nat)
    (begun : List (OpEvent (StackOp T) (Option T))) (s : Stack A T) (act : Act A T) : Prop :=
  act.thread = t ∧ act.isPush = false ∧
    (act.isCall = true → goesOn truthy empty (s.since begun) = true)

instance (truthy : T → Bool) (empty : T) (t : Nat)
    (begun : List (OpEvent (StackOp T) (Option T))) (s : Stack A T) (act : Act A T) :
    Decidable (Destroys truthy empty t begun s act) :=
  inferInstanceAs (Decidable (_ ∧ _ ∧ _))

/-- One of the values is false, or `T{}` is. -/
def Ends (truthy : T → Bool) (empty : T) (values : List T) : Prop :=
  (∃ v ∈ values, truthy v = false) ∨ truthy empty = false

/-- The loop has ended: the last `pop` has returned, and what it gave is false. -/
def Over (truthy : T → Bool) (empty : T) (t : Nat)
    (begun : List (OpEvent (StackOp T) (Option T))) (s : Stack A T) : Prop :=
  s.pc t = .idle ∧ goesOn truthy empty (s.since begun) = false

instance [DecidableEq A] [DecidableEq T] (truthy : T → Bool) (empty : T) (t : Nat)
    (begun : List (OpEvent (StackOp T) (Option T))) (s : Stack A T) :
    Decidable (Over truthy empty t begun s) :=
  inferInstanceAs (Decidable (_ ∧ _))

section Destructor

variable [DecidableEq A] {s s' : Stack A T} {act : Act A T}

/-- The event of a step, if there is one. -/
lemma Stack.trace_step (hstep : s.step act = some s') :
    (act.isCall = true ∧ ∃ op, s'.trace = s.trace ++ [.call act.thread op] ∧
      (act.isPush = false → op = .pop)) ∨
    act.isCall = false ∧ (s'.trace = s.trace ∨
      (∃ op res, s'.trace = s.trace ++ [.effect act.thread op res]) ∨
      ∃ res, s'.trace = s.trace ++ [.ret act.thread res]) := by
  have hpop : ∀ t, (s.popHead t).trace = s.trace ∨
      (s.popHead t).trace = s.trace ++ [.effect t .pop none] := by
    intro t
    unfold popHead
    split
    · exact .inr rfl
    · exact .inl rfl
  cases step_cases hstep with
  | callPush t value pc => exact .inl ⟨rfl, _, rfl, fun h => absurd h (by simp [Act.isPush])⟩
  | callPop t pc => exact .inl ⟨rfl, _, rfl, fun _ => rfl⟩
  | popLoad t pc => exact .inr ⟨rfl, (hpop t).imp_right fun h => .inl ⟨_, _, h⟩⟩
  | popFails t spurious a tag next pc =>
    exact .inr ⟨rfl, (hpop t).imp_right fun h => .inl ⟨_, _, h⟩⟩
  | pushes | pops => exact .inr ⟨rfl, .inr (.inl ⟨_, _, rfl⟩)⟩
  | pushRet | popRet => exact .inr ⟨rfl, .inr (.inr ⟨_, rfl⟩)⟩
  | _ => exact .inr ⟨rfl, .inl rfl⟩

/-- A step changes the place of its thread alone. -/
lemma Stack.pc_step (hstep : s.step act = some s') {t : Nat} (ht : t ≠ act.thread) :
    s'.pc t = s.pc t := by
  have hpop : ∀ t' , t ≠ t' → (s.popHead t').pc t = s.pc t := by
    intro t' ht
    unfold popHead
    split <;> exact Function.update_of_ne ht _ _
  cases step_cases hstep with
  | popLoad t' pc => exact hpop t' ht
  | popFails t' spurious a tag next pc => exact hpop t' ht
  | _ => exact Function.update_of_ne ht _ _

/-- What a result says of the values that were there and those that are left: all that was popped
before it is true. -/
def Told (truthy : T → Bool) (values left : List T) : Option T → Prop
  | none => left = [] ∧ ∀ v ∈ values, truthy v = true
  | some v => ∃ before, values = before ++ v :: left ∧ ∀ w ∈ before, truthy w = true

/-- A result that is false comes with what is below the first false value. -/
lemma Told.left_eq {truthy : T → Bool} {empty : T} {values left : List T} {res : Option T}
    (h : Told truthy values left res) (hfalse : truthy (res.getD empty) = false) :
    left = (values.dropWhile truthy).tail := by
  cases res with
  | none =>
    obtain ⟨rfl, htrue⟩ := h
    rw [List.dropWhile_eq_nil_iff.2 htrue]
    rfl
  | some v =>
    obtain ⟨before, rfl, htrue⟩ := h
    have hv : truthy v = false := hfalse
    rw [List.dropWhile_append_of_pos htrue, List.dropWhile_cons_of_neg (by simp [hv])]
    rfl

lemma Told.goes_on {truthy : T → Bool} {empty : T} {values left : List T} {res : Option T}
    (h : Told truthy values left res) (htrue : truthy (res.getD empty) = true) :
    ∃ before, values = before ++ left ∧ ∀ w ∈ before, truthy w = true := by
  cases res with
  | none => exact ⟨values, by rw [h.1, List.append_nil], h.2⟩
  | some v =>
    obtain ⟨before, rfl, hbefore⟩ := h
    refine ⟨before ++ [v], by simp, fun w hw => ?_⟩
    rcases List.mem_append.1 hw with hw | hw
    · exact hbefore w hw
    · obtain rfl := List.mem_singleton.1 hw
      exact htrue

/-- What the destructor has popped so far is true, all but the last result. -/
structure Draining (truthy : T → Bool) (t : Nat) (values : List T)
    (begun : List (OpEvent (StackOp T) (Option T))) (s : Stack A T)
    (o : Atomic (List T) (StackOp T) (Option T)) : Prop where
  others : ∀ t', t' ≠ t → s.pc t' = .idle
  begins : begun <+: s.trace
  idle : o.phase t = .idle → s.since begun = none ∧ o.obj = values ∨
    ∃ res, s.since begun = some (.ret t res) ∧ Told truthy values o.obj res
  called : ∀ op, o.phase t = .called op → op = .pop ∧
    ∃ before, values = before ++ o.obj ∧ ∀ w ∈ before, truthy w = true
  effected : ∀ res, o.phase t = .effected res → Told truthy values o.obj res

omit [DecidableEq A] in
lemma since_concat {begun : List (OpEvent (StackOp T) (Option T))}
    {ev : OpEvent (StackOp T) (Option T)} (hbegun : begun <+: s.trace)
    (htrace : s'.trace = s.trace ++ [ev]) : s'.since begun = some ev := by
  rw [Stack.since, htrace, List.drop_append_of_le_length hbegun.length_le, List.getLast?_concat]

variable [DecidableEq T] {nodes nodes' : List (A × T)}
  {o o' : Atomic (List T) (StackOp T) (Option T)} {truthy : T → Bool} {empty : T} {t : Nat}
  {values : List T} {begun : List (OpEvent (StackOp T) (Option T))}

/-- What a step does to the abstract stack. -/
lemma Inv.object_step (h : Inv s nodes o) (h' : Inv s' nodes' o') (hstep : s.step act = some s') :
    (act.isCall = true ∧ ∃ op, (act.isPush = false → op = .pop) ∧
      s'.trace = s.trace ++ [.call act.thread op] ∧ o.phase act.thread = .idle ∧
      o' = o.setPhase act.thread (.called op)) ∨
    act.isCall = false ∧ (s'.trace = s.trace ∧ o' = o ∨
      (∃ op, s'.trace = s.trace ++ [.effect act.thread op (lifo o.obj op).2] ∧
        o.phase act.thread = .called op ∧
        o' = { o with obj := (lifo o.obj op).1 }.setPhase act.thread
          (.effected (lifo o.obj op).2)) ∨
      ∃ res, s'.trace = s.trace ++ [.ret act.thread res] ∧ o.phase act.thread = .effected res ∧
        o' = o.setPhase act.thread .idle) := by
  have hevent : ∀ ev, s'.trace = s.trace ++ [ev] → o.step lifo ev = some o' := by
    intro ev htrace
    obtain ⟨r, hr, -, hlast⟩ := (htrace ▸ h'.steps).snoc_inv
    rwa [h.steps.det hr]
  rcases Stack.trace_step hstep with
    ⟨hcall, op, htrace, hop⟩ | ⟨hcall, htrace | ⟨op, res, htrace⟩ | ⟨res, htrace⟩⟩
  · have hlast := hevent _ htrace
    simp only [Atomic.step, Option.ite_none_right_eq_some, Option.some.injEq] at hlast
    exact .inl ⟨hcall, op, hop, htrace, hlast.1, hlast.2.symm⟩
  · exact .inr ⟨hcall, .inl ⟨htrace, h'.steps.det (htrace ▸ h.steps)⟩⟩
  · have hlast := hevent _ htrace
    simp only [Atomic.step, Option.ite_none_right_eq_some, Option.some.injEq] at hlast
    obtain ⟨⟨hphase, rfl⟩, ho⟩ := hlast
    exact .inr ⟨hcall, .inr (.inl ⟨op, htrace, hphase, ho.symm⟩)⟩
  · have hlast := hevent _ htrace
    simp only [Atomic.step, Option.ite_none_right_eq_some, Option.some.injEq] at hlast
    exact .inr ⟨hcall, .inr (.inr ⟨res, htrace, hlast.1, hlast.2.symm⟩)⟩

lemma Draining.step (hd : Draining truthy t values begun s o) (h : Inv s nodes o)
    (h' : Inv s' nodes' o') (hok : Destroys truthy empty t begun s act)
    (hstep : s.step act = some s') : Draining truthy t values begun s' o' := by
  obtain ⟨rfl, hpush, hgoes⟩ := hok
  have hothers : ∀ t', t' ≠ act.thread → s'.pc t' = .idle := fun t' ht' =>
    (Stack.pc_step hstep ht').trans (hd.others t' ht')
  have hbegins : ∀ ev, s'.trace = s.trace ++ [ev] → begun <+: s'.trace := by
    intro ev htrace
    rw [htrace]
    exact hd.begins.trans (List.prefix_append _ _)
  rcases h.object_step h' hstep with ⟨hcall, op, hop, htrace, hidle, rfl⟩ |
    ⟨-, ⟨htrace, rfl⟩ | ⟨op, htrace, hphase, rfl⟩ | ⟨res, htrace, hphase, rfl⟩⟩
  · refine ⟨hothers, hbegins _ htrace, by simp [Atomic.setPhase], ?_, by simp [Atomic.setPhase]⟩
    rintro op' hop'
    obtain rfl : op = op' := by simpa [Atomic.setPhase] using hop'
    refine ⟨hop hpush, ?_⟩
    rcases hd.idle hidle with ⟨-, hobj⟩ | ⟨res, hsince, htold⟩
    · exact ⟨[], by simp [hobj], by simp⟩
    · have htrue := hgoes hcall
      rw [hsince] at htrue
      exact htold.goes_on htrue
  · have hsince : s'.since begun = s.since begun := by rw [Stack.since, htrace, Stack.since]
    exact ⟨hothers, htrace ▸ hd.begins, hsince ▸ hd.idle, hd.called, hd.effected⟩
  · obtain ⟨rfl, before, hvalues, hbefore⟩ := hd.called op hphase
    refine ⟨hothers, hbegins _ htrace, by simp [Atomic.setPhase], by simp [Atomic.setPhase], ?_⟩
    intro res' hres'
    obtain rfl : (lifo o.obj .pop).2 = res' := by simpa [Atomic.setPhase] using hres'
    simp only [Atomic.setPhase]
    cases hobj : o.obj with
    | nil =>
      rw [hobj, List.append_nil] at hvalues
      exact ⟨rfl, hvalues ▸ hbefore⟩
    | cons v rest =>
      rw [hobj] at hvalues
      exact ⟨before, hvalues, hbefore⟩
  · refine ⟨hothers, hbegins _ htrace, fun _ => .inr ⟨res, ?_, ?_⟩, by simp [Atomic.setPhase],
      by simp [Atomic.setPhase]⟩
    · exact since_concat hd.begins htrace
    · exact hd.effected res hphase

/-- The calls that the destructor has before it at most, when it comes to an end. -/
def callsLeft (truthy : T → Bool) (empty : T) (t : Nat)
    (begun : List (OpEvent (StackOp T) (Option T))) (s : Stack A T)
    (o : Atomic (List T) (StackOp T) (Option T)) : Nat :=
  match o.phase t with
  | .idle => if goesOn truthy empty (s.since begun) then o.obj.length + 1 else 0
  | .called _ => o.obj.length
  | .effected res => if truthy (res.getD empty) then o.obj.length + 1 else 0

lemma Draining.callsLeft_step (hd : Draining truthy t values begun s o) (h : Inv s nodes o)
    (h' : Inv s' nodes' o') (hok : Destroys truthy empty t begun s act)
    (hstep : s.step act = some s')
    (hends : Ends truthy empty values) :
    callsLeft truthy empty t begun s' o' + (if act.isCall then 1 else 0) ≤
      callsLeft truthy empty t begun s o := by
  obtain ⟨rfl, -, hgoes⟩ := hok
  rcases h.object_step h' hstep with ⟨hcall, op, -, -, hidle, rfl⟩ |
    ⟨hcall, ⟨htrace, rfl⟩ | ⟨op, -, hphase, rfl⟩ | ⟨res, htrace, hphase, rfl⟩⟩
  · simp [callsLeft, hidle, hgoes hcall, hcall, Atomic.setPhase]
  · have hsince : s'.since begun = s.since begun := by rw [Stack.since, htrace, Stack.since]
    rw [callsLeft, hsince, hcall]
    exact le_rfl
  · obtain ⟨rfl, before, hvalues, hbefore⟩ := hd.called op hphase
    cases hobj : o.obj with
    | nil =>
      rw [hobj, List.append_nil] at hvalues
      have hempty : truthy empty = false := by
        refine hends.resolve_left ?_
        rintro ⟨v, hv, hfalse⟩
        rw [hbefore v (hvalues ▸ hv)] at hfalse
        cases hfalse
      simp [callsLeft, hcall, hphase, hobj, lifo, hempty, Atomic.setPhase]
    | cons v rest =>
      have hleft : callsLeft truthy empty act.thread begun s o = rest.length + 1 := by
        rw [callsLeft, hphase, hobj]
        rfl
      rw [hleft, hcall]
      simp only [callsLeft, lifo, Atomic.setPhase, Function.update_self]
      split <;> simp
  · have hsince := since_concat hd.begins htrace
    simp [callsLeft, hcall, hphase, hsince, goesOn, Atomic.setPhase]

/-- The loop that has not ended can go on. -/
lemma Draining.step_of_not_over (hd : Draining truthy t values begun s o) (h : Inv s nodes o)
    (hover : ¬Over truthy empty t begun s) : ∃ act s', Destroys truthy empty t begun s act ∧
      act.isSpurious = false ∧ s.step act = some s' := by
  by_cases hpc : s.pc t = .idle
  · have hgoes : goesOn truthy empty (s.since begun) = true := by
      rw [← Bool.not_eq_false]
      exact fun hends => hover ⟨hpc, hends⟩
    have hstep : s.step (.callPop t) = some ((s.record (.call t .pop)).setPc t .popLoad) := by
      simp [Stack.step, hpc]
    exact ⟨_, _, ⟨rfl, rfl, fun _ => hgoes⟩, rfl, hstep⟩
  · obtain ⟨act, hthread, hcall, hspurious, s', hstep⟩ := Stack.step_of_inside empty hpc <| by
      intro value halloc
      have hphase : o.phase t = .called (.push value) := by
        rw [h.phase, halloc]
        rfl
      exact absurd (hd.called _ hphase).1 (by simp)
    have hpush : act.isPush = false := by
      cases act <;> simp_all [Act.isCall, Act.isPush]
    exact ⟨act, s', ⟨hthread, hpush, fun hc => absurd (hcall.symm.trans hc) (by simp)⟩,
      hspurious, hstep⟩

omit [DecidableEq A] in
/-- When the loop has ended, the nodes still allocated are those below the first false value. -/
lemma Draining.left_of_over (hd : Draining truthy t values begun s o) (h : Inv s nodes o)
    (hc : Covered s nodes) (hover : Over truthy empty t begun s) :
    (nodes.map Prod.snd = (values.dropWhile truthy).tail ∧
      ∀ a, (∃ node, s.heap a = some node) ↔ a ∈ nodes.map Prod.fst) ∧
    Ends truthy empty values := by
  obtain ⟨hpc, hends⟩ := hover
  have hphase : o.phase t = .idle := by
    rw [h.phase, hpc]
    rfl
  obtain ⟨res, hsince, htold⟩ : ∃ res, s.since begun = some (.ret t res) ∧
      Told truthy values o.obj res := by
    refine (hd.idle hphase).resolve_left fun hnone => ?_
    rw [hnone.1] at hends
    cases hends
  have hfalse : truthy (res.getD empty) = false := by
    rw [hsince] at hends
    exact hends
  have hnobody : ∀ t' a, (s.pc t').owned ≠ some a := by
    intro t' a
    by_cases ht : t' = t
    · simp [ht, hpc, Pc.owned]
    · simp [hd.others t' ht, Pc.owned]
  refine ⟨⟨?_, fun a => ⟨?_, h.chain.allocated⟩⟩, ?_⟩
  · rw [← h.obj]
    exact htold.left_eq hfalse
  · rintro ⟨node, ha⟩
    refine (hc a node ha).resolve_right ?_
    rintro ⟨t', ht'⟩
    exact hnobody t' a ht'
  · cases res with
    | none => exact .inr hfalse
    | some v =>
      obtain ⟨before, rfl, -⟩ := htold
      exact .inl ⟨v, by simp, hfalse⟩

/-- What the destructor has popped, and its calls: at most one for each value and one more. -/
lemma draining_run {s₀ : Stack A T} (h₀ : Reach Stack.step Stack.init s₀)
    (hidle : ∀ t, s₀.pc t = .idle) {nodes₀ : List (A × T)}
    (hchain : Chain s₀.heap s₀.head.ptr nodes₀) {as : List (Act A T)}
    (h : Steps Stack.step (Destroys truthy empty t s₀.trace) s₀ as s)
    (hlt : s.successes < 2 ^ 64) :
    ∃ nodes o, (Inv s nodes o ∧ Covered s nodes) ∧
      Draining truthy t (nodes₀.map Prod.snd) s₀.trace s o ∧
      (Ends truthy empty (nodes₀.map Prod.snd) →
        as.countP Act.isCall + callsLeft truthy empty t s₀.trace s o ≤ nodes₀.length + 1) := by
  induction h with
  | nil =>
    obtain ⟨nodes, o, hinv, hc⟩ := covered_run h₀ hlt
    obtain rfl := hchain.unique hinv.chain
    have hphase : o.phase t = .idle := by
      rw [hinv.phase, hidle]
      rfl
    have hsince : s₀.since s₀.trace = none := by simp [Stack.since]
    refine ⟨nodes, o, ⟨hinv, hc⟩, ⟨fun t' _ => hidle t', List.prefix_rfl,
      fun _ => .inl ⟨hsince, hinv.obj⟩, by simp [hphase], by simp [hphase]⟩, fun _ => ?_⟩
    simp [callsLeft, hphase, hsince, goesOn, hinv.obj]
  | snoc run hok hstep ih =>
    have hle := Stack.successes_le hstep
    obtain ⟨nodes, o, ⟨hinv, hc⟩, hd, hcalls⟩ := ih (by omega)
    obtain ⟨nodes', o', hinv'⟩ := hinv.step hstep hlt
    refine ⟨nodes', o', ⟨hinv', hc.step hinv hinv' hstep⟩, hd.step hinv hinv' hok hstep,
      fun hends => ?_⟩
    have hbefore := hcalls hends
    have hafter := hd.callsLeft_step hinv hinv' hok hstep hends
    rw [List.countP_append, List.countP_singleton]
    omega

/-- The destructor of a stack that no thread uses any more, with fewer than `2 ^ 64` successful
compare-exchanges. If a value in the stack or `T{}` is false, the loop makes at most seven steps for
each value and seven more, and two for each compare-exchange that fails spuriously. Until it ends it
can go on. When it has ended, the nodes still allocated are those below the first false value, and
there is such a value unless `T{}` is false. -/
theorem destructor_leaves {s₀ : Stack A T} (h₀ : Reach Stack.step Stack.init s₀)
    (hidle : ∀ t, s₀.pc t = .idle) {nodes₀ : List (A × T)}
    (hchain : Chain s₀.heap s₀.head.ptr nodes₀) {as : List (Act A T)}
    (h : Steps Stack.step (Destroys truthy empty t s₀.trace) s₀ as s)
    (hlt : s.successes < 2 ^ 64) :
    (Ends truthy empty (nodes₀.map Prod.snd) →
      as.length ≤ 7 * (nodes₀.length + 1) + 2 * as.countP Act.isSpurious) ∧
    (¬Over truthy empty t s₀.trace s → ∃ act s', Destroys truthy empty t s₀.trace s act ∧
      act.isSpurious = false ∧ s.step act = some s') ∧
    (Over truthy empty t s₀.trace s →
      (∃ nodes : List (A × T), (nodes.map Prod.fst).Nodup ∧
        nodes.map Prod.snd = ((nodes₀.map Prod.snd).dropWhile truthy).tail ∧
        ∀ a, (∃ node, s.heap a = some node) ↔ a ∈ nodes.map Prod.fst) ∧
      Ends truthy empty (nodes₀.map Prod.snd)) := by
  obtain ⟨nodes, o, ⟨hinv, hc⟩, hd, hcalls⟩ := draining_run h₀ hidle hchain h hlt
  refine ⟨fun hends => ?_, hd.step_of_not_over hinv, fun hover => ?_⟩
  · have hlen := Stack.length_le_put {t} (h.mono fun _ _ hok => Finset.mem_singleton.2 hok.1)
    rw [Stack.put_of_idle fun t' _ => hidle t', Finset.card_singleton] at hlen
    have hfew := hcalls hends
    omega
  · obtain ⟨⟨hvalues, hallocated⟩, hends⟩ := hd.left_of_over hinv hc hover
    exact ⟨⟨nodes, hinv.nodup, hvalues, hallocated⟩, hends⟩

end Destructor

/-- `5`, `0` and `6` are pushed; the destructor stops at `0`, and the node of `5` stays. -/
theorem destructor_leaves_five : ∃ (s₀ s : Stack Nat Nat) (nodes : List (Nat × Nat)),
    Reach Stack.step Stack.init s₀ ∧ (popWhole 0 ++ popWhole 0 : List (Act Nat Nat)).length ≤ 28 ∧
      Over (fun v => v != 0) 0 0 s₀.trace s ∧ nodes.map Prod.snd = [5] ∧
      ∀ a, (∃ node, s.heap a = some node) ↔ a ∈ nodes.map Prod.fst := by
  obtain ⟨s₀, hrun₀, hpc₀, hhead, ⟨h2, h1, h0⟩, hexec⟩ : ∃ s₀ : Stack Nat Nat,
      Run Stack.step (fun _ act => act.thread = 0) Stack.init s₀ ∧
        (s₀.pc 0 = .idle ∧ s₀.head = ⟨some 2, 3⟩ ∧
          (s₀.heap 2 = some ⟨6, some 1⟩ ∧ s₀.heap 1 = some ⟨0, some 0⟩ ∧
            s₀.heap 0 = some ⟨5, none⟩) ∧
          (exec Stack.step (Destroys (fun v => v != 0) 0 0 s₀.trace) s₀
            (popWhole 0 ++ popWhole 0)).any (fun s => decide (s.successes < 2 ^ 64 ∧
              Over (fun v => v != 0) 0 0 s₀.trace s)) = true) :=
    exists_of_exec (pushAt 0 5 0 ++ pushAt 0 0 1 ++ pushAt 0 6 2) (by decide)
  have hidle : ∀ t, s₀.pc t = .idle := by
    intro t
    by_cases ht : t = 0
    · exact ht ▸ hpc₀
    · refine Run.invariant (P := fun s : Stack Nat Nat => s.pc t = .idle) hrun₀ rfl ?_
      intro s act s' hs hact hstep
      rw [Stack.pc_step hstep (hact ▸ ht), hs]
  have hchain : Chain s₀.heap s₀.head.ptr [(2, 6), (1, 0), (0, 5)] := by
    rw [hhead]
    exact .cons h2 (.cons h1 (.cons h0 .nil))
  have h₀ : Reach Stack.step Stack.init s₀ := hrun₀.mono fun _ _ _ => trivial
  obtain ⟨s, hrun, hlt, hover⟩ := steps_of_exec _ hexec
  obtain ⟨hbound, -, hleaves⟩ := destructor_leaves h₀ hidle hchain hrun hlt
  obtain ⟨⟨nodes, -, hvalues, hallocated⟩, -⟩ := hleaves hover
  exact ⟨s₀, s, nodes, h₀, hbound (.inr rfl), hover, hvalues, hallocated⟩

end TiPI.LockFreeStack
