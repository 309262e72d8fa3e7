import TiPI.DB.Routines
import TiPI.DB.Rest
import TiPI.Lib.Linearizable
import TiPI.Lib.Run

/-!
# Nodes in a cluster

An action of a node is one critical section of `Cond.L` or one other atomic piece of a
goroutine. A cluster delivers the packets its nodes send in any order, or never. `Event` records
what the properties of the cluster speak about.
-/

namespace TiPI.DB

variable {Ip : Type}

inductive Event (Ip : Type)
  | invoked (r : Request)
  /-- the entry is the one request number `id` has logged -/
  | answered (id : Nat) (resp : Response Ip) (logged : Option RaftLogEntry)
  /-- the call that logged the entry left its wait loop -/
  | leftLoop (logged : RaftLogEntry) (requiredLen : Nat)
  /-- `Election_co` raised the term to `term` -/
  | campaigned (term : Nat)
  /-- `HandleVoteRequest` answered `true` -/
  | granted (candidate : Ip) (term : Nat)
  /-- the election of `term` stored `MASTER` -/
  | becameMaster (term : Nat)
  deriving DecidableEq

/-- The entry of a call that has left its wait loop. -/
def Event.logged : Event Ip → Option RaftLogEntry
  | .answered _ _ logged => logged
  | .leftLoop logged _ => some logged
  | .invoked _ | .campaigned _ | .granted _ _ | .becameMaster _ => none

inductive NodeAct (Ip : Type)
  | request (method : Method) (key value : String) (rand : Nat)
  | kvsBegin (r : WriteRequest)
  | kvsWake (h : Handler)
  | mainLoop
  | consumerTimer
  | consumerDone
  | electionStart
  | electionStop
  | electionWin
  | producerTimer
  | producerDone
  | sessionSend (id : Nat)
  | sessionDone (id : Nat)
  | sessionTimer (id : Nat)
  | recv (src : Ip) (msg : Msg)
  deriving DecidableEq

/-- The vote request an action handles. -/
def NodeAct.voteRequest : NodeAct Ip → Option (Ip × VoteRequest)
  | .recv src (.vote c) => some (src, c)
  | _ => none

/-- What an action of a node leaves behind. -/
structure Effect (Ip : Type) where
  mw : MiddleWare Ip
  sent : List (Ip × Msg) := []
  events : List (Event Ip) := []

namespace MiddleWare

/-- A request of a client reaches the node. -/
def request (mw : MiddleWare Ip) (method : Method) (key value : String) (rand : Nat) :
    Effect Ip :=
  let r : Request := ⟨mw.nextRequest, method, key, value⟩
  let mw := { mw with nextRequest := mw.nextRequest + 1 }
  match mw.kvsArrive r rand with
  | .answered resp => { mw := mw, events := [.invoked r, .answered r.id resp none] }
  | .lock w => { mw := { mw with arrived := mw.arrived ++ [w] }, events := [.invoked r] }
  | .panicked => { mw := mw, events := [.invoked r] }

/-- The events of a critical section of `HandleKvs`. -/
def Section.events (id : Nat) : Section Ip → List (Event Ip)
  | .refused resp => [.answered id resp none]
  | .waits => []
  | .done h resp => [.leftLoop h.entry h.requiredLen, .answered id resp (some h.entry)]
  | .panicked => []

/-- The term of the election that is won. -/
def electionTerm (mw : MiddleWare Ip) : Nat :=
  match mw.routine with
  | .election term _ _ => term
  | _ => 0

variable [DecidableEq Ip]

def recv (mw : MiddleWare Ip) (src : Ip) : Msg → Option (Effect Ip)
  | .replicate session mean term e =>
    if mw.locked then none
    else
      let (mw, answer) := mw.handleReplicate src mean term e
      some { mw := mw, sent := answer.toList.map fun a => (src, .replicateRsp session a) }
  | .replicateRsp session a => (mw.sessionRsp src session a).map fun mw => { mw := mw }
  | .vote c =>
    if mw.locked then none
    else
      let (mw, a) := mw.handleVoteRequest src c
      some { mw := mw, sent := [(src, .voteRsp c.elTerm a)],
             events := if a.answer then [.granted src c.elTerm] else [] }
  | .voteRsp elTerm a => some { mw := mw.electionRsp src elTerm a }

/-- One action of a node. -/
def act (mw : MiddleWare Ip) (a : NodeAct Ip) : Option (Effect Ip) :=
  if !mw.running then none
  else
    match a with
    | .request method key value rand => some (mw.request method key value rand)
    | .kvsBegin r =>
      if mw.locked ∨ r ∉ mw.arrived then none
      else
        let (mw, sec) := mw.kvsBegin r
        some { mw := mw, events := sec.events r.id }
    | .kvsWake h =>
      if mw.locked ∨ h ∉ mw.waiting ∨ !h.notified then none
      else
        let (mw, sec) := mw.kvsWake h
        some { mw := mw, events := sec.events h.req.id }
    | .mainLoop => mw.mainLoop.map fun mw => { mw := mw }
    | .consumerTimer => mw.consumerTimer.map fun mw => { mw := mw }
    | .consumerDone => mw.consumerDone.map fun mw => { mw := mw }
    | .electionStart => mw.electionStart.map fun (mw, sent) =>
        { mw := mw, sent := sent, events := [.campaigned mw.term] }
    | .electionStop => mw.electionStop.map fun mw => { mw := mw }
    | .electionWin => mw.electionWin.map fun mw' =>
        { mw := mw', events := [.becameMaster mw.electionTerm] }
    | .producerTimer => mw.producerTimer.map fun mw => { mw := mw }
    | .producerDone => mw.producerDone.map fun mw => { mw := mw }
    | .sessionSend id => (mw.sessionSend id).map fun (mw, sent) => { mw := mw, sent := sent }
    | .sessionDone id => (mw.sessionDone id).map fun mw => { mw := mw }
    | .sessionTimer id => (mw.sessionTimer id).map fun mw => { mw := mw }
    | .recv src msg => mw.recv src msg

end MiddleWare

structure Packet (Ip : Type) where
  src : Ip
  dst : Ip
  msg : Msg
  deriving DecidableEq

structure Cluster (Ip : Type) where
  node : Ip → MiddleWare Ip
  net : List (Packet Ip)
  /-- the events so far, oldest first -/
  trace : List (Ip × Event Ip)

inductive Action (Ip : Type)
  | act (i : Ip) (a : NodeAct Ip)
  /-- the packet at place `k` of the network arrives -/
  | deliver (k : Nat)
  deriving DecidableEq

namespace Cluster

variable [DecidableEq Ip]

/-- Node `i` has acted: its packets are on the network and its events are recorded. -/
def after (s : Cluster Ip) (i : Ip) (e : Effect Ip) : Cluster Ip where
  node := Function.update s.node i e.mw
  net := s.net ++ e.sent.map fun (dst, msg) => ⟨i, dst, msg⟩
  trace := s.trace ++ e.events.map fun ev => (i, ev)

def step (s : Cluster Ip) : Action Ip → Option (Cluster Ip)
  | .act _ (.recv _ _) => none
  | .act i a => ((s.node i).act a).map (s.after i)
  | .deliver k =>
    match s.net[k]? with
    | none => none
    | some p =>
      ((s.node p.dst).act (.recv p.src p.msg)).map
        ({ s with net := s.net.eraseIdx k }.after p.dst)

/-- The action of a node that an action of the cluster performs. -/
def nodeAct (s : Cluster Ip) : Action Ip → Option (Ip × NodeAct Ip)
  | .act i a => some (i, a)
  | .deliver k => (s.net[k]?).map fun p => (p.dst, .recv p.src p.msg)

/-- A guard on the actions of nodes, as one on the actions of the cluster. -/
def Lift (ok : Cluster Ip → Ip → NodeAct Ip → Prop) (s : Cluster Ip) (a : Action Ip) : Prop :=
  match s.nodeAct a with
  | some (i, na) => ok s i na
  | none => True

instance (ok : Cluster Ip → Ip → NodeAct Ip → Prop) [∀ s i na, Decidable (ok s i na)]
    (s : Cluster Ip) (a : Action Ip) : Decidable (Lift ok s a) :=
  match h : s.nodeAct a with
  | some (i, na) => decidable_of_iff (ok s i na) (by simp [Lift, h])
  | none => .isTrue (by simp [Lift, h])

/-- Every step of the cluster is an action of one node. The packet it takes, if any, was on the
network, and the network keeps no packet it did not have. -/
lemma step_cases {s s' : Cluster Ip} {a : Action Ip} (h : s.step a = some s') :
    ∃ i na net e, s.nodeAct a = some (i, na) ∧ (s.node i).act na = some e ∧
      s' = { s with net := net }.after i e ∧ net ⊆ s.net ∧
      ∀ src msg, na = .recv src msg → ⟨src, i, msg⟩ ∈ s.net := by
  cases a with
  | act i na =>
    have hna : ∀ src msg, na ≠ .recv src msg := by
      rintro src msg rfl
      simp [step] at h
    have hstep : ((s.node i).act na).map (s.after i) = some s' := by
      cases na <;> first | exact h | exact absurd rfl (hna _ _)
    obtain ⟨e, he, rfl⟩ := Option.map_eq_some_iff.mp hstep
    exact ⟨i, na, s.net, e, rfl, he, rfl, List.Subset.refl _,
      fun src msg heq => absurd heq (hna src msg)⟩
  | deliver k =>
    simp only [step] at h
    cases hk : s.net[k]? with
    | none => simp [hk] at h
    | some p =>
      simp only [hk] at h
      obtain ⟨e, he, rfl⟩ := Option.map_eq_some_iff.mp h
      refine ⟨p.dst, .recv p.src p.msg, s.net.eraseIdx k, e, ?_, he, rfl,
        List.eraseIdx_subset, ?_⟩
      · simp [nodeAct, hk]
      · rintro src msg heq
        obtain ⟨rfl, rfl⟩ := NodeAct.recv.inj heq
        exact List.mem_of_getElem? hk

/-- What an invariant of guarded runs has to survive: the actions of nodes. -/
lemma invariant {ok : Cluster Ip → Ip → NodeAct Ip → Prop} {P : Cluster Ip → Prop}
    {s s' : Cluster Ip} (h : Run step (Lift ok) s s') (hs : P s)
    (hact : ∀ (s : Cluster Ip) (i : Ip) (na : NodeAct Ip) (net : List (Packet Ip))
      (e : Effect Ip), P s → ok s i na → (s.node i).act na = some e → net ⊆ s.net →
      (∀ src msg, na = .recv src msg → ⟨src, i, msg⟩ ∈ s.net) →
      P ({ s with net := net }.after i e)) : P s' := by
  refine Run.invariant h hs ?_
  intro s a s' hP hok hstep
  obtain ⟨i, na, net, e, hna, he, rfl, hnet, hrecv⟩ := step_cases hstep
  have hguard : ok s i na := by simpa [Lift, hna] using hok
  exact hact s i na net e hP hguard he hnet hrecv

@[simp] lemma after_node_self (s : Cluster Ip) (i : Ip) (e : Effect Ip) :
    (s.after i e).node i = e.mw := by simp [after]

lemma after_node_ne (s : Cluster Ip) {i j : Ip} (e : Effect Ip) (h : j ≠ i) :
    (s.after i e).node j = s.node j := by simp [after, h]

@[simp] lemma mem_after_trace {s : Cluster Ip} {i j : Ip} {e : Effect Ip} {ev : Event Ip} :
    (j, ev) ∈ (s.after i e).trace ↔ (j, ev) ∈ s.trace ∨ (j = i ∧ ev ∈ e.events) := by
  simp only [after, List.mem_append, List.mem_map, Prod.mk.injEq]
  constructor
  · rintro (h | ⟨ev', hev, rfl, rfl⟩)
    · exact Or.inl h
    · exact Or.inr ⟨rfl, hev⟩
  · rintro (h | ⟨rfl, hev⟩)
    · exact Or.inl h
    · exact Or.inr ⟨ev, hev, rfl, rfl⟩

@[simp] lemma mem_after_net {s : Cluster Ip} {i : Ip} {e : Effect Ip} {p : Packet Ip} :
    p ∈ (s.after i e).net ↔ p ∈ s.net ∨ (p.src = i ∧ (p.dst, p.msg) ∈ e.sent) := by
  simp only [after, List.mem_append, List.mem_map, Prod.exists]
  constructor
  · rintro (h | ⟨dst, msg, hsent, rfl⟩)
    · exact Or.inl h
    · exact Or.inr ⟨rfl, hsent⟩
  · rintro (h | ⟨rfl, hsent⟩)
    · exact Or.inl h
    · exact Or.inr ⟨p.dst, p.msg, hsent, rfl⟩

/-- Event `a` is recorded before event `b`. -/
def Before (s : Cluster Ip) (a b : Ip × Event Ip) : Prop := [a, b].Sublist s.trace

instance (s : Cluster Ip) (a b : Ip × Event Ip) : Decidable (s.Before a b) :=
  inferInstanceAs (Decidable ([a, b].Sublist s.trace))

lemma before_after {s : Cluster Ip} {i : Ip} {e : Effect Ip} {a b : Ip × Event Ip}
    (h : (s.after i e).Before a b) :
    s.Before a b ∨ (a ∈ s.trace ∧ b.1 = i ∧ b.2 ∈ e.events) ∨
      (a.2 ∈ e.events ∧ b.2 ∈ e.events) := by
  have hmem : ∀ x ∈ e.events.map fun ev => (i, ev), x.1 = i ∧ x.2 ∈ e.events := by
    intro x hx
    obtain ⟨ev, hev, rfl⟩ := List.mem_map.mp hx
    exact ⟨rfl, hev⟩
  rcases pair_sublist_append h with hold | ⟨ha, hb⟩ | hnew
  · exact Or.inl hold
  · exact Or.inr (Or.inl ⟨ha, hmem b hb⟩)
  · exact Or.inr (Or.inr ⟨(hmem a (hnew.subset (by simp))).2, (hmem b (hnew.subset (by simp))).2⟩)

/-- The peers of a node in a cluster of `n + 1` nodes. -/
def others (n : Nat) (i : Fin (n + 1)) : List (Fin (n + 1)) :=
  (List.finRange (n + 1)).filter (· ≠ i)

/-- A cluster of `n + 1` nodes, each with the others as its peers. -/
def init (n : Nat) : Cluster (Fin (n + 1)) where
  node := fun i => .init i (others n i)
  net := []
  trace := []

end Cluster

end TiPI.DB
