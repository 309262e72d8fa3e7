import TiPI.DB.Ballots

/-!
# Elections beside the peer handlers

`HandleVoteRequest` and `HandleReplicate` hold `Cond.L`, but `Election_co` raises `Term` and the
timers store `State` without it. Here the two handlers are cut where they load and store `Term` and
`State`; between two of their accesses anything may happen that takes no lock. `AddUint64` wraps.

A node supports one candidate a term as long as `Term` does not wrap, a handler stores `Term` over
the value that it has loaded, and the peer the node voted for in an earlier term does not ask again
in a term in which the node stands itself: an election leaves `VotedFor` alone.
-/

namespace TiPI.DB

variable {Ip : Type}

/-- A decoded body of `HandleReplicate`. -/
structure ReplicateRequest where
  mean : Mean
  term : Nat
  entry : RaftLogEntry

/-- The next access of `HandleReplicate`. -/
inductive ReplicatePc
  | loadState
  /-- the comparison of a master, and that of a candidate -/
  | compareMaster
  | compareCondidate
  /-- the stores of one that gives way -/
  | giveWay
  /-- the first comparison of a slave, its store, and the second comparison -/
  | compareLess
  | raise
  | compareGreater
  | serve
  deriving DecidableEq

/-- The handler that has `Cond.L`. -/
inductive PeerHandler (Ip : Type)
  /-- `HandleVoteRequest` with its local variables `Term`, `logTerm` and `logLen` -/
  | vote (src : Ip) (c : VoteRequest) (term logTerm logLen : Nat)
  | replicate (src : Ip) (m : ReplicateRequest) (pc : ReplicatePc)

/-- An action that takes `Cond.L`. -/
def NodeAct.locks : NodeAct Ip → Bool
  | .kvsBegin _ | .kvsWake _ | .electionWin | .sessionSend _ | .recv _ (.replicate _ _ _ _)
  | .recv _ (.replicateRsp _ _) | .recv _ (.vote _) => true
  | .request _ _ _ _ | .mainLoop | .consumerTimer | .consumerDone | .electionStart | .electionStop
  | .producerTimer | .producerDone | .sessionDone _ | .sessionTimer _ | .recv _ (.voteRsp _ _) =>
    false

/-- The requests that are cut into their accesses here. -/
def NodeAct.cut : NodeAct Ip → Bool
  | .electionStart | .recv _ (.replicate _ _ _ _) | .recv _ (.vote _) => true
  | _ => false

/-- The next step beside the handlers, a request that gets the lock, or the next access of the
handler that has it. -/
inductive RaceAct (Ip : Type)
  | act (na : NodeAct Ip)
  | electionStart
  | vote (src : Ip) (c : VoteRequest)
  | replicate (src : Ip) (m : ReplicateRequest)
  | access

/-- The number of values of a `uint64`. -/
def uint64Size : Nat := 2 ^ 64

/-- `atomic.AddUint64(&mw.Term, 1)`. -/
def addUint64 (term : Nat) : Nat := (term + 1) % uint64Size

namespace VoteRequest

def logOk (c : VoteRequest) (logTerm logLen : Nat) : Bool :=
  c.logTerm > logTerm || (c.logTerm = logTerm && c.logLen ≥ logLen)

def termOk [DecidableEq Ip] (c : VoteRequest) (src : Ip) (term : Nat) (votedFor : Option Ip) :
    Bool :=
  c.elTerm > term || (c.elTerm = term && votedFor = some src)

end VoteRequest

structure Racing (Ip : Type) extends Solo Ip where
  handler : Option (PeerHandler Ip)

namespace Racing

def start (mw : MiddleWare Ip) : Racing Ip := ⟨.start mw, none⟩

/-- The handler with the lock is at `h`. -/
def hold (s : Racing Ip) (h : PeerHandler Ip) : Racing Ip := { s with handler := some h }

def release (s : Racing Ip) : Racing Ip := { s with handler := none }

/-- `Election_co` up to its loop. -/
def electionStart (s : Racing Ip) : Option (Racing Ip) :=
  match s.mw.routine with
  | .electionStart cancelled =>
    let term := addUint64 s.mw.term
    some { s with
      mw := { s.mw with term := term, routine := .election term [s.mw.selfIp] cancelled }
      trace := s.trace ++ [.campaigned term] }
  | _ => none

/-- The stores of `HandleVoteRequest`, which has compared what it had loaded. -/
def storeVote [DecidableEq Ip] (s : Racing Ip) (src : Ip) (c : VoteRequest)
    (term logTerm logLen : Nat) : Racing Ip :=
  if c.termOk src term s.mw.votedFor && c.logOk logTerm logLen then
    { mw := { s.mw with
        term := c.elTerm, state := .SLAVE, votedFor := some src, leaderIP := src }.coDone
      trace := s.trace ++ [.granted src c.elTerm]
      handler := none }
  else s.release

/-- An access of `HandleReplicate`. -/
def accessReplicate (s : Racing Ip) (src : Ip) (m : ReplicateRequest) : ReplicatePc → Racing Ip
  | .loadState =>
    match s.mw.state with
    | .MASTER => s.hold (.replicate src m .compareMaster)
    | .CONDIDATE => s.hold (.replicate src m .compareCondidate)
    | .SLAVE => s.hold (.replicate src m .compareLess)
  | .compareMaster =>
    if s.mw.term ≥ m.term then s.release
    else s.hold (.replicate src m .compareCondidate)
  | .compareCondidate =>
    if s.mw.term ≤ m.term then s.hold (.replicate src m .giveWay)
    else s.release
  | .giveWay => { s with mw := s.mw.giveWay src m.term, handler := none }
  | .compareLess =>
    if s.mw.term < m.term then s.hold (.replicate src m .raise)
    else s.hold (.replicate src m .compareGreater)
  | .raise =>
    { s with
      mw := { s.mw with term := m.term }, handler := some (.replicate src m .compareGreater) }
  | .compareGreater =>
    if s.mw.term > m.term then s.release
    else s.hold (.replicate src m .serve)
  | .serve => { s with mw := (s.mw.replicateSlave m.mean m.entry).1, handler := none }

variable [DecidableEq Ip]

def step (s : Racing Ip) (a : RaceAct Ip) : Option (Racing Ip) :=
  if !s.mw.running then none
  else
    match a with
    | .act na =>
      if na.cut ∨ na.locks ∧ s.handler.isSome then none
      else (s.toSolo.step na).map fun solo => { s with toSolo := solo }
    | .electionStart => s.electionStart
    | .vote src c =>
      if s.mw.locked ∨ s.handler.isSome ∨ uint64Size ≤ c.elTerm then none
      else
        some (s.hold
          (.vote src c s.mw.term s.mw.raftLog.lastOp.term s.mw.raftLog.lenCommited))
    | .replicate src m =>
      if s.mw.locked ∨ s.handler.isSome ∨ uint64Size ≤ m.term then none
      else some (s.hold (.replicate src m .loadState))
    | .access =>
      match s.handler with
      | none => none
      | some (.vote src c term logTerm logLen) => some (s.storeVote src c term logTerm logLen)
      | some (.replicate src m pc) => some (s.accessReplicate src m pc)

/-! ### A handler that nothing disturbs -/

section

variable {s : Racing Ip} {src : Ip}

lemma reach_vote (src : Ip) {c : VoteRequest} (hrunning : s.mw.running = true)
    (hlocked : s.mw.locked = false)
    (hfree : s.handler = none) (hterm : c.elTerm < uint64Size) :
    Reach step s
      (s.storeVote src c s.mw.term s.mw.raftLog.lastOp.term s.mw.raftLog.lenCommited) := by
  have hload : s.step (.vote src c) = some (s.hold
      (.vote src c s.mw.term s.mw.raftLog.lastOp.term s.mw.raftLog.lenCommited)) := by
    simp [step, hrunning, hlocked, hfree, not_le.2 hterm]
  refine (Relation.ReflTransGen.single ⟨_, trivial, hload⟩).tail ⟨.access, trivial, ?_⟩
  simp [step, hold, hrunning, storeVote, release]

lemma reach_replicate (src : Ip) {m : ReplicateRequest} (hrunning : s.mw.running = true)
    (hlocked : s.mw.locked = false) (hfree : s.handler = none) (hterm : m.term < uint64Size) :
    Reach step s (s.hold (.replicate src m .loadState)) := by
  refine .single ⟨.replicate src m, trivial, ?_⟩
  simp [step, hrunning, hlocked, hfree, not_le.2 hterm]

omit [DecidableEq Ip] in
/-- Each access hands over to the next one. -/
lemma hold_accessReplicate (s : Racing Ip) (h : PeerHandler Ip) (m : ReplicateRequest)
    (pc : ReplicatePc) : (s.hold h).accessReplicate src m pc = s.accessReplicate src m pc := by
  cases pc <;> rfl

lemma reach_access {m : ReplicateRequest} (pc : ReplicatePc) (hrunning : s.mw.running = true) :
    Reach step (s.hold (.replicate src m pc)) (s.accessReplicate src m pc) := by
  refine .single ⟨.access, trivial, ?_⟩
  have hstep : (s.hold (.replicate src m pc)).step .access =
      some ((s.hold (.replicate src m pc)).accessReplicate src m pc) := by
    simp [step, hold, hrunning]
  rw [hstep, hold_accessReplicate]

/-- A slave behind its store. -/
lemma reach_greater {m : ReplicateRequest} (hrunning : s.mw.running = true) :
    Reach step (s.hold (.replicate src m .compareGreater))
      ⟨⟨(if s.mw.term > m.term then (s.mw, some MiddleWare.rejected)
        else s.mw.replicateSlave m.mean m.entry).1, s.trace⟩, none⟩ := by
  refine (reach_access .compareGreater hrunning).trans ?_
  unfold accessReplicate
  dsimp only
  split
  · exact .refl
  · exact reach_access .serve hrunning

/-- A vote request that is handled in one go is a step of `Solo`. -/
lemma vote_undisturbed {c : VoteRequest} {solo : Solo Ip} (hfree : s.handler = none)
    (helTerm : c.elTerm < uint64Size) (hstep : s.toSolo.step (.recv src (.vote c)) = some solo) :
    Reach step s ⟨solo, none⟩ := by
  obtain ⟨e, hact, rfl⟩ := Solo.step_inv hstep
  have hrunning := MiddleWare.act_running hact
  have hlog : c.logOk s.mw.raftLog.lastOp.term s.mw.raftLog.lenCommited = s.mw.logOk c := rfl
  have hterm : c.termOk src s.mw.term s.mw.votedFor = s.mw.termOk src c := rfl
  cases MiddleWare.act_cases hact with
  | vote _ _ unlocked =>
    convert reach_vote src hrunning unlocked hfree helTerm using 1
    simp only [storeVote, hlog, hterm, MiddleWare.handleVoteRequest]
    split <;> simp [release]

/-- So is a replication request. -/
lemma replicate_undisturbed {m : ReplicateRequest} {session : Nat} {solo : Solo Ip}
    (hfree : s.handler = none) (hterm : m.term < uint64Size)
    (hstep : s.toSolo.step (.recv src (.replicate session m.mean m.term m.entry)) = some solo) :
    Reach step s ⟨solo, none⟩ := by
  obtain ⟨e, hact, rfl⟩ := Solo.step_inv hstep
  have hrunning := MiddleWare.act_running hact
  cases MiddleWare.act_cases hact with
  | replicate _ _ _ _ _ unlocked =>
    refine (reach_replicate src hrunning unlocked hfree hterm).trans ?_
    refine (reach_access .loadState hrunning).trans ?_
    unfold accessReplicate MiddleWare.handleReplicate
    simp only [List.append_nil]
    cases hstate : s.mw.state with
    | MASTER =>
      refine (reach_access .compareMaster hrunning).trans ?_
      unfold accessReplicate
      dsimp only
      split
      · exact .refl
      · next hlt =>
        refine (reach_access .compareCondidate hrunning).trans ?_
        unfold accessReplicate
        dsimp only
        rw [if_pos (not_le.1 hlt).le]
        exact reach_access .giveWay hrunning
    | CONDIDATE =>
      refine (reach_access .compareCondidate hrunning).trans ?_
      unfold accessReplicate
      dsimp only
      split
      · exact reach_access .giveWay hrunning
      · exact .refl
    | SLAVE =>
      refine (reach_access .compareLess hrunning).trans ?_
      unfold accessReplicate
      dsimp only
      unfold MiddleWare.raiseTerm
      split
      · refine (reach_access .raise hrunning).trans ?_
        exact reach_greater (s := { s with mw := { s.mw with term := m.term } }) hrunning
      · exact reach_greater hrunning

end

end Racing

/-! ### The candidates a node supports -/

namespace Solo

/-- The node has answered `true` to candidate `c` in term `t`, or it is the candidate. -/
def Supports (s : Solo Ip) (c : Ip) (t : Nat) : Prop :=
  .granted c t ∈ s.trace ∨ (c = s.mw.selfIp ∧ .campaigned t ∈ s.trace)

def SingleSupport (s : Solo Ip) : Prop :=
  ∀ t c c', s.Supports c t → s.Supports c' t → c = c'

structure SupportInv (s : Solo Ip) : Prop where
  single : s.SingleSupport
  bound : ∀ c t, s.Supports c t → t ≤ s.mw.term
  voted : ∀ c, .granted c s.mw.term ∈ s.trace → s.mw.votedFor = some c

lemma supportInv_start (selfIp : Ip) (otherIp : List Ip) :
    SupportInv (start (.init selfIp otherIp)) where
  single := by simp [SingleSupport, Supports, start]
  bound := by simp [Supports, start]
  voted := by simp [start]

variable {s : Solo Ip} {mw : MiddleWare Ip} {evs : List (Event Ip)}

lemma supports_append (hself : mw.selfIp = s.mw.selfIp) {c : Ip} {t : Nat} :
    (⟨mw, s.trace ++ evs⟩ : Solo Ip).Supports c t ↔
      s.Supports c t ∨ .granted c t ∈ evs ∨ (c = s.mw.selfIp ∧ .campaigned t ∈ evs) := by
  simp only [Supports, hself, List.mem_append]
  tauto

/-- A step that supports nobody. -/
lemma SupportInv.quiet (h : SupportInv s) (hself : mw.selfIp = s.mw.selfIp)
    (hterm : s.mw.term ≤ mw.term) (hvoted : mw.votedFor = s.mw.votedFor)
    (hgranted : ∀ c t, .granted c t ∉ evs) (hcamp : ∀ t, .campaigned t ∉ evs) :
    SupportInv ⟨mw, s.trace ++ evs⟩ := by
  have hsame {c : Ip} {t : Nat} :
      (⟨mw, s.trace ++ evs⟩ : Solo Ip).Supports c t ↔ s.Supports c t := by
    rw [supports_append hself]
    simp [hgranted, hcamp]
  refine ⟨fun t c c' hc hc' => h.single t c c' (hsame.1 hc) (hsame.1 hc'),
    fun c t hc => (h.bound c t (hsame.1 hc)).trans hterm, fun c hc => ?_⟩
  have hold : .granted c mw.term ∈ s.trace := by simpa [hgranted] using hc
  have hle := h.bound c _ (.inl hold)
  rw [hvoted]
  exact h.voted c (by rwa [← le_antisymm hle hterm])

/-- A step that adds the support of `c` in `t`, which `add` says. -/
lemma SupportInv.add {c : Ip} {t : Nat} (h : SupportInv s) (hself : mw.selfIp = s.mw.selfIp)
    (hadd : ∀ c' t', (.granted c' t' ∈ evs ∨ (c' = s.mw.selfIp ∧ .campaigned t' ∈ evs)) ↔
      c' = c ∧ t' = t) (hterm : mw.term = t) (hle : s.mw.term ≤ t)
    (hfirst : ∀ c', s.Supports c' t → c' = c)
    (hvoted : ∀ c', .granted c' t ∈ s.trace ++ evs → mw.votedFor = some c') :
    SupportInv ⟨mw, s.trace ++ evs⟩ := by
  have hsupports {c' : Ip} {t' : Nat} : (⟨mw, s.trace ++ evs⟩ : Solo Ip).Supports c' t' ↔
      s.Supports c' t' ∨ (c' = c ∧ t' = t) := by
    rw [supports_append hself, hadd]
  refine ⟨?_, ?_, by rwa [hterm]⟩
  · intro t' c₁ c₂ h₁ h₂
    rcases hsupports.1 h₁ with h₁ | ⟨rfl, rfl⟩ <;> rcases hsupports.1 h₂ with h₂ | ⟨rfl, ht⟩
    · exact h.single t' c₁ c₂ h₁ h₂
    · exact hfirst c₁ (ht ▸ h₁)
    · exact (hfirst c₂ h₂).symm
    · rfl
  · intro c' t' hc
    rcases hsupports.1 hc with hold | ⟨-, rfl⟩
    · exact ((h.bound c' t' hold).trans hle).trans hterm.ge
    · exact hterm.ge

end Solo

namespace Racing

variable [DecidableEq Ip]

/-- The vote that the handler is about to store, by what it has loaded. -/
def grant (s : Racing Ip) : RaceAct Ip → Option (Ip × VoteRequest)
  | .access =>
    match s.handler with
    | some (.vote src c term logTerm logLen) =>
      if c.termOk src term s.mw.votedFor && c.logOk logTerm logLen then some (src, c) else none
    | _ => none
  | _ => none

omit [DecidableEq Ip] in
/-- The term of a replication request that the handler is about to store. -/
def raises (s : Racing Ip) : RaceAct Ip → Option Nat
  | .access =>
    match s.handler with
    | some (.replicate _ m .giveWay) => some m.term
    | some (.replicate _ m .raise) => some m.term
    | _ => none
  | _ => none

/-- What a handler has compared still holds of `Term` when it stores. -/
structure Settled (s : Racing Ip) (a : RaceAct Ip) : Prop where
  vote : ∀ p ∈ s.grant a, p.2.termOk p.1 s.mw.term s.mw.votedFor = true
  replicate : ∀ t ∈ s.raises a, s.mw.term ≤ t

instance (s : Racing Ip) (a : RaceAct Ip) : Decidable (s.Settled a) :=
  decidable_of_iff ((∀ p ∈ s.grant a, p.2.termOk p.1 s.mw.term s.mw.votedFor = true) ∧
    ∀ t ∈ s.raises a, s.mw.term ≤ t) ⟨fun h => ⟨h.1, h.2⟩, fun h => ⟨h.1, h.2⟩⟩

omit [DecidableEq Ip] in
/-- `Term` does not go back to `0`. -/
def NoWrap (s : Racing Ip) : RaceAct Ip → Prop
  | .electionStart => s.mw.term + 1 < uint64Size
  | _ => True

instance (s : Racing Ip) (a : RaceAct Ip) : Decidable (s.NoWrap a) := by
  cases a <;> unfold NoWrap <;> infer_instance

/-- The peer the node voted for last does not get a vote in a term in which the node has stood
itself. -/
def NoStaleVote (s : Racing Ip) (a : RaceAct Ip) : Prop :=
  ∀ p ∈ s.grant a, s.mw.votedFor = some p.1 → p.1 ≠ s.mw.selfIp → p.2.elTerm = s.mw.term →
    .campaigned s.mw.term ∉ s.trace

instance (s : Racing Ip) (a : RaceAct Ip) : Decidable (s.NoStaleVote a) :=
  inferInstanceAs (Decidable (∀ p ∈ s.grant a, _))

/-! ### One step -/

/-- The ways a step can touch the node's term, its vote and the history. -/
inductive BallotStep (s : Racing Ip) (a : RaceAct Ip) (s' : Racing Ip) : Prop
  | quiet (self : s'.mw.selfIp = s.mw.selfIp)
      (term : s.mw.term ≤ s'.mw.term ∨ ∃ t ∈ s.raises a, s'.mw.term = t)
      (voted : s'.mw.votedFor = s.mw.votedFor) (evs : List (Event Ip))
      (trace : s'.trace = s.trace ++ evs)
      (events : ∀ t c, .granted c t ∉ evs ∧ .campaigned t ∉ evs) (grant : s.grant a = none)
  | start (act : a = .electionStart) (self : s'.mw.selfIp = s.mw.selfIp)
      (term : s'.mw.term = addUint64 s.mw.term) (voted : s'.mw.votedFor = s.mw.votedFor)
      (trace : s'.trace = s.trace ++ [.campaigned (addUint64 s.mw.term)])
  | grant (src : Ip) (c : VoteRequest) (grant : s.grant a = some (src, c))
      (self : s'.mw.selfIp = s.mw.selfIp) (term : s'.mw.term = c.elTerm)
      (voted : s'.mw.votedFor = some src) (trace : s'.trace = s.trace ++ [.granted src c.elTerm])

lemma act_quiet {mw : MiddleWare Ip} {na : NodeAct Ip} {e : Effect Ip} (hcut : na.cut = false)
    (hact : mw.act na = some e) :
    mw.term ≤ e.mw.term ∧ e.mw.votedFor = mw.votedFor ∧
      ∀ t c, .granted c t ∉ e.events ∧ .campaigned t ∉ e.events := by
  cases MiddleWare.act_ballot hact with
  | quiet term voted _ events =>
    exact ⟨term, voted, fun t c => ⟨MiddleWare.not_mem_of_quiet rfl events,
      MiddleWare.not_mem_of_quiet rfl events⟩⟩
  | start _ _ _ _ _ act => simp [act, NodeAct.cut] at hcut
  | grant _ _ recv => simp [recv, NodeAct.cut] at hcut
  | count _ _ _ _ _ _ _ _ term voted events => exact ⟨term.ge, voted, by simp [events]⟩
  | win _ _ _ _ _ term voted events => exact ⟨term.ge, voted, by simp [events]⟩

lemma storeVote_ballot {s : Racing Ip} {src : Ip} {c : VoteRequest} {term logTerm logLen : Nat}
    (hhandler : s.handler = some (.vote src c term logTerm logLen)) :
    BallotStep s .access (s.storeVote src c term logTerm logLen) := by
  unfold storeVote
  split
  · next hgrant =>
    refine .grant src c ?_ rfl rfl rfl rfl
    simp only [grant, hhandler, hgrant, if_true]
  · next hrefuse =>
    refine .quiet rfl (.inl (le_refl _)) rfl [] (List.append_nil _).symm (by simp) ?_
    simp only [grant, hhandler, if_neg hrefuse]

lemma accessReplicate_ballot {s : Racing Ip} {src : Ip} {m : ReplicateRequest} {pc : ReplicatePc}
    (hhandler : s.handler = some (.replicate src m pc)) :
    BallotStep s .access (s.accessReplicate src m pc) := by
  have hgrant : s.grant .access = none := by simp only [grant, hhandler]
  have hquiet {s' : Racing Ip} (htrace : s'.trace = s.trace)
      (hself : s'.mw.selfIp = s.mw.selfIp) (hvoted : s'.mw.votedFor = s.mw.votedFor)
      (hterm : s.mw.term ≤ s'.mw.term ∨ ∃ t ∈ s.raises .access, s'.mw.term = t) :
      BallotStep s .access s' :=
    .quiet hself hterm hvoted [] (by simp [htrace]) (by simp) hgrant
  cases pc with
  | loadState =>
    unfold accessReplicate
    dsimp only
    cases s.mw.state <;> exact hquiet rfl rfl rfl (.inl (le_refl _))
  | compareMaster | compareCondidate | compareLess | compareGreater =>
    unfold accessReplicate
    dsimp only
    split <;> exact hquiet rfl rfl rfl (.inl (le_refl _))
  | giveWay | raise => exact hquiet rfl rfl rfl (.inr ⟨m.term, by simp [raises, hhandler], rfl⟩)
  | serve =>
    obtain ⟨raftLog, kvs, running, hframe⟩ := MiddleWare.replicateSlave_frame s.mw m.mean m.entry
    refine hquiet rfl ?_ ?_ (.inl ?_)
    all_goals simp [accessReplicate, hframe]

lemma step_ballot {s s' : Racing Ip} {a : RaceAct Ip} (hstep : s.step a = some s') :
    BallotStep s a s' := by
  unfold step at hstep
  split at hstep
  · simp at hstep
  · cases a with
    | act na =>
      simp only [Option.ite_none_left_eq_some, Option.map_eq_some_iff] at hstep
      obtain ⟨hfree, solo, hsolo, rfl⟩ := hstep
      obtain ⟨e, hact, rfl⟩ := Solo.step_inv hsolo
      obtain ⟨hterm, hvoted, hevents⟩ := act_quiet (by simpa using not_or.1 hfree |>.1) hact
      exact .quiet (MiddleWare.act_ids hact).1 (.inl hterm) hvoted e.events rfl hevents rfl
    | electionStart =>
      simp only [electionStart] at hstep
      split at hstep
      · cases hstep
        exact .start rfl rfl rfl rfl rfl
      · simp at hstep
    | vote src c =>
      simp only [Option.ite_none_left_eq_some, Option.some.injEq] at hstep
      obtain ⟨-, rfl⟩ := hstep
      exact .quiet rfl (.inl (le_refl _)) rfl [] (List.append_nil _).symm (by simp) rfl
    | replicate src m =>
      simp only [Option.ite_none_left_eq_some, Option.some.injEq] at hstep
      obtain ⟨-, rfl⟩ := hstep
      exact .quiet rfl (.inl (le_refl _)) rfl [] (List.append_nil _).symm (by simp) rfl
    | access =>
      dsimp only at hstep
      split at hstep
      · simp at hstep
      · next src c term logTerm logLen hhandler =>
        cases hstep
        exact storeVote_ballot hhandler
      · next src m pc hhandler =>
        cases hstep
        exact accessReplicate_ballot hhandler

lemma BallotStep.supportInv {s s' : Racing Ip} {a : RaceAct Ip} (h : BallotStep s a s')
    (hs : s.SupportInv) (hsettled : s.Settled a) (hwrap : s.NoWrap a) (hok : s.NoStaleVote a) :
    s'.SupportInv := by
  have hsolo {evs : List (Event Ip)} (htrace : s'.trace = s.trace ++ evs) :
      s'.toSolo = ⟨s'.mw, s.trace ++ evs⟩ := by rw [← htrace]
  cases h with
  | quiet self term voted evs trace events _ =>
    rw [hsolo trace]
    refine hs.quiet self ?_ voted (fun c t => (events t c).1) (fun t => (events t s.mw.selfIp).2)
    rcases term with hle | ⟨t, ht, hterm⟩
    · exact hle
    · exact (hsettled.replicate t ht).trans hterm.ge
  | start act self term voted trace =>
    subst act
    have hadd : addUint64 s.mw.term = s.mw.term + 1 := Nat.mod_eq_of_lt hwrap
    rw [hadd] at term trace
    have hnew {c : Ip} {t : Nat} (hc : s.Supports c t) : t ≠ s.mw.term + 1 := by
      have := hs.bound c t hc
      omega
    rw [hsolo trace]
    refine hs.add (c := s.mw.selfIp) self ?_ term (Nat.le_succ _)
      (fun c hc => absurd rfl (hnew hc)) ?_
    · intro c t
      simp
    · intro c hc
      exact absurd rfl (hnew (.inl (by simpa using hc)))
  | grant src c grant self term voted trace =>
    rw [hsolo trace]
    have hterm := hsettled.vote (src, c) grant
    simp only [VoteRequest.termOk, Bool.or_eq_true, Bool.and_eq_true, decide_eq_true_eq] at hterm
    have hle : s.mw.term ≤ c.elTerm := by omega
    have hfirst : ∀ c', s.Supports c' c.elTerm → c' = src := by
      intro c' hc'
      have hbound := hs.bound c' _ hc'
      have hsame : c.elTerm = s.mw.term := le_antisymm hbound hle
      obtain hlt | ⟨-, hvoted⟩ := hterm
      · omega
      · rcases hc' with hc' | ⟨rfl, hcamp⟩
        · have := hs.voted c' (hsame ▸ hc')
          rw [hvoted] at this
          exact (Option.some.inj this).symm
        · by_contra hne
          exact hok (src, c) grant hvoted (Ne.symm hne) hsame (hsame ▸ hcamp)
    refine hs.add (c := src) self ?_ term hle hfirst ?_
    · intro c' t'
      simp
    · intro c' hc'
      rw [voted]
      rcases List.mem_append.1 hc' with hold | hnew
      · rw [hfirst c' (.inl hold)]
      · simp only [List.mem_singleton, Event.granted.injEq] at hnew
        rw [hnew.1]

/-! ### Whole runs -/

variable {as : List (RaceAct Ip)} {s : Racing Ip}

/-- What a step needs for the node to support one candidate a term. -/
def Orderly (s : Racing Ip) (a : RaceAct Ip) : Prop :=
  s.Settled a ∧ s.NoWrap a

instance (s : Racing Ip) (a : RaceAct Ip) : Decidable (s.Orderly a) :=
  inferInstanceAs (Decidable (_ ∧ _))

lemma supportInv_run {selfIp : Ip} {otherIp : List Ip}
    (h : Steps step (fun s a => s.Orderly a ∧ s.NoStaleVote a)
      (start (.init selfIp otherIp)) as s) :
    s.SupportInv := by
  refine h.invariant (P := fun _ s => s.SupportInv) (Solo.supportInv_start selfIp otherIp) ?_
  intro as s a s' hs hok hstep
  exact (step_ballot hstep).supportInv hs hok.1.1 hok.1.2 hok.2

/-- Where no handler stores `Term` over a value that it has not compared and `Term` does not wrap, a
node supports one candidate a term in exactly the runs in which it gives no stale vote. -/
theorem single_support (selfIp : Ip) (otherIp : List Ip)
    (h : Steps step Orderly (start (.init selfIp otherIp)) as s) :
    Throughout step (fun _ s => s.SingleSupport) (start (.init selfIp otherIp)) as ↔
    Steps step (fun s a => s.Orderly a ∧ s.NoStaleVote a) (start (.init selfIp otherIp)) as s := by
  refine Steps.throughout_iff h (fun _ _ hrun => (supportInv_run hrun).single) ?_
  rintro bs r a r' hrun horderly hstep hsingle
  refine ⟨horderly, ?_⟩
  rintro ⟨src, c⟩ hgrant - hne hterm hcamp
  dsimp only at hne hterm
  cases step_ballot hstep with
  | quiet _ _ _ _ _ _ hnone => simp [hnone] at hgrant
  | start act => simp [act, grant] at hgrant
  | grant src' c' hgrant' self _ _ htrace =>
    obtain ⟨rfl, rfl⟩ : src' = src ∧ c' = c := by simpa [hgrant'] using hgrant
    refine hne (hsingle r.mw.term src' r.mw.selfIp (.inl ?_) (.inr ⟨self.symm, ?_⟩))
    · simp [htrace, hterm]
    · simp [htrace, hcamp]

/-- Node `0` votes for node `1` in term `1`, and for itself in term `2`. -/
def votesTwice : List (RaceAct (Fin 3)) :=
  [.vote 1 ⟨0, 0, 1⟩, .access, .act .mainLoop, .act .consumerTimer, .act .mainLoop, .electionStart]

theorem single_support_three : ∃ s : Racing (Fin 3),
    AllSteps step (start (.init 0 [1, 2])) votesTwice s ∧
    s.Supports 1 1 ∧ s.Supports 0 2 ∧ s.SingleSupport := by
  obtain ⟨s, hrun, hone, htwo, hself⟩ : ∃ s,
      Steps step (fun s a => s.Orderly a ∧ s.NoStaleVote a) (start (.init 0 [1, 2])) votesTwice s ∧
      (.granted 1 1 ∈ s.trace ∧ .campaigned 2 ∈ s.trace ∧ s.mw.selfIp = 0) :=
    steps_of_exec _ (by decide)
  have hall := hrun.mono fun _ _ _ => trivial
  exact ⟨s, hall, .inl hone, .inr ⟨hself.symm, htwo⟩,
    (single_support 0 [1, 2] (hrun.mono fun _ _ hok => hok.1)).mpr hrun _ s List.prefix_rfl hall⟩

/-- Node `1`, which had the vote of term `1`, asks again in the term in which node `0` stands. -/
theorem two_supported : ∃ s : Racing (Fin 3),
    Steps step Orderly (start (.init 0 [1, 2])) (votesTwice ++ [.vote 1 ⟨0, 0, 2⟩, .access]) s ∧
    s.Supports 0 2 ∧ s.Supports 1 2 := by
  obtain ⟨s, hrun, hone, htwo, hself⟩ : ∃ s, Steps step Orderly (start (.init 0 [1, 2]))
      (votesTwice ++ [.vote 1 ⟨0, 0, 2⟩, .access]) s ∧
      (.granted 1 2 ∈ s.trace ∧ .campaigned 2 ∈ s.trace ∧ s.mw.selfIp = 0) :=
    steps_of_exec _ (by decide)
  exact ⟨s, hrun, .inr ⟨hself.symm, htwo⟩, .inl hone⟩

/-- `HandleVoteRequest` has loaded term `0` when node `0` stands in term `1`. -/
example : ∃ s : Racing (Fin 3), AllSteps step (start (.init 0 [1, 2]))
    [.act .mainLoop, .act .consumerTimer, .act .mainLoop, .vote 1 ⟨0, 0, 1⟩, .electionStart,
      .access] s ∧ .campaigned 1 ∈ s.trace ∧ .granted 1 1 ∈ s.trace :=
  steps_of_exec _ (by decide)

/-- A request with the largest term takes node `0` back to term `0`. -/
example : ∃ s : Racing (Fin 3), AllSteps step (start (.init 0 [1, 2]))
    [.vote 1 ⟨0, 0, 1⟩, .access, .vote 2 ⟨0, 0, uint64Size - 1⟩, .access, .act .mainLoop,
      .act .consumerTimer, .act .mainLoop, .electionStart, .vote 2 ⟨0, 0, 1⟩, .access] s ∧
    .granted 1 1 ∈ s.trace ∧ .granted 2 1 ∈ s.trace :=
  steps_of_exec _ (by decide)

end Racing

end TiPI.DB
