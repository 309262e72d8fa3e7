import TiPI.DB.RaftApi

/-!
# The routines of a node

The main loop with `Heartbeat_consumer_co`, `Heartbeat_producer_co` and `Election_co`. Each
definition is one atomic piece of a routine; `none` means that the routine is not at that piece.
-/

namespace TiPI.DB

variable {Ip : Type}

/-- The packets nodes exchange. A vote packet carries the election it belongs to, a replication
packet the heartbeat session. -/
inductive Msg
  | replicate (session : Nat) (mean : Mean) (term : Nat) (logEntry : RaftLogEntry)
  | replicateRsp (session : Nat) (answer : Answer)
  | vote (c : VoteRequest)
  | voteRsp (elTerm : Nat) (answer : VoteAnswer)
  deriving DecidableEq

namespace MiddleWare

/-! ### The main loop and the consumer -/

/-- One turn of the main loop, up to the start of the next routine. -/
def mainLoop (mw : MiddleWare Ip) : Option (MiddleWare Ip) :=
  match mw.routine with
  | .main =>
    match mw.state with
    | .MASTER =>
      some { mw with raftLog := mw.raftLog.flushUncommited, routine := .producer 0 false }
    | .CONDIDATE =>
      some { mw with raftLog := mw.raftLog.flushUncommited, routine := .electionStart false }
    | .SLAVE => some { mw with routine := .consumer false }
  | _ => none

/-- `Heartbeat_consumer_co` when the timer has expired. -/
def consumerTimer (mw : MiddleWare Ip) : Option (MiddleWare Ip) :=
  match mw.routine with
  | .consumer _ => some { mw with state := .CONDIDATE, routine := .main }
  | _ => none

def consumerDone (mw : MiddleWare Ip) : Option (MiddleWare Ip) :=
  match mw.routine with
  | .consumer true => some { mw with routine := .main }
  | _ => none

/-! ### Elections -/

/-- `len(mw.OtherIp) / 2 + 1`. -/
def voteQuorum (mw : MiddleWare Ip) : Nat := mw.otherIp.length / 2 + 1

/-- `Election_co` up to its loop: the term is raised and every peer is asked. -/
def electionStart (mw : MiddleWare Ip) : Option (MiddleWare Ip × List (Ip × Msg)) :=
  match mw.routine with
  | .electionStart cancelled =>
    let term := mw.term + 1
    let c : VoteRequest := ⟨mw.raftLog.lenCommited, mw.raftLog.lastOp.term, term⟩
    some ({ mw with term := term, routine := .election term [mw.selfIp] cancelled },
      mw.otherIp.map fun peer => (peer, .vote c))
  | _ => none

/-- A vote response reaches the loop of `Election_co`. -/
def electionRsp [DecidableEq Ip] (mw : MiddleWare Ip) (peer : Ip) (elTerm : Nat)
    (a : VoteAnswer) : MiddleWare Ip :=
  match mw.routine with
  | .election term votes cancelled =>
    if elTerm = term ∧ votes.length < mw.voteQuorum ∧ a.status = 200 ∧ a.term = term ∧
        a.answer then
      { mw with routine := .election term (votes.insert peer) cancelled }
    else mw
  | _ => mw

/-- `Election_co` returns without a verdict, by its timer or by its context. -/
def electionStop (mw : MiddleWare Ip) : Option (MiddleWare Ip) :=
  match mw.routine with
  | .election _ votes _ =>
    if votes.length < mw.voteQuorum then some { mw with routine := .main } else none
  | _ => none

/-- The quorum is collected: the critical section at the end of `Election_co`. -/
def electionWin (mw : MiddleWare Ip) : Option (MiddleWare Ip) :=
  match mw.routine with
  | .election _ votes _ =>
    if votes.length < mw.voteQuorum ∨ mw.locked then none
    else some { mw with state := .MASTER, leaderIP := mw.selfIp, routine := .main }
  | _ => none

/-! ### Heartbeats -/

/-- `Heartbeat_producer_co` when the timer has expired: it starts a session, or it ends when the
node is no master any more. -/
def producerTimer (mw : MiddleWare Ip) : Option (MiddleWare Ip) :=
  match mw.routine with
  | .producer i cancelled =>
    match mw.state with
    | .MASTER =>
      some { mw with
        routine := .producer (i + 1) cancelled
        sessions := mw.sessions ++ [⟨mw.nextSession, i, false, 0, false⟩]
        nextSession := mw.nextSession + 1 }
    | .SLAVE | .CONDIDATE => some { mw with routine := .main }
  | _ => none

/-- The producer returns on a cancelled context and leaves `co_done_ch` alone. -/
def producerDone (mw : MiddleWare Ip) : Option (MiddleWare Ip) :=
  match mw.routine with
  | .producer _ true => some { mw with routine := .orphan }
  | _ => none

/-- The message session number `nr` has for one peer; `none` is the `Fatalf` or an index out of
range. -/
def sessionMsg (mw : MiddleWare Ip) (nr : Nat) (peer : Ip) : Option (Mean × RaftLogEntry) :=
  let commitsToReplicate := mw.raftLog.ops 0
  let commitsToApply := mw.raftLog.uncommitedOps
  let commitLen := (mw.commitLen peer).getD 0
  let sentLen := (mw.sentLen peer).getD 0
  if commitLen < mw.raftLog.lenCommited ∧ nr ≠ 0 then
    if commitsToReplicate.length ≠ mw.raftLog.lenCommited then none
    else commitsToReplicate[commitLen]?.map fun log => (.logcommit, log)
  else if sentLen < mw.raftLog.lenCommited ∧ nr ≠ 0 then
    commitsToReplicate[sentLen]?.map fun log => (.logcommit, log)
  else if sentLen < mw.raftLog.lenUncommited ∧ nr ≠ 0 then
    commitsToApply[sentLen - mw.raftLog.lenCommited]?.map fun log => (.logappend, log)
  else some (.heartbeat, mw.raftLog.lastOp)

/-- The messages of a session, up to the peer at which the process ends. -/
def sessionMsgs (mw : MiddleWare Ip) (s : Session) : List Ip → List (Ip × Msg) × Bool
  | [] => ([], true)
  | peer :: peers =>
    match mw.sessionMsg s.nr peer with
    | none => ([], false)
    | some (mean, log) =>
      let (msgs, alive) := mw.sessionMsgs s peers
      ((peer, .replicate s.id mean mw.term log) :: msgs, alive)

/-- Replace the session `s.id`. -/
def setSession (mw : MiddleWare Ip) (s : Session) : MiddleWare Ip :=
  { mw with sessions := mw.sessions.map fun s' => if s'.id = s.id then s else s' }

def dropSession (mw : MiddleWare Ip) (id : Nat) : MiddleWare Ip :=
  { mw with sessions := mw.sessions.filter fun s => s.id ≠ id }

/-- The first critical section of a session. -/
def sessionSend (mw : MiddleWare Ip) (id : Nat) : Option (MiddleWare Ip × List (Ip × Msg)) :=
  match mw.sessions.find? (·.id = id) with
  | some s =>
    if s.sent ∨ mw.locked then none
    else
      let (msgs, alive) := mw.sessionMsgs s mw.otherIp
      some (if alive then mw.setSession { s with sent := true } else mw.exit, msgs)
  | none => none

variable [DecidableEq Ip]

/-- A response without error reaches a session that is still collecting. -/
def collectOk (mw : MiddleWare Ip) (s : Session) (ip : Ip) (len : Nat) (ans : Bool) :
    MiddleWare Ip × Session :=
  let s := { s with nrResponses := s.nrResponses + 1 }
  let sentLen := Function.update mw.sentLen ip (some (max len ((mw.sentLen ip).getD 0)))
  let commitLen := Function.update mw.commitLen ip (some (max len ((mw.commitLen ip).getD 0)))
  if ans = false ∧ len ≤ mw.raftLog.lenUncommited then
    ({ mw with sentLen := sentLen }, { s with peersLogUpdated := true })
  else if ans = true ∧ len ≤ mw.raftLog.lenCommited then
    ({ mw with sentLen := sentLen, commitLen := commitLen }, { s with peersLogUpdated := true })
  else (mw, s)

def collect (mw : MiddleWare Ip) (s : Session) : List (Rsp Ip) → MiddleWare Ip × Session
  | [] => (mw, s)
  | .err :: rsps => mw.collect s rsps
  | .ok ip len ans :: rsps =>
    if s.nrResponses < mw.otherIp.length then
      let (mw, s) := mw.collectOk s ip len ans
      mw.collect s rsps
    else (mw, s)

/-- An answer comes back to `SendReplicate`. Nobody reads the channel of a session that is over. -/
def sessionRsp (mw : MiddleWare Ip) (peer : Ip) (id : Nat) (a : Answer) :
    Option (MiddleWare Ip) :=
  match mw.sessions.find? (·.id = id) with
  | some s =>
    if !s.sent ∨ mw.locked then none
    else
      let (mw, s) := mw.collect s (sendReplicate peer a)
      some (mw.setSession s)
  | none => some mw

/-- The label `collected`. -/
def collected (mw : MiddleWare Ip) (s : Session) : MiddleWare Ip :=
  let mw := mw.dropSession s.id
  if s.peersLogUpdated then mw.broadcast else mw

/-- Every peer has responded. -/
def sessionDone (mw : MiddleWare Ip) (id : Nat) : Option (MiddleWare Ip) :=
  match mw.sessions.find? (·.id = id) with
  | some s =>
    if s.sent ∧ s.nrResponses ≥ mw.otherIp.length then some (mw.collected s) else none
  | none => none

/-- The context of a session is done before every peer has responded. -/
def sessionTimer (mw : MiddleWare Ip) (id : Nat) : Option (MiddleWare Ip) :=
  match mw.sessions.find? (·.id = id) with
  | some s =>
    if s.sent ∧ s.nrResponses < mw.otherIp.length then
      if s.nrResponses < (mw.otherIp.length + 1) / 2 then
        some { mw.dropSession id with state := .SLAVE }
      else some (mw.collected s)
    else none
  | none => none

end MiddleWare

end TiPI.DB
