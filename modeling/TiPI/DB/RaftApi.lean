import TiPI.DB.Middleware

/-!
# The peer handlers

`HandleReplicate` and `HandleVoteRequest`, each one critical section of `Cond.L`, and the
responses `SendReplicate` makes out of an answer.
-/

namespace TiPI.DB

variable {Ip : Type}

/-! ### Replication -/

/-- An HTTP answer to a replication message. `body` is the decoded JSON, if there is any. -/
structure Answer where
  status : Nat
  body : Option (Nat × Bool)
  deriving DecidableEq, Repr

/-- A value on the response channel of a heartbeat session. `err` is every failure. -/
inductive Rsp (Ip : Type)
  | err
  | ok (ip : Ip) (len : Nat) (ans : Bool)
  deriving DecidableEq

/-- What `SendReplicate` pushes for an answer. Neither of its error branches returns, so an
answer that is no success ends in a response with default values. -/
def sendReplicate (peer : Ip) (a : Answer) : List (Rsp Ip) :=
  (if a.status ≠ 200 then [.err] else []) ++
    match a.body with
    | none => [.err, .ok peer 0 false]
    | some (len, ack) => [.ok peer len ack]

namespace MiddleWare

/-- The body answered to a message that is taken. -/
def lens (mw : MiddleWare Ip) : Answer :=
  ⟨200, some (mw.raftLog.lenUncommited,
    mw.raftLog.lenUncommited == mw.raftLog.lenCommited)⟩

/-- A `400` carries no JSON. -/
def rejected : Answer := ⟨400, none⟩

/-- `applyToKvs`. -/
def applyToKvs (mw : MiddleWare Ip) (e : RaftLogEntry) : MiddleWare Ip :=
  { mw with kvs := mw.kvs.apply e }

/-- A candidate or master gives way to the sender and answers with its own lengths. -/
def giveWay (mw : MiddleWare Ip) (ip : Ip) (term : Nat) : MiddleWare Ip :=
  { mw with term := term, state := .SLAVE, leaderIP := ip }.coDone

/-- The test before `LogOp` in `HandleReplicate`. -/
def takesEntry (mw : MiddleWare Ip) (e : RaftLogEntry) : Bool :=
  e.ind = 0 && mw.raftLog.lenUncommited = 0 ||
    e.prevInd = Logger.pred mw.raftLog.lenCommited

/-- The append of a `logappend` or `logcommit` message. -/
def replicateAppend (mw : MiddleWare Ip) (e : RaftLogEntry) : MiddleWare Ip :=
  if mw.takesEntry e then
    let l :=
      if mw.raftLog.lenUncommited > mw.raftLog.lenCommited then mw.raftLog.flushUncommited
      else mw.raftLog
    { mw with raftLog := l.logOp e }
  else mw

/-- The commit of a `logcommit` message; `none` is its `Fatalf`. -/
def replicateCommit (mw : MiddleWare Ip) (e : RaftLogEntry) : Option (MiddleWare Ip) :=
  if Logger.pred mw.raftLog.lenUncommited ≠ e.ind then none
  else
    let mw := { mw with raftLog := mw.raftLog.logCommit }
    some (mw.applyToKvs mw.raftLog.lastOp)

/-- The switch over `mean` of a slave in the sender's term. -/
def replicateSlave (mw : MiddleWare Ip) (mean : Mean) (e : RaftLogEntry) :
    MiddleWare Ip × Option Answer :=
  match mean with
  | .logappend =>
    let mw := mw.replicateAppend e
    (mw, some mw.lens)
  | .logcommit =>
    let mw := mw.replicateAppend e
    match mw.replicateCommit e with
    | none => (mw.exit, none)
    | some mw => (mw, some mw.lens)
  | .heartbeat => (mw, some mw.lens)
  | .other _ => (mw, some rejected)

/-- A slave takes over the sender's term if it is the higher one. -/
def raiseTerm (mw : MiddleWare Ip) (term : Nat) : MiddleWare Ip :=
  if mw.term < term then { mw with term := term } else mw

/-- `HandleReplicate` on a decoded `POST`; no answer means that the process has ended. -/
def handleReplicate (mw : MiddleWare Ip) (ip : Ip) (mean : Mean) (term : Nat)
    (e : RaftLogEntry) : MiddleWare Ip × Option Answer :=
  match mw.state with
  | .MASTER =>
    if mw.term ≥ term then (mw, some rejected)
    else (mw.giveWay ip term, some mw.lens)
  | .CONDIDATE =>
    if mw.term ≤ term then (mw.giveWay ip term, some mw.lens)
    else (mw, some rejected)
  | .SLAVE =>
    let mw := mw.raiseTerm term
    if mw.term > term then (mw, some rejected)
    else mw.replicateSlave mean e

end MiddleWare

/-! ### Votes -/

structure VoteRequest where
  logLen : Nat
  logTerm : Nat
  elTerm : Nat
  deriving DecidableEq, Repr

structure VoteAnswer where
  /-- the first status written -/
  status : Nat
  term : Nat
  answer : Bool
  deriving DecidableEq, Repr

namespace MiddleWare

def logOk (mw : MiddleWare Ip) (c : VoteRequest) : Bool :=
  c.logTerm > mw.raftLog.lastOp.term ||
    (c.logTerm = mw.raftLog.lastOp.term && c.logLen ≥ mw.raftLog.lenCommited)

def termOk [DecidableEq Ip] (mw : MiddleWare Ip) (cIp : Ip) (c : VoteRequest) : Bool :=
  c.elTerm > mw.term || (c.elTerm = mw.term && mw.votedFor = some cIp)

/-- `HandleVoteRequest` on a `POST`. A sender outside `OtherIp` gets a `405`, but the handler
does not return there. -/
def handleVoteRequest [DecidableEq Ip] (mw : MiddleWare Ip) (cIp : Ip) (c : VoteRequest) :
    MiddleWare Ip × VoteAnswer :=
  let status := if cIp ∈ mw.otherIp then 200 else 405
  if mw.termOk cIp c && mw.logOk c then
    ({ mw with
        term := c.elTerm
        state := .SLAVE
        votedFor := some cIp
        leaderIP := cIp }.coDone, ⟨status, c.elTerm, true⟩)
  else (mw, ⟨status, mw.term, false⟩)

end MiddleWare

end TiPI.DB
