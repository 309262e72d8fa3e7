import TiPI.DB.Logger
import Mathlib.Logic.Function.Basic

/-!
# The shared state of a node

`MiddleWare` is the singleton every goroutine of a node works on. Besides the fields of the
source it holds what the Go runtime holds for it: the `HandleKvs` calls in progress, the routine
the main loop has started, and the heartbeat sessions of the producer.

A node is generic in the type `Ip` of addresses. Timers carry no state: any timer may expire at
any moment.
-/

namespace TiPI.DB

inductive ReplicaState
  | MASTER
  | SLAVE
  | CONDIDATE
  deriving DecidableEq, Repr

inductive Mean
  | heartbeat
  | logappend
  | logcommit
  | other (name : String)
  deriving DecidableEq, Repr

inductive Method
  | GET
  | POST
  | PATCH
  | DELETE
  | other (name : String)
  deriving DecidableEq, Repr

/-- The methods `HandleKvs` serves under the lock. -/
inductive WriteMethod
  | POST
  | PATCH
  | DELETE
  deriving DecidableEq, Repr

/-! ### The key-value store

A pudge table whose reads and writes succeed: only the deletion of an absent key fails. What the
client handler does with one that fails is in `StoreErrors`. -/

abbrev Kvs := String → Option String

namespace Kvs

def empty : Kvs := fun _ => none

def write (kvs : Kvs) (key value : String) : Kvs := Function.update kvs key (some value)

def read (kvs : Kvs) (key : String) : Option String := kvs key

/-- `none` is pudge's `ErrKeyNotFound`. -/
def delete (kvs : Kvs) (key : String) : Option Kvs :=
  match kvs key with
  | none => none
  | some _ => some (Function.update kvs key none)

/-- The switch of `applyToKvs` on one entry; the result of the deletion is not looked at. -/
def apply (kvs : Kvs) (e : RaftLogEntry) : Kvs :=
  match e.op with
  | .create | .update => kvs.write e.operand e.value1
  | .delete => (kvs.delete e.operand).getD kvs
  | .read | .CAS | .none | .other _ => kvs

/-- The store after applying log entries in order. -/
def replay (kvs : Kvs) (es : List RaftLogEntry) : Kvs := es.foldl apply kvs

@[simp] lemma replay_nil (kvs : Kvs) : kvs.replay [] = kvs := rfl

lemma replay_append (kvs : Kvs) (es es' : List RaftLogEntry) :
    kvs.replay (es ++ es') = (kvs.replay es).replay es' := List.foldl_append

end Kvs

/-! ### Calls, routines and sessions -/

/-- A client's request on `/kvs/{id}`. An absent query parameter reads as `""`. -/
structure Request where
  /-- tells apart the goroutines that serve requests -/
  id : Nat
  method : Method
  key : String
  value : String
  deriving DecidableEq, Repr

/-- A request that has passed the checks in front of the lock. -/
structure WriteRequest where
  id : Nat
  method : WriteMethod
  key : String
  value : String
  deriving DecidableEq, Repr

/-- A `HandleKvs` call that has logged its entry and waits on `Cond`. -/
structure Handler where
  req : WriteRequest
  /-- the entry `LogOp` stored for the call -/
  entry : RaftLogEntry
  requiredLen : Nat
  /-- a `Broadcast` has happened since the call began to wait -/
  notified : Bool
  deriving DecidableEq, Repr

/-- What the main loop waits for. `cancelled` is the state of the routine's context. -/
inductive Routine (Ip : Type)
  /-- the loop itself is about to look at `State` -/
  | main
  | consumer (cancelled : Bool)
  /-- `i` is the number of the next heartbeat session -/
  | producer (i : Nat) (cancelled : Bool)
  /-- `Election_co` was started and has not raised the term yet -/
  | electionStart (cancelled : Bool)
  | election (term : Nat) (votes : List Ip) (cancelled : Bool)
  /-- the routine returned without a signal, the loop waits for good -/
  | orphan
  deriving DecidableEq

/-- A heartbeat session of `Heartbeat_producer_co`. -/
structure Session where
  id : Nat
  /-- its number `i` in the producer's loop -/
  nr : Nat
  /-- the messages have been sent, responses are being collected -/
  sent : Bool
  nrResponses : Nat
  peersLogUpdated : Bool
  deriving DecidableEq, Repr

structure MiddleWare (Ip : Type) where
  raftLog : Logger
  kvs : Kvs
  selfIp : Ip
  otherIp : List Ip
  term : Nat
  state : ReplicaState
  leaderIP : Ip
  votedFor : Option Ip
  /-- only the peers in `otherIp` ever get an entry -/
  sentLen : Ip → Option Nat
  commitLen : Ip → Option Nat
  /-- a handler panicked between `Cond.L.Lock` and `Cond.L.Unlock` -/
  locked : Bool
  running : Bool
  /-- number of the next client request -/
  nextRequest : Nat
  /-- calls of `HandleKvs` in front of their first `Cond.L.Lock` -/
  arrived : List WriteRequest
  waiting : List Handler
  routine : Routine Ip
  sessions : List Session
  nextSession : Nat

namespace MiddleWare

variable {Ip : Type}

/-- A node as `main` starts it on an empty log and an empty store. -/
def init (selfIp : Ip) (otherIp : List Ip) : MiddleWare Ip where
  raftLog := .fresh
  kvs := .empty
  selfIp := selfIp
  otherIp := otherIp
  term := 0
  state := .SLAVE
  leaderIP := selfIp
  votedFor := none
  sentLen := fun _ => none
  commitLen := fun _ => none
  locked := false
  running := true
  nextRequest := 0
  arrived := []
  waiting := []
  routine := .main
  sessions := []
  nextSession := 0

/-- `log.Fatalf` or a panic outside a request: the process ends, its memory is gone. -/
def exit (mw : MiddleWare Ip) : MiddleWare Ip :=
  { mw with running := false, raftLog := mw.raftLog.flushUncommited }

/-- Calling `Co_done_ctx` cancels the context of the routine that runs. -/
def coDone (mw : MiddleWare Ip) : MiddleWare Ip :=
  { mw with
    routine :=
      match mw.routine with
      | .consumer _ => .consumer true
      | .producer i _ => .producer i true
      | .electionStart _ => .electionStart true
      | .election term votes _ => .election term votes true
      | .main => .main
      | .orphan => .orphan }

/-- `Cond.Broadcast`. -/
def broadcast (mw : MiddleWare Ip) : MiddleWare Ip :=
  { mw with waiting := mw.waiting.map fun h => { h with notified := true } }

end MiddleWare

end TiPI.DB
