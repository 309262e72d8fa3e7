import TiPI.DB.Middleware
import Mathlib.Data.List.Sort

/-!
# The client handler

`HandleKvs` is cut at `Cond.L`: a call arrives and is checked without the lock (`kvsArrive`), its
first critical section runs up to `Cond.Wait` or to the end (`kvsBegin`), and each time it is
woken it evaluates the condition of its wait loop again (`kvsWake`).
-/

namespace TiPI.DB

variable {Ip : Type}

inductive Body (Ip : Type)
  | text (s : String)
  /-- the JSON object with `operand` and, but for `DELETE`, `value` -/
  | json (operand : String) (value : Option String)
  /-- the `Location` of a redirect: its host, and whether it keeps the query -/
  | location (host : Ip) (query : Bool)
  deriving DecidableEq

structure Response (Ip : Type) where
  status : Nat
  body : Body Ip
  deriving DecidableEq

/-- `lens[len(lens)/2]` of the sorted lengths; `none` is the panic on an empty slice. -/
def minSentLenQuorum (lens : List Nat) : Option Nat :=
  (lens.insertionSort (· ≤ ·))[lens.length / 2]?

namespace MiddleWare

/-- `maps.Values(mw.SentLen)`. -/
def sentLens (mw : MiddleWare Ip) : List Nat := mw.otherIp.filterMap mw.sentLen

/-! ### Arrival -/

inductive Arrival (Ip : Type)
  | answered (r : Response Ip)
  /-- the call goes on to `Cond.L.Lock` -/
  | lock (r : WriteRequest)
  /-- `rand.Int() % len(mw.OtherIp)` without peers -/
  | panicked
  deriving DecidableEq

/-- `HandleKvs` on `GET`; `rand` is the value of `rand.Int()`. -/
def kvsGet (mw : MiddleWare Ip) (key : String) (rand : Nat) : Arrival Ip :=
  match mw.state with
  | .MASTER =>
    match mw.otherIp[rand % mw.otherIp.length]? with
    | some peer => .answered ⟨307, .location peer false⟩
    | none => .panicked
  | .SLAVE | .CONDIDATE =>
    match mw.kvs.read key with
    | none => .answered ⟨404, .text s!"key {key} does not exist in data base"⟩
    | some value => .answered ⟨200, .json key (some value)⟩

/-- `HandleKvs` in front of the lock. -/
def kvsArrive (mw : MiddleWare Ip) (r : Request) (rand : Nat) : Arrival Ip :=
  if mw.state ≠ .MASTER ∧ r.method ≠ .GET then .answered ⟨307, .location mw.leaderIP true⟩
  else
    match r.method with
    | .GET => mw.kvsGet r.key rand
    | .POST =>
      if r.value = "" then .answered ⟨400, .text "Query param value is requiered"⟩
      else .lock ⟨r.id, .POST, r.key, r.value⟩
    | .PATCH =>
      if r.value = "" then .answered ⟨400, .text "Query param value is requiered"⟩
      else .lock ⟨r.id, .PATCH, r.key, r.value⟩
    | .DELETE => .lock ⟨r.id, .DELETE, r.key, r.value⟩
    | .other name => .answered ⟨400, .text s!"Method ({name}) is unsupported"⟩

/-! ### The critical sections -/

/-- The existence check at the start of the first critical section. -/
def kvsCheck (mw : MiddleWare Ip) (r : WriteRequest) : Option (Response Ip) :=
  match r.method, mw.kvs.read r.key with
  | .POST, some _ => some ⟨400, .text s!"Key {r.key} already exist"⟩
  | .PATCH, none => some ⟨404, .text s!"key {r.key} does not exist in data base"⟩
  | .DELETE, none => some ⟨400, .text s!"Key {r.key} does not exist in Db"⟩
  | .POST, none | .PATCH, some _ | .DELETE, some _ => none

/-- The entry handed to `LogOp`. -/
def kvsEntry (mw : MiddleWare Ip) (r : WriteRequest) : RaftLogEntry :=
  match r.method with
  | .POST =>
    { RaftLogEntry.zero with op := .create, operand := r.key, value1 := r.value, term := mw.term }
  | .PATCH =>
    { RaftLogEntry.zero with op := .update, operand := r.key, value1 := r.value, term := mw.term }
  | .DELETE => { RaftLogEntry.zero with op := .delete, operand := r.key, term := mw.term }

/-- Behind the wait loop: the change of the store, the commit and the answer. -/
def kvsCommit (mw : MiddleWare Ip) (r : WriteRequest) : MiddleWare Ip × Response Ip :=
  match r.method with
  | .POST =>
    ({ mw with kvs := mw.kvs.write r.key r.value, raftLog := mw.raftLog.logCommit },
      ⟨201, .json r.key (some r.value)⟩)
  | .PATCH =>
    ({ mw with kvs := mw.kvs.write r.key r.value, raftLog := mw.raftLog.logCommit },
      ⟨200, .json r.key (some r.value)⟩)
  | .DELETE =>
    match mw.kvs.delete r.key with
    | none => (mw, ⟨500, .text "data base error: Error: key not found"⟩)
    | some kvs =>
      ({ mw with kvs := kvs, raftLog := mw.raftLog.logCommit }, ⟨200, .json r.key none⟩)

/-- How a critical section of a call ends. -/
inductive Section (Ip : Type)
  /-- the call is answered and did not log an entry -/
  | refused (r : Response Ip)
  /-- the call is in `Cond.Wait` -/
  | waits
  /-- the call left its wait loop and is answered -/
  | done (h : Handler) (r : Response Ip)
  /-- `minSentLenQuorum` panicked and `Cond.L` stays locked -/
  | panicked
  deriving DecidableEq

/-- The wait loop of `HandleKvs`, from an evaluation of its condition on. -/
def kvsLoop (mw : MiddleWare Ip) (h : Handler) : MiddleWare Ip × Section Ip :=
  match minSentLenQuorum mw.sentLens with
  | none => ({ mw with locked := true }, .panicked)
  | some len =>
    if h.requiredLen > len then
      ({ mw with waiting := mw.waiting ++ [{ h with notified := false }] }, .waits)
    else
      let (mw, r) := mw.kvsCommit h.req
      (mw, .done h r)

/-- `LogOp` of a call, and what the call remembers of it. -/
def kvsLog (mw : MiddleWare Ip) (r : WriteRequest) : MiddleWare Ip × Handler :=
  let raftLog := mw.raftLog.logOp (mw.kvsEntry r)
  ({ mw with raftLog := raftLog },
    ⟨r, raftLog.toCommit.getLastD .zero, raftLog.lenUncommited, false⟩)

/-- The first critical section of a call that has arrived. -/
def kvsBegin (mw : MiddleWare Ip) (r : WriteRequest) : MiddleWare Ip × Section Ip :=
  let mw := { mw with arrived := mw.arrived.erase r }
  match mw.kvsCheck r with
  | some resp => (mw, .refused resp)
  | none =>
    let (mw, h) := mw.kvsLog r
    mw.kvsLoop h

/-- A woken call has the lock again. -/
def kvsWake (mw : MiddleWare Ip) (h : Handler) : MiddleWare Ip × Section Ip :=
  { mw with waiting := mw.waiting.erase h }.kvsLoop h

end MiddleWare

end TiPI.DB
