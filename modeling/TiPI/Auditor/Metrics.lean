import TiPI.Auditor.PostEvent
import TiPI.Lib.Run
import Mathlib.Data.UInt

/-!
# The middleware of the server

A request goes through `Recoverer`, `Metrics` and `Logging` to its handler. The last two put a
writer of their own around the one of the response, which takes down the status, and count or log
the request behind the handler. Requests are handled side by side; a step is one call of a writer,
one access to a counter or one line of the log.

Of the counters of Prometheus only their labels are looked at, durations and what else is logged of
a request are left out.
-/

namespace TiPI.Auditor

/-! ### Responses -/

/-- What a handler does with its `http.ResponseWriter`. -/
inductive WriterCall
  | WriteHeader (status : Nat)
  | Write (b : List UInt8)
  deriving DecidableEq

/-- What `net/http` has sent. -/
structure Wire where
  status : Option Nat
  body : List UInt8
  deriving DecidableEq

namespace Wire

def empty : Wire := ⟨none, []⟩

/-- Statuses that are sent at once, in front of the one of the response. -/
def informational (status : Nat) : Bool := 100 ≤ status && status ≤ 199 && status ≠ 101

def bodyAllowed (status : Nat) : Bool :=
  !(100 ≤ status && status ≤ 199) && status ≠ 204 && status ≠ 304

/-- The first status counts. -/
def writeHeader (w : Wire) (status : Nat) : Wire :=
  if w.status.isSome || informational status then w else { w with status := some status }

/-- The number is that of the bytes written. -/
def write (w : Wire) (b : List UInt8) : Wire × Nat :=
  let w := w.writeHeader 200
  if (w.status.map bodyAllowed).getD true then ({ w with body := w.body ++ b }, b.length)
  else (w, 0)

end Wire

/-! ### Requests -/

inductive Serving
  | handler (calls : List WriterCall)
  /-- `logger.Info` of `Logging` -/
  | log
  /-- `WithLabelValues` of the counters of Prometheus -/
  | withLabelValues
  | incrementRequests
  /-- `LoadOrStore` of `IncrementStatusCode` -/
  | loadOrStore
  /-- `Add` on the counter with this address -/
  | add (counter : Nat)
  | returned
  /-- the deferred function of `Recoverer` -/
  | recover
  | recovered
  deriving DecidableEq

structure ServedRequest where
  /-- `URL.Path`, in which escapes have been replaced -/
  path : List UInt8
  /-- what the handler does, and whether it panics then -/
  calls : List WriterCall
  panics : Bool
  pc : Serving
  wire : Wire
  /-- `status` of `metricsResponseWriter` -/
  mrwStatus : Nat
  /-- `status` and `size` of `responseWriter` -/
  rwStatus : Nat
  rwSize : Nat
  deriving DecidableEq

namespace ServedRequest

/-- Both writers begin with `StatusOK`. -/
def init (path : List UInt8) (calls : List WriterCall) (panics : Bool) : ServedRequest :=
  ⟨path, calls, panics, .handler calls, .empty, 200, 200, 0⟩

/-- A call of the outer writer, `Logging`'s. -/
def call (r : ServedRequest) : WriterCall → ServedRequest
  | .WriteHeader status =>
    { r with rwStatus := status, mrwStatus := status, wire := r.wire.writeHeader status }
  | .Write b =>
    let (wire, size) := r.wire.write b
    { r with wire := wire, rwSize := r.rwSize + size }

/-- `WithLabelValues` panics at a label that is not UTF-8; the method and the status are. -/
def validLabels (r : ServedRequest) : Bool := ByteArray.IsValidUTF8 ⟨r.path.toArray⟩

/-- What `Recoverer` encodes. -/
def internalServerError : List UInt8 :=
  "\x7b\"message\":\"Internal server error\",\"status\":\"error\"\x7d\n".toUTF8.data.toList

def recover (r : ServedRequest) : ServedRequest :=
  { r with wire := ((r.wire.writeHeader 500).write internalServerError).1, pc := .recovered }

end ServedRequest

/-- The variables of the package `metrics`, the log and the requests. -/
structure Metrics where
  requestsTotal : BitVec 64
  /-- the addresses of the counters -/
  statusCodes : Nat → Option Nat
  counters : List (BitVec 64)
  /-- status and size -/
  log : List (Nat × Nat)
  requests : List ServedRequest

inductive MetricsAct
  | request (path : List UInt8) (calls : List WriterCall) (panics : Bool)
  /-- the next step of request `i` -/
  | run (i : Nat)

namespace Metrics

def init : Metrics := ⟨0, fun _ => none, [], [], []⟩

def put (s : Metrics) (i : Nat) (r : ServedRequest) : Metrics :=
  { s with requests := s.requests.set i r }

/-- `LoadOrStore` with a new counter. -/
def loadOrStore (s : Metrics) (code : Nat) : Metrics × Nat :=
  let s' := { s with counters := s.counters ++ [0] }
  match s.statusCodes code with
  | some val => (s', val)
  | none =>
    ({ s' with statusCodes := Function.update s.statusCodes code (some s.counters.length) },
      s.counters.length)

def add (s : Metrics) (counter : Nat) : Metrics :=
  { s with counters := s.counters.modify counter (· + 1) }

/-- What `GetStatusCodes` finds of a code. -/
def count (s : Metrics) (code : Nat) : BitVec 64 :=
  match s.statusCodes code with
  | some counter => s.counters.getD counter 0
  | none => 0

def run (s : Metrics) (i : Nat) (r : ServedRequest) : Option Metrics :=
  match r.pc with
  | .handler (c :: calls) => some (s.put i { r.call c with pc := .handler calls })
  | .handler [] => some (s.put i { r with pc := if r.panics then .recover else .log })
  | .log => some ({ s with log := s.log ++ [(r.rwStatus, r.rwSize)] }.put i
      { r with pc := .withLabelValues })
  | .withLabelValues =>
    some (s.put i { r with pc := if r.validLabels then .incrementRequests else .recover })
  | .incrementRequests => some ({ s with requestsTotal := s.requestsTotal + 1 }.put i
      { r with pc := .loadOrStore })
  | .loadOrStore =>
    let (s, counter) := s.loadOrStore r.mrwStatus
    some (s.put i { r with pc := .add counter })
  | .add counter => some ((s.add counter).put i { r with pc := .returned })
  | .recover => some (s.put i r.recover)
  | .returned | .recovered => none

def step (s : Metrics) : MetricsAct → Option Metrics
  | .request path calls panics =>
    some { s with requests := s.requests ++ [.init path calls panics] }
  | .run i => (s.requests[i]?).bind (s.run i)

end Metrics

end TiPI.Auditor
