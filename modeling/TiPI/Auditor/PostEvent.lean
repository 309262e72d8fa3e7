import TiPI.Auditor.Storage

/-!
# Posting events

The handler checks the request that `Decode` has made of the body, and `AddEvent` looks up or adds
the names of the operation, the user and the component, one call of `getOrCreateId` behind the
other, and runs the `INSERT` of the event. Requests are handled side by side.

What Postgres makes of the values of an event is left out but for whether it takes them; so are a
client that goes away and a database that cannot be reached. `getOrCreateId` never gives the error
`errorNullRes`, so the component is never null.
-/

namespace TiPI.Auditor

structure PostEventRequest where
  Ts : String
  User : String
  Component : String
  Op : String
  Session_id : ℤ
  Req_id : ℤ
  Res : Option String
  Attrs : Option String
  deriving DecidableEq

structure PostEventResponse where
  deriving DecidableEq

structure ErrorResponse where
  Status : String
  Message : String
  Details : String
  deriving DecidableEq

inductive Data
  | postEventResponse (resp : PostEventResponse)
  | errorResponse (resp : ErrorResponse)
  deriving DecidableEq

structure Response where
  status : Nat
  data : Data
  deriving DecidableEq

/-- A row of the table `events`. -/
structure EventRow where
  timestamp : String
  user_id : Nat
  op_id : Nat
  component_id : Option Nat
  session_id : Option ℤ
  req_id : Option ℤ
  res : Option String
  attrs : Option String
  deriving DecidableEq

def respondError (status : Nat) (message details : String) : Response :=
  ⟨status, .errorResponse ⟨"error", message, details⟩⟩

def created : Response := ⟨201, .postEventResponse {}⟩

/-- What `EventHandler.PostEvent` finds wrong with a request. -/
def PostEventRequest.invalid (req : PostEventRequest) : Option Response :=
  if req.Ts = "" then some (respondError 400 "Invalid request" "Field 'timestamp' is required")
  else if req.User = "" then some (respondError 400 "Invalid request" "Field 'user' is required")
  else if req.Op = "" then some (respondError 400 "Invalid request" "Field 'op' is required")
  else none

/-- `strings.Contains`. -/
def contains (s substr : String) : Bool := decide (substr.toList <:+: s.toList)

/-- The answer to an error of `AddEvent`. -/
def serviceError (err : String) : Response :=
  let err := "failed to post event: " ++ err
  if contains err "unknown event type" then respondError 400 "Invalid event type" err
  else respondError 500 "Internal server error" ""

/-- The null of a number that the request leaves out. -/
def refOf (n : ℤ) : Option ℤ := if n ≠ 0 then some n else none

def PostEventRequest.row (req : PostEventRequest) (op_id user_id component_id : Nat) :
    EventRow where
  timestamp := req.Ts
  user_id := user_id
  op_id := op_id
  component_id := some component_id
  session_id := refOf req.Session_id
  req_id := refOf req.Req_id
  res := req.Res
  attrs := req.Attrs

/-- Where `AddEvent` is: in which call of `getOrCreateId`, with the ids it has. -/
inductive AddEvent
  | operation (k : Nat)
  | user (op_id k : Nat)
  | component (op_id user_id k : Nat)
  | insert (op_id user_id component_id : Nat)
  | responded (r : Response)
  deriving DecidableEq

/-- A request: what `Decode` has made of its body, or its error, and where the handler is. -/
structure Post where
  body : Except String PostEventRequest
  pc : AddEvent

structure Server where
  db : Db
  /-- the rows inserted so far -/
  events : List EventRow
  posts : List Post

inductive ServerAct
  | post (body : Except String PostEventRequest)
  | run (i : Nat)

/-- A new call of `getOrCreateId`. -/
def Db.call (s : Db) (name : String) (table : Table) : Db :=
  { s with calls := s.calls ++ [⟨name, table, .beginTx⟩] }

namespace Server

def init (tables : Tables) : Server := ⟨.init tables, [], []⟩

def goto (s : Server) (i : Nat) (p : Post) (pc : AddEvent) : Server :=
  { s with posts := s.posts.set i { p with pc := pc } }

/-- `EventHandler.PostEvent` up to the first statement of `AddEvent`. -/
def post (s : Server) : Except String PostEventRequest → Server
  | .error err => { s with
      posts := s.posts ++
        [⟨.error err, .responded (respondError 400 "Invalid request body" err)⟩] }
  | .ok req =>
    match req.invalid with
    | some r => { s with posts := s.posts ++ [⟨.ok req, .responded r⟩] }
    | none => { s with
        db := s.db.call req.Op .operations
        posts := s.posts ++ [⟨.ok req, .operation s.db.calls.length⟩] }

/-- The next step of call `k`, or what follows its return. -/
def await (s : Server) (i : Nat) (p : Post) (k : Nat) (next : Nat → Server) : Option Server :=
  match s.db.calls[k]? with
  | none => none
  | some c =>
    match c.pc with
    | .returned (.ok id) => some (next id)
    | .returned (.error err) =>
      some (s.goto i p (.responded (serviceError ("pg AddEvent error: " ++ err))))
    | _ => (s.db.step (.run k)).map fun db => { s with db := db }

/-- `refuses` is the error of Postgres for the values of an event, if it does not take them. -/
def addEvent (refuses : PostEventRequest → Option String) (s : Server) (i : Nat) (p : Post)
    (req : PostEventRequest) : Option Server :=
  match p.pc with
  | .operation k => s.await i p k fun op_id =>
      { s with db := s.db.call req.User .users }.goto i p (.user op_id s.db.calls.length)
  | .user op_id k => s.await i p k fun user_id =>
      { s with db := s.db.call req.Component .components }.goto i p
        (.component op_id user_id s.db.calls.length)
  | .component op_id user_id k => s.await i p k fun component_id =>
      s.goto i p (.insert op_id user_id component_id)
  | .insert op_id user_id component_id =>
    match refuses req with
    | some err => some (s.goto i p (.responded (serviceError ("pg AddEvent query error: " ++ err))))
    | none => some ({ s with events := s.events ++ [req.row op_id user_id component_id] }.goto i p
        (.responded created))
  | .responded _ => none

def step (refuses : PostEventRequest → Option String) (s : Server) : ServerAct → Option Server
  | .post body => some (s.post body)
  | .run i => (s.posts[i]?).bind fun p =>
      match p.body with
      | .error _ => none
      | .ok req => addEvent refuses s i p req

end Server

end TiPI.Auditor
