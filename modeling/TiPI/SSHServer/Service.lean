import TiPI.SSHServer.Relay

/-!
# The service

Three threads: `SvcMain` with `SvcInit`, `SvcCtrlHandler` in the thread of the dispatcher, and
`TcpServerThread`. They share `gSvcStatus`, the stop event and `g_listenSocket`, and a step is one
access to one of these or one call. Each call may fail where its result is looked at.

The service control manager sends a stop to a service only whose last status is `RUNNING` and that
accepts it, and one control at a time. `InitTerminal` succeeds; what the relay does is `Relay.step`.
-/

namespace TiPI.SSHServer

inductive CurrentState
  /-- before the first status -/
  | ZERO
  | START_PENDING
  | RUNNING
  | STOP_PENDING
  | STOPPED
  deriving DecidableEq, Repr

/-- The members of `SERVICE_STATUS` that change. -/
structure Status where
  dwCurrentState : CurrentState
  dwWin32ExitCode : Nat
  dwWaitHint : Nat
  /-- `SERVICE_ACCEPT_STOP` -/
  dwControlsAccepted : Bool
  dwCheckPoint : Nat
  deriving DecidableEq, Repr

/-- The arguments of `ReportSvcStatus`. -/
structure Report where
  dwCurrentState : CurrentState
  dwWin32ExitCode : Nat
  dwWaitHint : Nat
  deriving DecidableEq, Repr

inductive SvcMain
  | register
  /-- `ReportSvcStatus` in front of its statement number `k` -/
  | report (r : Report) (k : Nat)
  | createEvent
  | createThread
  | waitStop
  | waitThread
  | checkSocket
  | closeSocket
  | clearSocket
  | returned
  deriving DecidableEq

/-- `SvcCtrlHandler`, and between its calls. -/
inductive SvcCtrlHandler
  | idle
  /-- the last report, or the first one -/
  | report (last : Bool) (r : Report) (k : Nat)
  | setEvent
  | checkSocket
  | shutdownSocket
  | closeSocket
  | clearSocket
  | readState
  deriving DecidableEq

inductive TcpServerThread
  | notCreated
  | wsaStartup
  | socket
  | bind
  | listen
  | wait
  | select
  | accept
  | initTerminal
  | relay (r : Relay)
  | closeClient
  | checkSocket
  | closeSocket
  | clearSocket
  | ended
  deriving DecidableEq

inductive ServerEvent
  | call (ok : Bool)
  /-- `none` is `SOCKET_ERROR` -/
  | select (readable : Option Bool)
  | accept
  | acceptFails (err : Nat)
  /-- what is in `rbuf` -/
  | initTerminal (rbuf : List UInt8)
  | relay (e : Event)

structure Service where
  gSvcStatus : Status
  /-- the static variable of `ReportSvcStatus` -/
  dwCheckPoint : Nat
  /-- whether the event is set, if there is one -/
  ghSvcStopEvent : Option Bool
  /-- not `INVALID_SOCKET` -/
  g_listenSocket : Bool
  main : SvcMain
  handler : SvcCtrlHandler
  server : TcpServerThread
  /-- what `SetServiceStatus` has been given, oldest first -/
  reports : List Status
  /-- listening sockets, and how often one has been closed -/
  opened : Nat
  closed : Nat
  /-- clients, and those whose socket has been closed -/
  accepted : Nat
  clientClosed : Nat
  /-- `SvcInit` has stored `STOPPED` while the handler had the state before that to store -/
  overtaken : Bool

inductive ServiceAct
  /-- `fails` is what a failed call leaves to `GetLastError` -/
  | main (fails : Option Nat)
  | stop
  | handler
  | server (e : ServerEvent)

namespace Service

def init : Service where
  gSvcStatus := ⟨.ZERO, 0, 0, false, 0⟩
  dwCheckPoint := 1
  ghSvcStopEvent := none
  g_listenSocket := false
  main := .register
  handler := .idle
  server := .notCreated
  reports := []
  opened := 0
  closed := 0
  accepted := 0
  clientClosed := 0
  overtaken := false

/-- `closesocket(g_listenSocket)`. -/
def closesocket (s : Service) : Service :=
  { s with closed := if s.g_listenSocket then s.closed + 1 else s.closed }

/-- Statement number `k` of `ReportSvcStatus`. -/
def ReportSvcStatus (s : Service) (r : Report) : Nat → Service
  | 0 => { s with gSvcStatus := { s.gSvcStatus with dwCurrentState := r.dwCurrentState } }
  | 1 => { s with gSvcStatus := { s.gSvcStatus with dwWin32ExitCode := r.dwWin32ExitCode } }
  | 2 => { s with gSvcStatus := { s.gSvcStatus with dwWaitHint := r.dwWaitHint } }
  | 3 => { s with gSvcStatus :=
      { s.gSvcStatus with dwControlsAccepted := r.dwCurrentState ≠ .START_PENDING } }
  | 4 =>
    if r.dwCurrentState = .RUNNING ∨ r.dwCurrentState = .STOPPED then
      { s with gSvcStatus := { s.gSvcStatus with dwCheckPoint := 0 } }
    else
      { s with
        gSvcStatus := { s.gSvcStatus with dwCheckPoint := s.dwCheckPoint }
        dwCheckPoint := s.dwCheckPoint + 1 }
  | _ => { s with reports := s.reports ++ [s.gSvcStatus] }

/-- The number of the call of `SetServiceStatus`. -/
def SET : Nat := 5

/-- What `SvcMain` and `SvcInit` do behind a report. -/
def behind : CurrentState → SvcMain
  | .START_PENDING => .createEvent
  | .RUNNING => .waitStop
  | _ => .returned

def goMain (s : Service) (pc : SvcMain) : Service := { s with main := pc }

def goHandler (s : Service) (pc : SvcCtrlHandler) : Service := { s with handler := pc }

def goServer (s : Service) (pc : TcpServerThread) : Service := { s with server := pc }

/-- The handler has read a state and has not stored it. -/
def lags (s : Service) : Bool :=
  match s.handler with
  | .report true r 0 => r.dwCurrentState ≠ .STOPPED
  | _ => false

/-- Whether the statement overtakes the handler. -/
def overtake (s : Service) (r : Report) (k : Nat) : Service := { s with
  overtaken := s.overtaken || (k = 0 && r.dwCurrentState = CurrentState.STOPPED && s.lags) }

def svcMain (s : Service) (fails : Option Nat) : Option Service :=
  match s.main with
  | .register =>
    some (s.goMain (if fails.isNone then .report ⟨.START_PENDING, 0, 3000⟩ 0 else .returned))
  | .report r k =>
    some (((s.overtake r k).ReportSvcStatus r k).goMain
      (if k = SET then behind r.dwCurrentState else .report r (k + 1)))
  | .createEvent =>
    match fails with
    | none => some ({ s with ghSvcStopEvent := some false }.goMain .createThread)
    | some err => some (s.goMain (.report ⟨.STOPPED, err, 0⟩ 0))
  | .createThread =>
    match fails with
    | none => some ((s.goServer .wsaStartup).goMain (.report ⟨.RUNNING, 0, 0⟩ 0))
    | some err => some (s.goMain (.report ⟨.STOPPED, err, 0⟩ 0))
  | .waitStop => if s.ghSvcStopEvent = some true then some (s.goMain .waitThread) else none
  | .waitThread => if s.server = .ended then some (s.goMain .checkSocket) else none
  | .checkSocket =>
    some (s.goMain (if s.g_listenSocket then .closeSocket else .report ⟨.STOPPED, 0, 0⟩ 0))
  | .closeSocket => some (s.closesocket.goMain .clearSocket)
  | .clearSocket =>
    some ({ s with g_listenSocket := false }.goMain (.report ⟨.STOPPED, 0, 0⟩ 0))
  | .returned => none

/-- The last status says that the service runs and takes a stop. -/
def acceptsStop (s : Service) : Bool :=
  match s.reports.getLast? with
  | some st => st.dwCurrentState = .RUNNING && st.dwControlsAccepted
  | none => false

def stop (s : Service) : Option Service :=
  if s.handler = .idle ∧ s.acceptsStop then
    some (s.goHandler (.report false ⟨.STOP_PENDING, 0, 0⟩ 0))
  else none

def svcCtrlHandler (s : Service) : Option Service :=
  match s.handler with
  | .idle => none
  | .report last r k =>
    some ((s.ReportSvcStatus r k).goHandler
      (if k = SET then (if last then .idle else .setEvent) else .report last r (k + 1)))
  | .setEvent => some ({ s with ghSvcStopEvent := some true }.goHandler .checkSocket)
  | .checkSocket => some (s.goHandler (if s.g_listenSocket then .shutdownSocket else .readState))
  | .shutdownSocket => some (s.goHandler .closeSocket)
  | .closeSocket => some (s.closesocket.goHandler .clearSocket)
  | .clearSocket => some ({ s with g_listenSocket := false }.goHandler .readState)
  | .readState => some (s.goHandler (.report true ⟨s.gSvcStatus.dwCurrentState, 0, 0⟩ 0))

def tcpServerThread (s : Service) (e : ServerEvent) : Option Service :=
  match s.server, e with
  | .wsaStartup, .call ok => some (s.goServer (if ok then .socket else .ended))
  | .socket, .call ok =>
    some (if ok then { s with g_listenSocket := true, opened := s.opened + 1 }.goServer .bind
      else s.goServer .ended)
  | .bind, .call ok => some (s.goServer (if ok then .listen else .closeSocket))
  | .listen, .call ok => some (s.goServer (if ok then .wait else .closeSocket))
  | .wait, .call _ =>
    some (s.goServer (if s.ghSvcStopEvent = some true then .checkSocket else .select))
  | .select, .select none => some (s.goServer .checkSocket)
  | .select, .select (some readable) => some (s.goServer (if readable then .accept else .wait))
  | .accept, .accept => some ({ s with accepted := s.accepted + 1 }.goServer .initTerminal)
  | .accept, .acceptFails err =>
    some (s.goServer (if err = WSAEINTR ∨ err = WSAEWOULDBLOCK then .wait else .checkSocket))
  | .initTerminal, .initTerminal rbuf =>
    if rbuf.length = RBUF_SIZE then some (s.goServer (.relay (.init rbuf))) else none
  | .relay r, .relay e =>
    -- both look at the same event
    if e = .wait (s.ghSvcStopEvent ≠ some true) then none
    else (r.step e).map fun r => s.goServer (if r.left then .closeClient else .relay r)
  | .closeClient, .call _ =>
    some ({ s with clientClosed := s.clientClosed + 1 }.goServer .checkSocket)
  | .checkSocket, .call _ =>
    some (s.goServer (if s.g_listenSocket then .closeSocket else .ended))
  | .closeSocket, .call _ => some (s.closesocket.goServer .clearSocket)
  | .clearSocket, .call _ => some ({ s with g_listenSocket := false }.goServer .ended)
  | _, _ => none

def step (s : Service) : ServiceAct → Option Service
  | .main fails => s.svcMain fails
  | .stop => s.stop
  | .handler => s.svcCtrlHandler
  | .server e => s.tcpServerThread e

end Service

end TiPI.SSHServer
