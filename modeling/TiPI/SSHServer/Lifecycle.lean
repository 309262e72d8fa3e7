import Mathlib.Tactic.IntervalCases
import TiPI.SSHServer.Service

/-!
# The life of the service

The threads go through stages together. The manager is never told that the service has stopped while
the server thread runs. Whether it is told so at last depends on whether `SvcInit` has overtaken the
handler, which stores the state it has read again.
-/

namespace TiPI.SSHServer

namespace Service

variable {s s' : Service} {r : Report} {k : Nat}

/-! ### Reports -/

lemma reportSvcStatus_frame (s : Service) (r : Report) (k : Nat) :
    ∃ st n reports, s.ReportSvcStatus r k =
      { s with gSvcStatus := st, dwCheckPoint := n, reports := reports } := by
  unfold ReportSvcStatus
  split
  · exact ⟨_, _, _, rfl⟩
  · exact ⟨_, _, _, rfl⟩
  · exact ⟨_, _, _, rfl⟩
  · exact ⟨_, _, _, rfl⟩
  · split <;> exact ⟨_, _, _, rfl⟩
  · exact ⟨_, _, _, rfl⟩

def state (s : Service) : CurrentState := s.gSvcStatus.dwCurrentState

/-- The state the manager has been given last. -/
def told (s : Service) : Option CurrentState := s.reports.getLast?.map Status.dwCurrentState

/-- A report stores its state first, and hands over what is stored at its end. -/
lemma reportSvcStatus_cases (s : Service) (r : Report) (hk : k ≤ SET) :
    ((s.ReportSvcStatus r k).state = if k = 0 then r.dwCurrentState else s.state) ∧
      (s.ReportSvcStatus r k).reports =
        if k = SET then s.reports ++ [s.gSvcStatus] else s.reports := by
  unfold SET at hk ⊢
  interval_cases k
  · exact ⟨rfl, rfl⟩
  · exact ⟨rfl, rfl⟩
  · exact ⟨rfl, rfl⟩
  · exact ⟨rfl, rfl⟩
  · by_cases hr : r.dwCurrentState = .RUNNING ∨ r.dwCurrentState = .STOPPED <;>
      simp [ReportSvcStatus, hr, state]
  · exact ⟨rfl, rfl⟩

/-! ### Stages -/

/-- All the states the manager has been given are among these. -/
def Only (s : Service) (states : List CurrentState) : Prop :=
  ∀ st ∈ s.reports, st.dwCurrentState ∈ states

/-- The handler has set the event, or it has been called before. -/
inductive Behind (states : List CurrentState) : SvcCtrlHandler → Prop
  | idle : Behind states .idle
  | checkSocket : Behind states .checkSocket
  | shutdownSocket : Behind states .shutdownSocket
  | closeSocket : Behind states .closeSocket
  | clearSocket : Behind states .clearSocket
  | readState : Behind states .readState
  | report (state : CurrentState) (k : Nat) (hstate : state ∈ states) (hk : k ≤ SET) :
      Behind states (.report true ⟨state, 0, 0⟩ k)

/-- What the threads are doing, and what has been stored and reported by then. -/
inductive Stage (s : Service) : Prop
  | starting (main : s.main = .register ∨
      (∃ k ≤ SET, s.main = .report ⟨.START_PENDING, 0, 3000⟩ k) ∨
        s.main = .createEvent ∨ s.main = .createThread)
      (handler : s.handler = .idle) (server : s.server = .notCreated)
      (event : s.main = .createThread → s.ghSvcStopEvent = some false)
      (only : s.Only [.ZERO, .START_PENDING]) (state : s.state ∈ [.ZERO, .START_PENDING])
      (kept : s.overtaken = false)
  | failed (main : (∃ err, ∃ k ≤ SET, s.main = .report ⟨.STOPPED, err, 0⟩ k) ∨ s.main = .returned)
      (handler : s.handler = .idle) (server : s.server = .notCreated)
      (only : s.Only [.ZERO, .START_PENDING, .STOPPED])
      (state : s.state ∈ [.ZERO, .START_PENDING, .STOPPED]) (kept : s.overtaken = false)
  | launching (k : Nat) (hk : k ≤ SET) (main : s.main = .report ⟨.RUNNING, 0, 0⟩ k)
      (handler : s.handler = .idle) (server : s.server ≠ .notCreated)
      (event : s.ghSvcStopEvent = some false) (only : s.Only [.ZERO, .START_PENDING])
      (stored : 0 < k → s.state = .RUNNING) (kept : s.overtaken = false)
  | running (main : s.main = .waitStop) (handler : s.handler = .idle)
      (server : s.server ≠ .notCreated) (event : s.ghSvcStopEvent = some false)
      (only : s.Only [.ZERO, .START_PENDING, .RUNNING]) (kept : s.overtaken = false)
  | called (k : Nat) (hk : k ≤ SET) (main : s.main = .waitStop)
      (handler : s.handler = .report false ⟨.STOP_PENDING, 0, 0⟩ k)
      (server : s.server ≠ .notCreated) (event : s.ghSvcStopEvent = some false)
      (only : s.Only [.ZERO, .START_PENDING, .RUNNING])
      (stored : 0 < k → s.state = .STOP_PENDING) (kept : s.overtaken = false)
  | signalling (main : s.main = .waitStop) (handler : s.handler = .setEvent)
      (server : s.server ≠ .notCreated) (event : s.ghSvcStopEvent = some false)
      (only : s.Only [.ZERO, .START_PENDING, .RUNNING, .STOP_PENDING])
      (state : s.state = .STOP_PENDING) (told : s.told = some .STOP_PENDING)
      (kept : s.overtaken = false)
  | stopping (main : (s.main = .waitStop ∨ s.main = .waitThread) ∨ s.server = .ended ∧
        (s.main = .checkSocket ∨ s.main = .closeSocket ∨ s.main = .clearSocket ∨
          s.main = .report ⟨.STOPPED, 0, 0⟩ 0))
      (handler : Behind [.STOP_PENDING] s.handler) (server : s.server ≠ .notCreated)
      (event : s.ghSvcStopEvent = some true)
      (only : s.Only [.ZERO, .START_PENDING, .RUNNING, .STOP_PENDING])
      (state : s.state = .STOP_PENDING) (told : s.told = some .STOP_PENDING)
      (kept : s.overtaken = false)
  /-- `SvcInit` has stored `STOPPED` -/
  | stopped (main : (∃ k ≤ SET, 0 < k ∧ s.main = .report ⟨.STOPPED, 0, 0⟩ k) ∨ s.main = .returned)
      (handler : Behind [.STOP_PENDING, .STOPPED] s.handler) (server : s.server = .ended)
      (event : s.ghSvcStopEvent = some true)
      (told : s.told = some .STOP_PENDING ∨ s.told = some .STOPPED)
      (lags : s.lags → s.overtaken = true ∧ s.state = .STOPPED)
      (state : s.lags = false → s.state = if s.overtaken then .STOP_PENDING else .STOPPED)
      (overtaken : s.overtaken →
        s.handler = .idle ∨ ∃ k, s.handler = .report true ⟨.STOP_PENDING, 0, 0⟩ k)
      (synced : s.main = .returned → (∀ r k, s.handler = .report true r k → k = 0) →
        s.told = some s.state)

lemma stage_init : init.Stage :=
  .starting (.inl rfl) rfl rfl (by simp [init]) (by simp [Only, init]) (by simp [state, init]) rfl

/-! ### The server thread -/

/-- The parts of the server thread, by the sockets it has. -/
inductive Part
  | notCreated
  | noSocket
  | listening
  | connected
  | closing
  | clearing
  | ended
  deriving DecidableEq

def part : TcpServerThread → Part
  | .notCreated => .notCreated
  | .wsaStartup | .socket => .noSocket
  | .bind | .listen | .wait | .select | .accept => .listening
  | .initTerminal | .relay _ | .closeClient => .connected
  | .checkSocket | .closeSocket => .closing
  | .clearSocket => .clearing
  | .ended => .ended

inductive ServerCase (s : Service) : Service → Prop
  | goes (pc : TcpServerThread) (hpart : part pc = part s.server) (hpc : ∀ r, pc ≠ .relay r)
      (hs : s.server ≠ .notCreated) (hs' : s.server ≠ .ended) : ServerCase s (s.goServer pc)
  | fails (hs : part s.server = .noSocket) : ServerCase s (s.goServer .ended)
  | opens (hs : part s.server = .noSocket) :
      ServerCase s ({ s with g_listenSocket := true, opened := s.opened + 1 }.goServer .bind)
  | leaves (pc : TcpServerThread) (hs : part s.server = .listening) (hpc : part pc = .closing) :
      ServerCase s (s.goServer pc)
  | accepts (hs : part s.server = .listening) :
      ServerCase s ({ s with accepted := s.accepted + 1 }.goServer .initTerminal)
  | connects (rbuf : List UInt8) (hlen : rbuf.length = RBUF_SIZE)
      (hs : part s.server = .connected) : ServerCase s (s.goServer (.relay (.init rbuf)))
  | relays (r r' : Relay) (e : Event) (hs : s.server = .relay r) (hstep : r.step e = some r') :
      ServerCase s (s.goServer (if r'.left then .closeClient else .relay r'))
  | disconnects (hs : part s.server = .connected) :
      ServerCase s ({ s with clientClosed := s.clientClosed + 1 }.goServer .checkSocket)
  | finds (hs : part s.server = .closing) (hg : s.g_listenSocket = false) :
      ServerCase s (s.goServer .ended)
  | closes (hs : part s.server = .closing) : ServerCase s (s.closesocket.goServer .clearSocket)
  | clears (hs : part s.server = .clearing) :
      ServerCase s ({ s with g_listenSocket := false }.goServer .ended)

lemma tcpServerThread_cases {e : ServerEvent} (h : s.tcpServerThread e = some s') :
    ServerCase s s' := by
  unfold tcpServerThread at h
  split at h
  · next ok hs =>
    obtain rfl := Option.some.inj h
    cases ok with
    | true => exact .goes _ (by rw [hs]; rfl) (by simp) (by simp [hs]) (by simp [hs])
    | false => exact .fails (by rw [hs]; rfl)
  · next ok hs =>
    obtain rfl := Option.some.inj h
    cases ok with
    | true => exact .opens (by rw [hs]; rfl)
    | false => exact .fails (by rw [hs]; rfl)
  · next ok hs =>
    obtain rfl := Option.some.inj h
    cases ok with
    | true => exact .goes _ (by rw [hs]; rfl) (by simp) (by simp [hs]) (by simp [hs])
    | false => exact .leaves _ (by rw [hs]; rfl) rfl
  · next ok hs =>
    obtain rfl := Option.some.inj h
    cases ok with
    | true => exact .goes _ (by rw [hs]; rfl) (by simp) (by simp [hs]) (by simp [hs])
    | false => exact .leaves _ (by rw [hs]; rfl) rfl
  · next ok hs =>
    obtain rfl := Option.some.inj h
    split
    · exact .leaves _ (by rw [hs]; rfl) rfl
    · exact .goes _ (by rw [hs]; rfl) (by simp) (by simp [hs]) (by simp [hs])
  · next hs =>
    obtain rfl := Option.some.inj h
    exact .leaves _ (by rw [hs]; rfl) rfl
  · next readable hs =>
    obtain rfl := Option.some.inj h
    refine .goes _ ?_ ?_ (by simp [hs]) (by simp [hs])
    · rw [hs]
      cases readable <;> rfl
    · cases readable <;> simp
  · next hs =>
    obtain rfl := Option.some.inj h
    exact .accepts (by rw [hs]; rfl)
  · next err hs =>
    obtain rfl := Option.some.inj h
    split
    · exact .goes _ (by rw [hs]; rfl) (by simp) (by simp [hs]) (by simp [hs])
    · exact .leaves _ (by rw [hs]; rfl) rfl
  · next rbuf hs =>
    obtain ⟨hlen, h⟩ := Option.ite_none_right_eq_some.1 h
    obtain rfl := Option.some.inj h
    exact .connects rbuf hlen (by rw [hs]; rfl)
  · next r e hs =>
    obtain ⟨-, h⟩ := Option.ite_none_left_eq_some.1 h
    obtain ⟨r', hstep, rfl⟩ := Option.map_eq_some_iff.1 h
    exact .relays r r' e hs hstep
  · next ok hs =>
    obtain rfl := Option.some.inj h
    exact .disconnects (by rw [hs]; rfl)
  · next ok hs =>
    obtain rfl := Option.some.inj h
    cases hg : s.g_listenSocket with
    | true => exact .goes _ (by rw [hs]; rfl) (by simp) (by simp [hs]) (by simp [hs])
    | false => exact .finds (by rw [hs]; rfl) hg
  · next ok hs =>
    obtain rfl := Option.some.inj h
    exact .closes (by rw [hs]; rfl)
  · next ok hs =>
    obtain rfl := Option.some.inj h
    exact .clears (by rw [hs]; rfl)
  · simp at h

/-- The server thread touches neither the status nor the other threads. -/
lemma ServerCase.frame (h : ServerCase s s') :
    s.server ≠ .notCreated ∧ s.server ≠ .ended ∧ s'.server ≠ .notCreated ∧
      ∃ g server opened closed accepted clientClosed, s' = { s with
        g_listenSocket := g, server := server, opened := opened, closed := closed
        accepted := accepted, clientClosed := clientClosed } := by
  have hpart : ∀ {p}, part s.server = p → p ≠ .notCreated → p ≠ .ended →
      s.server ≠ .notCreated ∧ s.server ≠ .ended := by
    rintro p rfl hn he
    exact ⟨fun hs => hn (by rw [hs]; rfl), fun hs => he (by rw [hs]; rfl)⟩
  cases h with
  | goes pc hpart' hpc hs hs' =>
    refine ⟨hs, hs', ?_, _, _, _, _, _, _, rfl⟩
    intro hpc'
    rw [show pc = .notCreated from hpc'] at hpart'
    cases hserver : s.server <;> simp [hserver, part] at hpart' hs
  | fails hs | opens hs | accepts hs | connects _ _ hs | disconnects hs | finds hs | closes hs
  | clears hs =>
    obtain ⟨hn, he⟩ := hpart hs (by decide) (by decide)
    exact ⟨hn, he, by simp [goServer], _, _, _, _, _, _, rfl⟩
  | leaves pc hs hpc =>
    obtain ⟨hn, he⟩ := hpart hs (by decide) (by decide)
    refine ⟨hn, he, ?_, _, _, _, _, _, _, rfl⟩
    intro hpc'
    rw [show pc = .notCreated from hpc'] at hpc
    cases hpc
  | relays r r' e hs =>
    refine ⟨by simp [hs], by simp [hs], ?_, _, _, _, _, _, _, rfl⟩
    simp only [goServer]
    split <;> simp

lemma ServerCase.stage (h : ServerCase s s') (hs : s.Stage) : s'.Stage := by
  obtain ⟨hcreated, hrunning, hstays, g, server, opened, closed, accepted, clientClosed, rfl⟩ :=
    h.frame
  cases hs with
  | starting _ _ server => exact absurd server hcreated
  | failed _ _ server => exact absurd server hcreated
  | launching k hk main handler _ event only stored kept =>
    exact .launching k hk main handler hstays event only stored kept
  | running main handler _ event only kept => exact .running main handler hstays event only kept
  | called k hk main handler _ event only stored kept =>
    exact .called k hk main handler hstays event only stored kept
  | signalling main handler _ event only state told kept =>
    exact .signalling main handler hstays event only state told kept
  | stopping main handler _ event only state told kept =>
    refine .stopping (.inl ?_) handler hstays event only state told kept
    exact main.resolve_right fun hended => hrunning hended.1
  | stopped _ _ server => exact absurd server hrunning

/-! ### The other threads -/

lemma Only.mono {states states' : List CurrentState} (h : s.Only states) (hsub : states ⊆ states') :
    s.Only states' := fun st hst => hsub (h st hst)

/-- A report that has just been handed over. -/
lemma told_append {s' : Service} (h : s'.reports = s.reports ++ [s.gSvcStatus]) :
    s'.told = some s.state := by
  rw [told, h, List.getLast?_concat]
  rfl

lemma Only.append {states : List CurrentState} (h : s.Only states) (hs : s.state ∈ states)
    (heq : s'.reports = s.reports ++ [s.gSvcStatus]) : s'.Only states := by
  intro st hst
  rw [heq, List.mem_append, List.mem_singleton] at hst
  rcases hst with hst | rfl
  · exact h st hst
  · exact hs

/-- What statement number `k` of a report leaves to the stages. -/
structure Reports (s s' : Service) (r : Report) (k : Nat) : Prop where
  state : s'.state = if k = 0 then r.dwCurrentState else s.state
  reports : s'.reports = if k = SET then s.reports ++ [s.gSvcStatus] else s.reports
  server : s'.server = s.server
  event : s'.ghSvcStopEvent = s.ghSvcStopEvent

lemma Reports.only {states : List CurrentState} (h : Reports s s' r k) (honly : s.Only states)
    (hs : k = SET → s.state ∈ states) : s'.Only states := by
  have heq := h.reports
  by_cases hk : k = SET
  · rw [if_pos hk] at heq
    exact honly.append (hs hk) heq
  · rw [if_neg hk] at heq
    intro st hst
    exact honly st (heq ▸ hst)

lemma Reports.told_set (h : Reports s s' r SET) : s'.told = some s.state :=
  told_append (by simpa using h.reports)

lemma Reports.told_keep (h : Reports s s' r k) (hk : k ≠ SET) : s'.told = s.told := by
  rw [told, told, h.reports, if_neg hk]

lemma Reports.stored {st : CurrentState} (h : Reports s s' r k) (hr : r.dwCurrentState = st)
    (hs : 0 < k → s.state = st) : s'.state = st := by
  rw [h.state]
  split_ifs with hk
  · exact hr
  · exact hs (Nat.pos_of_ne_zero hk)

lemma svcMain_report {fails : Option Nat} (hm : s.main = .report r k) (hk : k ≤ SET)
    (h : s.svcMain fails = some s') : Reports s s' r k ∧ s'.handler = s.handler ∧
      s'.main = (if k = SET then behind r.dwCurrentState else .report r (k + 1)) ∧
      s'.overtaken =
        (s.overtaken || (k = 0 && r.dwCurrentState = CurrentState.STOPPED && s.lags)) := by
  simp only [svcMain, hm, Option.some.injEq] at h
  subst h
  obtain ⟨hstate, hreports⟩ := (s.overtake r k).reportSvcStatus_cases r hk
  obtain ⟨st, n, reports, hframe⟩ := (s.overtake r k).reportSvcStatus_frame r k
  exact ⟨⟨hstate, hreports, by rw [hframe]; rfl, by rw [hframe]; rfl⟩, by rw [hframe]; rfl, rfl,
    by rw [hframe]; rfl⟩

lemma svcCtrlHandler_report {last : Bool} (hh : s.handler = .report last r k) (hk : k ≤ SET)
    (h : s.svcCtrlHandler = some s') : Reports s s' r k ∧ s'.main = s.main ∧
      s'.handler = (if k = SET then (if last then .idle else .setEvent)
        else .report last r (k + 1)) ∧ s'.overtaken = s.overtaken := by
  simp only [svcCtrlHandler, hh, Option.some.injEq] at h
  subst h
  obtain ⟨hstate, hreports⟩ := s.reportSvcStatus_cases r hk
  obtain ⟨st, n, reports, hframe⟩ := s.reportSvcStatus_frame r k
  exact ⟨⟨hstate, hreports, by rw [hframe]; rfl, by rw [hframe]; rfl⟩, by rw [hframe]; rfl, rfl,
    by rw [hframe]; rfl⟩

lemma Behind.mono {states states' : List CurrentState} {pc : SvcCtrlHandler}
    (h : Behind states pc) (hsub : states ⊆ states') : Behind states' pc := by
  cases h with
  | report state k hstate hk => exact .report state k (hsub hstate) hk
  | idle => exact .idle
  | checkSocket => exact .checkSocket
  | shutdownSocket => exact .shutdownSocket
  | closeSocket => exact .closeSocket
  | clearSocket => exact .clearSocket
  | readState => exact .readState

/-- A handler that lags has to store `STOP_PENDING`. -/
lemma lags_iff {states : List CurrentState} (h : Behind states s.handler)
    (hsub : states ⊆ [.STOP_PENDING, .STOPPED]) :
    s.lags = true ↔ s.handler = .report true ⟨.STOP_PENDING, 0, 0⟩ 0 := by
  unfold lags
  generalize s.handler = pc at h ⊢
  cases h with
  | report state k hstate hk =>
    have hmem := hsub hstate
    simp only [List.mem_cons, List.not_mem_nil, or_false] at hmem
    cases k with
    | zero => rcases hmem with rfl | rfl <;> simp
    | succ k => simp
  | idle | checkSocket | shutdownSocket | closeSocket | clearSocket | readState => simp

lemma lags_idle (h : s.handler = .idle) : s.lags = false := by rw [lags, h]

lemma lags_stored (h : s.handler = .report true r k) (hk : 0 < k) : s.lags = false := by
  cases k with
  | zero => cases hk
  | succ k => simp [lags, h]

lemma overtaken_report {b : Bool} (hkept : s.overtaken = false) (hb : b = false ∨ s.lags = false) :
    (s.overtaken || (b && s.lags)) = false := by
  rcases hb with hb | hb <;> simp [hkept, hb]

/-! ### Steps of `SvcInit` -/

lemma Stage.svcMain {fails : Option Nat} (h : s.Stage) (hstep : s.svcMain fails = some s') :
    s'.Stage := by
  cases h with
  | starting main handler server event only state kept =>
    rcases main with hm | ⟨k, hk, hm⟩ | hm | hm
    · simp only [Service.svcMain, hm, Option.some.injEq] at hstep
      subst hstep
      cases fails with
      | none =>
        exact .starting (.inr (.inl ⟨0, Nat.zero_le _, rfl⟩)) handler server (by simp [goMain]) only
          state kept
      | some err =>
        exact .failed (.inr rfl) handler server (only.mono (by simp)) (by revert state; simp; tauto)
          kept
    · obtain ⟨hr, hhandler, hmain, hover⟩ := svcMain_report hm hk hstep
      have hstate : s'.state ∈ [.ZERO, .START_PENDING] := by
        rw [hr.state]
        split_ifs
        · simp
        · exact state
      refine .starting ?_ (hhandler.trans handler) (hr.server.trans server) ?_
        (hr.only only fun _ => state) hstate (by simpa [kept] using hover)
      · by_cases hset : k = SET
        · rw [if_pos hset] at hmain
          exact .inr (.inr (.inl hmain))
        · rw [if_neg hset] at hmain
          exact .inr (.inl ⟨k + 1, by omega, hmain⟩)
      · intro hcreate
        rw [hmain] at hcreate
        split at hcreate <;> simp [behind] at hcreate
    · simp only [Service.svcMain, hm] at hstep
      cases fails with
      | none =>
        obtain rfl := Option.some.inj hstep
        exact .starting (.inr (.inr (.inr rfl))) handler server (fun _ => rfl) only state kept
      | some err =>
        obtain rfl := Option.some.inj hstep
        exact .failed (.inl ⟨err, 0, Nat.zero_le _, rfl⟩) handler server (only.mono (by simp))
          (by revert state; simp; tauto) kept
    · simp only [Service.svcMain, hm] at hstep
      cases fails with
      | none =>
        obtain rfl := Option.some.inj hstep
        exact .launching 0 (Nat.zero_le _) rfl handler (by simp [goServer, goMain]) (event hm) only
          (by simp) kept
      | some err =>
        obtain rfl := Option.some.inj hstep
        exact .failed (.inl ⟨err, 0, Nat.zero_le _, rfl⟩) handler server (only.mono (by simp))
          (by revert state; simp; tauto) kept
  | failed main handler server only state kept =>
    rcases main with ⟨err, k, hk, hm⟩ | hm
    · obtain ⟨hr, hhandler, hmain, hover⟩ := svcMain_report hm hk hstep
      have hstate : s'.state ∈ [.ZERO, .START_PENDING, .STOPPED] := by
        rw [hr.state]
        split_ifs
        · simp
        · exact state
      refine .failed ?_ (hhandler.trans handler) (hr.server.trans server)
        (hr.only only fun _ => state) hstate ?_
      · by_cases hset : k = SET
        · rw [if_pos hset] at hmain
          exact .inr hmain
        · rw [if_neg hset] at hmain
          exact .inl ⟨err, k + 1, by omega, hmain⟩
      · rw [hover]
        exact overtaken_report kept (.inr (lags_idle handler))
    · simp [Service.svcMain, hm] at hstep
  | launching k hk main handler server event only stored kept =>
    obtain ⟨hr, hhandler, hmain, hover⟩ := svcMain_report main hk hstep
    have hkept : s'.overtaken = false := by simpa [kept] using hover
    by_cases hset : k = SET
    · rw [if_pos hset] at hmain
      refine .running hmain (hhandler.trans handler) (hr.server ▸ server) (hr.event.trans event)
        (hr.only (only.mono (by simp)) fun _ => ?_) hkept
      rw [stored (by rw [hset]; decide)]
      simp
    · rw [if_neg hset] at hmain
      exact .launching (k + 1) (by omega) hmain (hhandler.trans handler) (hr.server ▸ server)
        (hr.event.trans event) (hr.only only fun heq => absurd heq hset)
        (fun _ => hr.stored rfl stored) hkept
  | running main _ _ event | called _ _ main _ _ event | signalling main _ _ event =>
    simp [Service.svcMain, main, event] at hstep
  | stopping main handler server event only state told kept =>
    rcases main with (hm | hm) | ⟨hended, hm | hm | hm | hm⟩
    · simp only [Service.svcMain, hm, event, if_true, Option.some.injEq] at hstep
      subst hstep
      exact .stopping (.inl (.inr rfl)) handler server event only state told kept
    · simp only [Service.svcMain, hm, Option.ite_none_right_eq_some, Option.some.injEq] at hstep
      obtain ⟨hended, rfl⟩ := hstep
      exact .stopping (.inr ⟨hended, .inl rfl⟩) handler server event only state told kept
    · simp only [Service.svcMain, hm, Option.some.injEq] at hstep
      subst hstep
      refine .stopping (.inr ⟨hended, ?_⟩) handler server event only state told kept
      cases s.g_listenSocket <;> simp [goMain]
    · simp only [Service.svcMain, hm, Option.some.injEq] at hstep
      subst hstep
      exact .stopping (.inr ⟨hended, by simp [goMain]⟩) handler server event only state told kept
    · simp only [Service.svcMain, hm, Option.some.injEq] at hstep
      subst hstep
      exact .stopping (.inr ⟨hended, by simp [goMain]⟩) handler server event only state told kept
    · obtain ⟨hr, hhandler, hmain, hover⟩ := svcMain_report hm (Nat.zero_le _) hstep
      rw [if_neg (by decide)] at hmain
      have hlags : s'.lags = s.lags := by rw [lags, lags, hhandler]
      have hstate : s'.state = .STOPPED := hr.state
      have hover' : s'.overtaken = s.lags := by simpa [kept] using hover
      refine .stopped (.inl ⟨1, by decide, by decide, hmain⟩)
        (hhandler ▸ handler.mono (by simp)) (hr.server.trans hended) (hr.event.trans event)
        (.inl ((hr.told_keep (by decide)).trans told)) ?_ ?_ ?_ ?_
      · intro hl
        exact ⟨hover'.trans (hlags ▸ hl), hstate⟩
      · intro hl
        rw [hover', ← hlags, hl]
        exact hstate
      · intro ho
        rw [hover', lags_iff handler (by simp)] at ho
        exact .inr ⟨0, hhandler.trans ho⟩
      · intro hret
        rw [hmain] at hret
        cases hret
  | stopped main handler server event told lags state overtaken synced =>
    rcases main with ⟨k, hk, hpos, hm⟩ | hm
    · obtain ⟨hr, hhandler, hmain, hover⟩ := svcMain_report hm hk hstep
      have hlags : s'.lags = s.lags := by rw [Service.lags, Service.lags, hhandler]
      have hover' : s'.overtaken = s.overtaken := by simpa [hpos.ne'] using hover
      have hstate : s'.state = s.state := by rw [hr.state, if_neg hpos.ne']
      have hvalue : s.state = .STOP_PENDING ∨ s.state = .STOPPED := by
        cases hl : s.lags with
        | true => exact .inr (lags hl).2
        | false =>
          have heq := state hl
          split at heq
          · exact .inl heq
          · exact .inr heq
      have hkept : (s'.main = .returned → (∀ r k, s'.handler = .report true r k → k = 0) →
          s'.told = some s'.state) → (s'.told = some .STOP_PENDING ∨ s'.told = some .STOPPED) →
          ((∃ k ≤ SET, 0 < k ∧ s'.main = .report ⟨.STOPPED, 0, 0⟩ k) ∨ s'.main = .returned) →
          s'.Stage := by
        intro hsynced htold hmain'
        refine .stopped hmain' (hhandler ▸ handler) (hr.server.trans server)
          (hr.event.trans event) htold ?_ ?_ ?_ hsynced
        · rw [hlags, hover', hstate]
          exact lags
        · rw [hlags, hover', hstate]
          exact state
        · rw [hover', hhandler]
          exact overtaken
      by_cases hset : k = SET
      · subst hset
        refine hkept (fun _ _ => ?_) ?_ (.inr (by simpa [behind] using hmain))
        · rw [hr.told_set, hstate]
        · rw [hr.told_set, Option.some_inj, Option.some_inj]
          exact hvalue
      · rw [if_neg hset] at hmain
        refine hkept (fun hret => ?_) ?_ (.inl ⟨k + 1, by omega, Nat.succ_pos _, hmain⟩)
        · rw [hmain] at hret
          cases hret
        · rwa [hr.told_keep hset]
    · simp [Service.svcMain, hm] at hstep

/-! ### Steps of the handler -/

lemma told_of_acceptsStop (h : s.acceptsStop = true) :
    s.told = some .RUNNING ∧ ∃ st ∈ s.reports, st.dwCurrentState = .RUNNING := by
  unfold acceptsStop at h
  split at h
  · next st hlast =>
    simp only [Bool.and_eq_true, decide_eq_true_eq] at h
    exact ⟨by rw [told, hlast, Option.map_some, h.1], st, List.mem_of_getLast? hlast, h.1⟩
  · cases h

lemma Stage.stop (h : s.Stage) (hstep : s.stop = some s') : s'.Stage := by
  simp only [Service.stop, Option.ite_none_right_eq_some, Option.some.injEq] at hstep
  obtain ⟨⟨hidle, hstop⟩, rfl⟩ := hstep
  obtain ⟨htold, st, hst, hrun⟩ := told_of_acceptsStop hstop
  have hno : ∀ {states}, s.Only states → CurrentState.RUNNING ∉ states → False :=
    fun honly hmem => hmem (hrun ▸ honly st hst)
  cases h with
  | starting _ _ _ _ only => exact (hno only (by simp)).elim
  | failed _ _ _ only => exact (hno only (by simp)).elim
  | launching _ _ _ _ _ _ only => exact (hno only (by simp)).elim
  | running main handler server event only kept =>
    exact .called 0 (Nat.zero_le _) main rfl server event only (by simp) kept
  | called k hk main handler => simp [handler] at hidle
  | signalling main handler => simp [handler] at hidle
  | stopping main handler server event only state told => simp [told] at htold
  | stopped main handler server event told => simp [htold] at told

/-- The steps of the handler behind `SetEvent`. -/
inductive HandlerCase (states : List CurrentState) (s : Service) : Service → Prop
  | goes (g : Bool) (closed : Nat) (pc : SvcCtrlHandler)
      (hs : ∀ last r k, s.handler ≠ .report last r k)
      (hidle : s.handler ≠ .idle) (hpc : ∀ last r k, pc ≠ .report last r k)
      (hbehind : Behind states pc) :
      HandlerCase states s { s with g_listenSocket := g, closed := closed, handler := pc }
  | reads (hs : s.handler = .readState) :
      HandlerCase states s (s.goHandler (.report true ⟨s.state, 0, 0⟩ 0))
  | reports (s' : Service) (state : CurrentState) (k : Nat) (hstate : state ∈ states) (hk : k ≤ SET)
      (hs : s.handler = .report true ⟨state, 0, 0⟩ k) (hr : Reports s s' ⟨state, 0, 0⟩ k)
      (main : s'.main = s.main)
      (handler : s'.handler = if k = SET then .idle else .report true ⟨state, 0, 0⟩ (k + 1))
      (overtaken : s'.overtaken = s.overtaken) : HandlerCase states s s'

lemma Behind.cases {states : List CurrentState} (h : Behind states s.handler)
    (hstep : s.svcCtrlHandler = some s') : HandlerCase states s s' := by
  generalize hpc : s.handler = pc at h
  cases h with
  | idle => simp [Service.svcCtrlHandler, hpc] at hstep
  | checkSocket =>
    simp only [Service.svcCtrlHandler, hpc, Option.some.injEq] at hstep
    subst hstep
    refine .goes _ _ _ (by simp [hpc]) (by simp [hpc]) ?_ ?_
    · cases s.g_listenSocket <;> simp
    · cases s.g_listenSocket
      · exact .readState
      · exact .shutdownSocket
  | shutdownSocket =>
    simp only [Service.svcCtrlHandler, hpc, Option.some.injEq] at hstep
    subst hstep
    exact .goes _ _ _ (by simp [hpc]) (by simp [hpc]) (by simp) .closeSocket
  | closeSocket =>
    simp only [Service.svcCtrlHandler, hpc, Option.some.injEq] at hstep
    subst hstep
    exact .goes _ _ _ (by simp [hpc]) (by simp [hpc]) (by simp) .clearSocket
  | clearSocket =>
    simp only [Service.svcCtrlHandler, hpc, Option.some.injEq] at hstep
    subst hstep
    exact .goes _ _ _ (by simp [hpc]) (by simp [hpc]) (by simp) .readState
  | readState =>
    simp only [Service.svcCtrlHandler, hpc, Option.some.injEq] at hstep
    subst hstep
    exact .reads hpc
  | report state k hstate hk =>
    obtain ⟨hr, hmain, hhandler, hover⟩ := svcCtrlHandler_report hpc hk hstep
    exact .reports s' state k hstate hk hpc hr hmain (by simpa using hhandler) hover

lemma Stage.svcCtrlHandler (h : s.Stage) (hstep : s.svcCtrlHandler = some s') : s'.Stage := by
  cases h with
  | starting _ handler | failed _ handler | launching _ _ _ handler | running _ handler =>
    simp [Service.svcCtrlHandler, handler] at hstep
  | called k hk main handler server event only stored kept =>
    obtain ⟨hr, hmain, hhandler, hover⟩ := svcCtrlHandler_report handler hk hstep
    by_cases hset : k = SET
    · subst hset
      have hstate : s.state = .STOP_PENDING := stored (by decide)
      refine .signalling (hmain.trans main) (by simpa using hhandler) (hr.server ▸ server)
        (hr.event.trans event) (hr.only (only.mono (by simp)) fun _ => ?_) (hr.stored rfl stored) ?_
        (hover.trans kept)
      · rw [hstate]
        simp
      · rw [hr.told_set, hstate]
    · rw [if_neg hset] at hhandler
      exact .called (k + 1) (by omega) (hmain.trans main) hhandler (hr.server ▸ server)
        (hr.event.trans event) (hr.only only fun heq => absurd heq hset)
        (fun _ => hr.stored rfl stored) (hover.trans kept)
  | signalling main handler server event only state told kept =>
    simp only [Service.svcCtrlHandler, handler, Option.some.injEq] at hstep
    subst hstep
    exact .stopping (.inl (.inl main)) .checkSocket server rfl only state told kept
  | stopping main handler server event only state told kept =>
    cases handler.cases hstep with
    | goes g closed pc hs hidle hpc hbehind =>
      exact .stopping main hbehind server event only state told kept
    | reads hs =>
      refine .stopping main ?_ server event only state told kept
      exact .report s.state 0 (by simp [state]) (Nat.zero_le _)
    | reports s' st k hst hk hs hr hmain hhandler hover =>
      obtain rfl : st = .STOP_PENDING := by simpa using hst
      refine .stopping ?_ ?_ (hr.server ▸ server) (hr.event.trans event)
        (hr.only only fun _ => by simp [state]) (hr.stored rfl fun _ => state) ?_ (hover.trans kept)
      · rwa [hmain, hr.server]
      · rw [hhandler]
        split
        · exact .idle
        · exact .report _ _ hst (by omega)
      · by_cases hset : k = SET
        · subst hset
          rw [hr.told_set, state]
        · rwa [hr.told_keep hset]
  | stopped main handler server event told lags state overtaken synced =>
    cases handler.cases hstep with
    | goes g closed pc hs hidle hpc hbehind =>
      have hlags : s.lags = false := by
        by_contra hl
        rw [Bool.not_eq_false, lags_iff handler (by simp)] at hl
        exact hs _ _ _ hl
      have hlags' : { s with g_listenSocket := g, closed := closed, handler := pc }.lags
          = false := by
        by_contra hl
        rw [Bool.not_eq_false, lags_iff hbehind (by simp)] at hl
        exact hpc _ _ _ hl
      refine .stopped main hbehind server event told (by simp [hlags']) (fun _ => state hlags) ?_ ?_
      · intro ho
        rcases overtaken ho with hs' | ⟨k, hs'⟩
        · exact absurd hs' hidle
        · exact absurd hs' (hs _ _ _)
      · intro hret _
        exact synced hret fun r k hs' => absurd hs' (hs _ _ _)
    | reads hs =>
      have hkept : s.overtaken = false := by
        by_contra ho
        rcases overtaken (by simpa using ho) with hs' | ⟨k, hs'⟩ <;> simp [hs] at hs'
      have hlags : s.lags = false := by simp [Service.lags, hs]
      have hstate : s.state = .STOPPED := by simpa [hkept] using state hlags
      refine .stopped main ?_ server event told ?_ ?_ ?_ ?_
      · exact .report s.state 0 (by simp [hstate]) (Nat.zero_le _)
      · simp [Service.lags, goHandler, hstate]
      · exact fun _ => state hlags
      · intro ho
        simp [goHandler, hkept] at ho
      · intro hret _
        exact synced hret (by simp [hs])
    | reports s' st k hst hk hs hr hmain hhandler hover =>
      have hlags' : s'.lags = false := by
        by_cases hset : k = SET
        · exact lags_idle (by rw [hhandler, if_pos hset])
        · exact lags_stored (by rw [hhandler, if_neg hset]) (Nat.succ_pos _)
      have hpos : 0 < k → s.lags = false ∧ s'.state = s.state := by
        intro hpos
        exact ⟨lags_stored hs hpos, by rw [hr.state, if_neg hpos.ne']⟩
      have hvalue : s'.state = if s'.overtaken then .STOP_PENDING else .STOPPED := by
        rw [hover]
        rcases Nat.eq_zero_or_pos k with rfl | hk'
        · have hstate : s'.state = st := hr.state
          cases ho : s.overtaken with
          | true =>
            rcases overtaken ho with hs' | ⟨k, hs'⟩
            · rw [hs] at hs'
              cases hs'
            · rw [hs] at hs'
              cases hs'
              exact hstate
          | false =>
            have hno : s.lags = false := by
              by_contra hl
              simp [(lags (by simpa using hl)).1] at ho
            rw [Service.lags, hs] at hno
            rw [hstate]
            simpa using hno
        · rw [(hpos hk').2]
          exact state (hpos hk').1
      refine .stopped (hmain ▸ main) ?_ (hr.server.trans server) (hr.event.trans event) ?_
        (by simp [hlags']) (fun _ => hvalue) ?_ ?_
      · rw [hhandler]
        split
        · exact .idle
        · exact .report _ _ hst (by omega)
      · by_cases hset : k = SET
        · have hsame := (hpos (by rw [hset]; decide)).2
          subst hset
          rw [hr.told_set, ← hsame, hvalue]
          cases s'.overtaken <;> simp
        · rwa [hr.told_keep hset]
      · intro ho
        rw [hover] at ho
        rcases overtaken ho with hs' | ⟨k', hs'⟩
        · rw [hs] at hs'
          cases hs'
        · rw [hs] at hs'
          cases hs'
          rw [hhandler]
          split
          · exact .inl rfl
          · exact .inr ⟨_, rfl⟩
      · intro hret hnot
        by_cases hset : k = SET
        · have hsame := (hpos (by rw [hset]; decide)).2
          subst hset
          rw [hr.told_set, hsame]
        · rw [if_neg hset] at hhandler
          cases hnot _ _ hhandler

/-! ### Sockets -/

/-- The sockets the server thread has in each of its parts. -/
def Counts (s : Service) : Part → Prop
  | .notCreated | .noSocket => s.opened = 0 ∧ s.accepted = 0 ∧ s.clientClosed = 0
  | .listening => s.opened = 1 ∧ s.accepted = 0 ∧ s.clientClosed = 0
  | .connected => s.opened = 1 ∧ s.accepted = 1 ∧ s.clientClosed = 0
  | .closing => s.opened = 1 ∧ s.accepted ≤ 1 ∧ s.clientClosed = s.accepted
  | .clearing => s.opened = 1 ∧ 0 < s.closed ∧ s.accepted ≤ 1 ∧ s.clientClosed = s.accepted
  | .ended =>
    s.opened ≤ 1 ∧ s.g_listenSocket = false ∧ s.accepted ≤ 1 ∧ s.clientClosed = s.accepted

structure Sockets (s : Service) : Prop where
  counts : s.Counts (part s.server)
  valid : s.g_listenSocket = true → s.opened = 1
  invalid : s.g_listenSocket = false → s.opened = 1 → 0 < s.closed
  /-- the socket is invalid when `SvcInit` looks at it -/
  main : s.main ≠ .closeSocket ∧ s.main ≠ .clearSocket
  handler : s.handler = .shutdownSocket ∨ s.handler = .closeSocket → s.opened = 1
  handlerClear : s.handler = .clearSocket → s.opened = 1 ∧ 0 < s.closed
  relay : ∀ r, s.server = .relay r →
    ∃ rbuf : List UInt8, rbuf.length = RBUF_SIZE ∧ Reach Relay.step (.init rbuf) r

lemma sockets_init : init.Sockets := by
  constructor <;> simp [init, Counts, part]

lemma closed_le_closesocket (s : Service) : s.closed ≤ s.closesocket.closed := by
  simp only [closesocket]
  split <;> omega

lemma Sockets.opened_le (h : s.Sockets) : s.opened ≤ 1 := by
  have hcounts := h.counts
  cases hp : part s.server with
  | notCreated | noSocket => exact (hp ▸ hcounts).1.le.trans (Nat.zero_le 1)
  | listening | connected | closing | clearing => exact (hp ▸ hcounts).1.le
  | ended => exact (hp ▸ hcounts).1

lemma Sockets.accepted_le (h : s.Sockets) : s.accepted ≤ 1 := by
  have hcounts := h.counts
  cases hp : part s.server with
  | notCreated | noSocket | listening => exact (hp ▸ hcounts).2.1.le.trans (Nat.zero_le 1)
  | connected => exact (hp ▸ hcounts).2.1.le
  | closing => exact (hp ▸ hcounts).2.1
  | clearing | ended => exact (hp ▸ hcounts).2.2.1

/-- Behind `closesocket` a socket that has been opened is closed. -/
lemma Sockets.closed_pos (h : s.Sockets) (hopened : s.opened = 1) : 0 < s.closesocket.closed := by
  simp only [closesocket]
  cases hg : s.g_listenSocket with
  | true => simp
  | false => simpa using h.invalid hg hopened

lemma ServerCase.sockets (h : ServerCase s s') (hs : s.Sockets) : s'.Sockets := by
  have hcounts := hs.counts
  cases h with
  | goes pc hpart hpc =>
    refine ⟨?_, hs.valid, hs.invalid, hs.main, hs.handler, hs.handlerClear, ?_⟩
    · rw [show (s.goServer pc).server = pc from rfl, hpart]
      exact hcounts
    · intro r hr
      exact absurd hr (hpc r)
  | fails hpart =>
    rw [hpart] at hcounts
    obtain ⟨hopened, haccepted, hclosed⟩ := hcounts
    have hg : s.g_listenSocket = false := by
      by_contra hg
      have hone := hs.valid (by simpa using hg)
      omega
    refine ⟨⟨?_, hg, ?_, ?_⟩, hs.valid, hs.invalid, hs.main, hs.handler, hs.handlerClear,
      by simp [goServer]⟩
    all_goals
      simp only [goServer]
      omega
  | opens hpart =>
    rw [hpart] at hcounts
    obtain ⟨hopened, haccepted, hclosed⟩ := hcounts
    have hone : ({ s with g_listenSocket := true, opened := s.opened + 1 }.goServer .bind).opened
        = 1 :=
      congrArg (· + 1) hopened
    refine ⟨⟨hone, haccepted, hclosed⟩, fun _ => hone, by simp [goServer], hs.main, fun _ => hone,
      ?_, by simp [goServer]⟩
    intro hh
    have hold := (hs.handlerClear hh).1
    omega
  | leaves pc hpart hpc =>
    rw [hpart] at hcounts
    obtain ⟨hopened, haccepted, hclosed⟩ := hcounts
    refine ⟨?_, hs.valid, hs.invalid, hs.main, hs.handler, hs.handlerClear, ?_⟩
    · rw [show (s.goServer pc).server = pc from rfl, hpc]
      exact ⟨hopened, haccepted.le.trans (Nat.zero_le _), hclosed.trans haccepted.symm⟩
    · intro r hr
      rw [show pc = .relay r from hr] at hpc
      cases hpc
  | accepts hpart =>
    rw [hpart] at hcounts
    obtain ⟨hopened, haccepted, hclosed⟩ := hcounts
    exact ⟨⟨hopened, congrArg (· + 1) haccepted, hclosed⟩, hs.valid, hs.invalid,
      hs.main, hs.handler,
      hs.handlerClear, by simp [goServer]⟩
  | connects rbuf hlen hpart =>
    rw [hpart] at hcounts
    refine ⟨hcounts, hs.valid, hs.invalid, hs.main, hs.handler, hs.handlerClear, ?_⟩
    intro r hr
    obtain rfl := TcpServerThread.relay.inj hr
    exact ⟨rbuf, hlen, .refl⟩
  | relays r r' e hr hstep =>
    rw [hr] at hcounts
    have hpart : part (s.goServer (if r'.left then .closeClient else .relay r')).server =
        .connected := by
      simp only [goServer]
      split <;> rfl
    refine ⟨?_, hs.valid, hs.invalid, hs.main, hs.handler, hs.handlerClear, ?_⟩
    · rw [hpart]
      exact hcounts
    · intro r'' hr''
      obtain ⟨rbuf, hlen, hrun⟩ := hs.relay r hr
      have heq : (if r'.left then TcpServerThread.closeClient else .relay r') = .relay r'' := hr''
      split at heq
      · cases heq
      · obtain rfl := TcpServerThread.relay.inj heq
        exact ⟨rbuf, hlen, hrun.tail ⟨e, trivial, hstep⟩⟩
  | disconnects hpart =>
    rw [hpart] at hcounts
    obtain ⟨hopened, haccepted, hclosed⟩ := hcounts
    refine ⟨⟨hopened, haccepted.le, ?_⟩, hs.valid, hs.invalid, hs.main, hs.handler, hs.handlerClear,
      by simp [goServer]⟩
    simp only [goServer]
    omega
  | finds hpart hg =>
    rw [hpart] at hcounts
    obtain ⟨hopened, haccepted, hclosed⟩ := hcounts
    exact ⟨⟨hopened.le, hg, haccepted, hclosed⟩, hs.valid, hs.invalid, hs.main, hs.handler,
      hs.handlerClear, by simp [goServer]⟩
  | closes hpart =>
    rw [hpart] at hcounts
    obtain ⟨hopened, haccepted, hclosed⟩ := hcounts
    have hpos := hs.closed_pos hopened
    exact ⟨⟨hopened, hpos, haccepted, hclosed⟩, hs.valid, fun _ _ => hpos, hs.main, hs.handler,
      fun _ => ⟨hopened, hpos⟩, by simp [goServer]⟩
  | clears hpart =>
    rw [hpart] at hcounts
    obtain ⟨hopened, hpos, haccepted, hclosed⟩ := hcounts
    exact ⟨⟨hopened.le, rfl, haccepted, hclosed⟩, by simp [goServer], fun _ _ => hpos, hs.main,
      hs.handler, hs.handlerClear, by simp [goServer]⟩

lemma Stage.checkSocket (h : s.Stage) (hm : s.main = .checkSocket) : s.server = .ended := by
  cases h with
  | starting main | failed main => simp [hm] at main
  | launching _ _ main | running main | called _ _ main | signalling main => simp [hm] at main
  | stopping main =>
    rcases main with (hm' | hm') | ⟨hended, -⟩
    · simp [hm] at hm'
    · simp [hm] at hm'
    · exact hended
  | stopped _ _ server => exact server

lemma Stage.createThread (h : s.Stage) (hm : s.main = .createThread) : s.server = .notCreated := by
  cases h with
  | starting _ _ server | failed _ _ server => exact server
  | launching _ _ main | running main | called _ _ main | signalling main => simp [hm] at main
  | stopping main => simp [hm] at main
  | stopped main => simp [hm] at main

/-- A thread that leaves the sockets alone. -/
lemma Sockets.frame (h : s.Sockets) {st : Status} {n : Nat} {event : Option Bool} {main : SvcMain}
    {reports : List Status} {overtaken : Bool} (hmain : main ≠ .closeSocket ∧ main ≠ .clearSocket) :
    Sockets { s with
      gSvcStatus := st, dwCheckPoint := n, ghSvcStopEvent := event, main := main
      reports := reports, overtaken := overtaken } :=
  ⟨h.counts, h.valid, h.invalid, hmain, h.handler, h.handlerClear, h.relay⟩

/-- `SvcInit` has nothing to close. -/
lemma Sockets.svcMain {fails : Option Nat} (h : s.Sockets) (hstage : s.Stage)
    (hstep : s.svcMain fails = some s') : s'.Sockets := by
  unfold Service.svcMain at hstep
  split at hstep
  · obtain rfl := Option.some.inj hstep
    exact h.frame (by split <;> simp)
  · next r k hm =>
    obtain rfl := Option.some.inj hstep
    obtain ⟨st, n, reports, hframe⟩ := (s.overtake r k).reportSvcStatus_frame r k
    rw [hframe]
    refine h.frame ?_
    split
    · unfold behind
      split <;> simp
    · simp
  · split at hstep
    · obtain rfl := Option.some.inj hstep
      exact h.frame (by simp)
    · obtain rfl := Option.some.inj hstep
      exact h.frame (by simp)
  · next hm =>
    split at hstep
    · obtain rfl := Option.some.inj hstep
      have hcounts := h.counts
      rw [hstage.createThread hm] at hcounts
      exact ⟨hcounts, h.valid, h.invalid, by simp [goMain], h.handler, h.handlerClear,
        by simp [goMain, goServer]⟩
    · obtain rfl := Option.some.inj hstep
      exact h.frame (by simp)
  · obtain ⟨-, hstep⟩ := Option.ite_none_right_eq_some.1 hstep
    obtain rfl := Option.some.inj hstep
    exact h.frame (by simp)
  · obtain ⟨-, hstep⟩ := Option.ite_none_right_eq_some.1 hstep
    obtain rfl := Option.some.inj hstep
    exact h.frame (by simp)
  · next hm =>
    obtain rfl := Option.some.inj hstep
    have hcounts := h.counts
    rw [hstage.checkSocket hm] at hcounts
    exact h.frame (by simp [hcounts.2.1])
  · next hm => exact absurd hm h.main.1
  · next hm => exact absurd hm h.main.2
  · cases hstep

lemma Counts.mono {p : Part} {g : Bool} {closed : Nat} {pc : SvcCtrlHandler} (h : s.Counts p)
    (hg : s.g_listenSocket = false → g = false) (hclosed : s.closed ≤ closed) :
    Counts { s with g_listenSocket := g, closed := closed, handler := pc } p := by
  cases p with
  | clearing => exact ⟨h.1, h.2.1.trans_le hclosed, h.2.2⟩
  | ended => exact ⟨h.1, hg h.2.1, h.2.2⟩
  | notCreated | noSocket | listening | connected | closing => exact h

lemma Sockets.svcCtrlHandler (h : s.Sockets) (hstep : s.svcCtrlHandler = some s') : s'.Sockets := by
  unfold Service.svcCtrlHandler at hstep
  split at hstep
  · cases hstep
  · next last r k hh =>
    obtain rfl := Option.some.inj hstep
    obtain ⟨st, n, reports, hframe⟩ := s.reportSvcStatus_frame r k
    rw [hframe]
    refine ⟨h.counts, h.valid, h.invalid, h.main, ?_, ?_, h.relay⟩
    all_goals
      simp only [goHandler]
      split
      · split <;> simp
      · simp
  · obtain rfl := Option.some.inj hstep
    exact ⟨h.counts, h.valid, h.invalid, h.main, by simp [goHandler], by simp [goHandler], h.relay⟩
  · obtain rfl := Option.some.inj hstep
    refine ⟨h.counts, h.valid, h.invalid, h.main, ?_, ?_, h.relay⟩
    · cases hg : s.g_listenSocket with
      | true => exact fun _ => h.valid hg
      | false => simp [goHandler]
    · cases s.g_listenSocket <;> simp [goHandler]
  · next hh =>
    obtain rfl := Option.some.inj hstep
    exact ⟨h.counts, h.valid, h.invalid, h.main, fun _ => h.handler (.inl hh), by simp [goHandler],
      h.relay⟩
  · next hh =>
    obtain rfl := Option.some.inj hstep
    have hopened := h.handler (.inr hh)
    have hpos := h.closed_pos hopened
    exact ⟨h.counts.mono id s.closed_le_closesocket, h.valid, fun _ _ => hpos, h.main,
      by simp [goHandler], fun _ => ⟨hopened, hpos⟩, h.relay⟩
  · next hh =>
    obtain rfl := Option.some.inj hstep
    obtain ⟨hopened, hpos⟩ := h.handlerClear hh
    exact ⟨h.counts.mono (fun _ => rfl) le_rfl, by simp [goHandler], fun _ _ => hpos, h.main,
      by simp [goHandler], by simp [goHandler], h.relay⟩
  · obtain rfl := Option.some.inj hstep
    exact ⟨h.counts, h.valid, h.invalid, h.main, by simp [goHandler], by simp [goHandler], h.relay⟩

lemma Sockets.step {a : ServiceAct} (h : s.Sockets) (hstage : s.Stage)
    (hstep : s.step a = some s') : s'.Sockets := by
  cases a with
  | main fails => exact h.svcMain hstage hstep
  | stop =>
    simp only [Service.step, stop, Option.ite_none_right_eq_some, Option.some.injEq] at hstep
    obtain ⟨-, rfl⟩ := hstep
    exact ⟨h.counts, h.valid, h.invalid, h.main, by simp [goHandler], by simp [goHandler], h.relay⟩
  | handler => exact h.svcCtrlHandler hstep
  | server e => exact (tcpServerThread_cases hstep).sockets h

/-! ### Runs -/

lemma Stage.step {a : ServiceAct} (h : s.Stage) (hstep : s.step a = some s') : s'.Stage := by
  cases a with
  | main fails => exact h.svcMain hstep
  | stop => exact h.stop hstep
  | handler => exact h.svcCtrlHandler hstep
  | server e => exact (tcpServerThread_cases hstep).stage h

lemma stage_run (h : Reach Service.step init s) : s.Stage ∧ s.Sockets :=
  Run.invariant (P := fun s => s.Stage ∧ s.Sockets) h ⟨stage_init, sockets_init⟩
    fun _ _ _ hs _ hstep => ⟨hs.1.step hstep, hs.2.step hs.1 hstep⟩

/-- When `SvcInit` has returned and the handler too, the manager has been told last that the service
has stopped, unless `SvcInit` has stored that while the handler had the state before to store
again. -/
theorem told_last (h : Reach Service.step init s) (hmain : s.main = .returned)
    (hhandler : s.handler = .idle) (hcreated : s.server ≠ .notCreated) :
    s.told = some (if s.overtaken then .STOP_PENDING else .STOPPED) := by
  cases (stage_run h).1 with
  | starting _ _ server | failed _ _ server => exact absurd server hcreated
  | launching _ _ main | running main | called _ _ main | signalling main => simp [main] at hmain
  | stopping main => simp [hmain] at main
  | stopped main handler server event told lags state overtaken synced =>
    rw [synced hmain (by simp [hhandler]), state (lags_idle hhandler)]

/-- Up to the report of `RUNNING`. -/
def launch : List ServiceAct := List.replicate 15 (.main none)

/-- A stop while the server waits for a client, up to the second report of the handler. -/
def stopWaiting : List ServiceAct :=
  launch ++ List.replicate 5 (.server (.call true)) ++ [.stop] ++ List.replicate 12 .handler ++
    [.server (.select none), .server (.call true), .main none, .main none, .main none]

def reportStopped : List ServiceAct := List.replicate 6 (.main none)

def reportAgain : List ServiceAct := List.replicate 6 .handler

/-- The handler stores its state too late, and the service is left to stop for ever. -/
theorem told_last_overtaken : ∃ s, Reach Service.step init s ∧
    s.told = some (if s.overtaken then .STOP_PENDING else .STOPPED) ∧ s.overtaken = true := by
  obtain ⟨s, hrun, hmain, hhandler, hcreated, hovertaken⟩ :
      ∃ s, Reach Service.step init s ∧ s.main = .returned ∧ s.handler = .idle ∧
        s.server ≠ .notCreated ∧ s.overtaken = true :=
    exists_of_exec (stopWaiting ++ reportStopped ++ reportAgain) (by decide)
  exact ⟨s, hrun, told_last hrun hmain hhandler hcreated, hovertaken⟩

/-- The manager is told that the service has stopped only when its server thread does not run. That
thread leaves no socket open, of which it has one to listen and one for a client at most. As long as
the relay runs, the child has been written what the client has sent but for the rest of the last
chunk; that rest is lost when the relay leaves its loop. -/
theorem stopped_closed (h : Reach Service.step init s) :
    (∀ st ∈ s.reports, st.dwCurrentState = .STOPPED →
      s.server = .notCreated ∨ s.server = .ended ∧ s.ghSvcStopEvent = some true) ∧
    (s.server = .ended → s.g_listenSocket = false ∧ (s.opened = 1 → 0 < s.closed) ∧
      s.clientClosed = s.accepted) ∧
    s.opened ≤ 1 ∧ s.accepted ≤ 1 ∧
    ∀ r, s.server = .relay r → r.written ++ r.toWrite = r.fromClient.flatten := by
  obtain ⟨hstage, hsockets⟩ := stage_run h
  refine ⟨?_, ?_, hsockets.opened_le, hsockets.accepted_le, ?_⟩
  · intro st hst hstopped
    cases hstage with
    | starting _ _ _ _ only | launching _ _ _ _ _ _ only | running _ _ _ _ only
    | called _ _ _ _ _ _ only | signalling _ _ _ _ only | stopping _ _ _ _ only =>
      have hmem := only st hst
      simp [hstopped] at hmem
    | failed _ _ server => exact .inl server
    | stopped _ _ server event => exact .inr ⟨server, event⟩
  · intro hended
    have hcounts := hsockets.counts
    rw [hended] at hcounts
    obtain ⟨-, hg, -, hclosed⟩ := hcounts
    exact ⟨hg, hsockets.invalid hg, hclosed⟩
  · intro r hr
    obtain ⟨rbuf, hlen, hrun⟩ := hsockets.relay r hr
    exact ((Relay.inv_init hlen).reach hrun).written

/-- The relay when the child has taken one of two bytes. -/
def oneWritten : Relay where
  rbuf := [108, 115] ++ List.replicate (RBUF_SIZE - 2) 0
  phase := .writeFile 2 1
  left := false
  fromChild := []
  fromClient := [[108, 115]]
  sent := []
  written := [108]

/-- A client is accepted and sends two bytes, of which the child has taken one. -/
def relaying : List ServiceAct :=
  launch ++ List.replicate 5 (.server (.call true)) ++
    [.server (.select (some true)), .server .accept,
      .server (.initTerminal (List.replicate RBUF_SIZE 0)), .server (.relay (.wait false)),
      .server (.relay (.select (some true))), .server (.relay (.peek 0)),
      .server (.relay (.recv [108, 115])), .server (.relay (.writeFile 1))]

/-- A stop, and then the child's pipe breaks. -/
def stopRelaying : List ServiceAct :=
  [.stop] ++ List.replicate 12 .handler ++
    [.server (.relay (.writeFileFails ERROR_BROKEN_PIPE)), .server (.call true),
      .server (.call true), .main none, .main none, .main none] ++ reportStopped

theorem stopped_closed_relaying :
    (∃ s r, Reach Service.step init s ∧ s.server = .relay r ∧ r.fromClient = [[108, 115]] ∧
      r.written = [108] ∧ r.written ++ r.toWrite = [108, 115]) ∧
    ∃ s, Reach Service.step init s ∧ (∃ st ∈ s.reports, st.dwCurrentState = .STOPPED) ∧
      s.server = .ended ∧ s.opened = 1 ∧ 0 < s.closed ∧ s.accepted = 1 ∧ s.clientClosed = 1 := by
  constructor
  · have hex : ∃ s, Reach Service.step init s ∧ s.server = .relay oneWritten :=
      exists_of_exec relaying (by decide +kernel)
    obtain ⟨s, hrun, hserver⟩ := hex
    exact ⟨s, oneWritten, hrun, hserver, rfl, rfl, (stopped_closed hrun).2.2.2.2 _ hserver⟩
  · obtain ⟨s, hrun, ⟨st, hst, hstopped⟩, hcreated, hopened, haccepted⟩ :
        ∃ s, Reach Service.step init s ∧ (∃ st ∈ s.reports, st.dwCurrentState = .STOPPED) ∧
          s.server ≠ .notCreated ∧ s.opened = 1 ∧ s.accepted = 1 :=
      exists_of_exec (relaying ++ stopRelaying) (by decide +kernel)
    obtain ⟨hreport, hclosed, -⟩ := stopped_closed hrun
    obtain ⟨hended, -⟩ := (hreport st hst hstopped).resolve_left hcreated
    obtain ⟨-, hlisten, hclient⟩ := hclosed hended
    exact ⟨s, hrun, ⟨st, hst, hstopped⟩, hended, hopened, hlisten hopened, haccepted,
      hclient.trans haccepted⟩

end Service

end TiPI.SSHServer
