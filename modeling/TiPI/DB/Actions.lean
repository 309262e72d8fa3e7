import TiPI.DB.Cluster

/-!
# What an action of a node is

`ActCase` has one constructor for each branch of each atomic piece of a node: when the branch is
taken, and what the node is afterwards. `act_cases` is the inversion of `act`.
-/

namespace TiPI.DB

variable {Ip : Type}

namespace MiddleWare

section

variable [DecidableEq Ip]

inductive ActCase (mw : MiddleWare Ip) : NodeAct Ip → Effect Ip → Prop
  | request (method : Method) (key value : String) (rand : Nat) :
      ActCase mw (.request method key value rand) (mw.request method key value rand)
  | kvsBegin (r : WriteRequest) (arrived : r ∈ mw.arrived) (unlocked : mw.locked = false) :
      ActCase mw (.kvsBegin r)
        { mw := (mw.kvsBegin r).1, events := (mw.kvsBegin r).2.events r.id }
  | kvsWake (h : Handler) (waiting : h ∈ mw.waiting) (notified : h.notified = true)
      (unlocked : mw.locked = false) :
      ActCase mw (.kvsWake h)
        { mw := (mw.kvsWake h).1, events := (mw.kvsWake h).2.events h.req.id }
  | loopMaster (routine : mw.routine = .main) (state : mw.state = .MASTER) :
      ActCase mw .mainLoop
        { mw := { mw with raftLog := mw.raftLog.flushUncommited, routine := .producer 0 false } }
  | loopCondidate (routine : mw.routine = .main) (state : mw.state = .CONDIDATE) :
      ActCase mw .mainLoop
        { mw := { mw with raftLog := mw.raftLog.flushUncommited, routine := .electionStart false } }
  | loopSlave (routine : mw.routine = .main) (state : mw.state = .SLAVE) :
      ActCase mw .mainLoop { mw := { mw with routine := .consumer false } }
  | consumerTimer (cancelled : Bool) (routine : mw.routine = .consumer cancelled) :
      ActCase mw .consumerTimer { mw := { mw with state := .CONDIDATE, routine := .main } }
  | consumerDone (routine : mw.routine = .consumer true) :
      ActCase mw .consumerDone { mw := { mw with routine := .main } }
  | electionStart (cancelled : Bool) (routine : mw.routine = .electionStart cancelled) :
      ActCase mw .electionStart
        { mw := { mw with
            term := mw.term + 1
            routine := .election (mw.term + 1) [mw.selfIp] cancelled }
          sent := mw.otherIp.map fun peer =>
            (peer, .vote ⟨mw.raftLog.lenCommited, mw.raftLog.lastOp.term, mw.term + 1⟩)
          events := [.campaigned (mw.term + 1)] }
  | electionStop (term : Nat) (votes : List Ip) (cancelled : Bool)
      (routine : mw.routine = .election term votes cancelled)
      (few : votes.length < mw.voteQuorum) :
      ActCase mw .electionStop { mw := { mw with routine := .main } }
  | electionWin (term : Nat) (votes : List Ip) (cancelled : Bool)
      (routine : mw.routine = .election term votes cancelled)
      (quorum : mw.voteQuorum ≤ votes.length) (unlocked : mw.locked = false) :
      ActCase mw .electionWin
        { mw := { mw with state := .MASTER, leaderIP := mw.selfIp, routine := .main }
          events := [.becameMaster term] }
  | beat (i : Nat) (cancelled : Bool) (routine : mw.routine = .producer i cancelled)
      (state : mw.state = .MASTER) :
      ActCase mw .producerTimer
        { mw := { mw with
            routine := .producer (i + 1) cancelled
            sessions := mw.sessions ++ [⟨mw.nextSession, i, false, 0, false⟩]
            nextSession := mw.nextSession + 1 } }
  | resign (i : Nat) (cancelled : Bool) (routine : mw.routine = .producer i cancelled)
      (state : mw.state ≠ .MASTER) :
      ActCase mw .producerTimer { mw := { mw with routine := .main } }
  | producerDone (i : Nat) (routine : mw.routine = .producer i true) :
      ActCase mw .producerDone { mw := { mw with routine := .orphan } }
  | sessionSend (s : Session) (found : mw.sessions.find? (·.id = s.id) = some s)
      (unsent : s.sent = false) (unlocked : mw.locked = false) :
      ActCase mw (.sessionSend s.id)
        { mw := if (mw.sessionMsgs s mw.otherIp).2 then mw.setSession { s with sent := true }
            else mw.exit
          sent := (mw.sessionMsgs s mw.otherIp).1 }
  | sessionDone (s : Session) (found : mw.sessions.find? (·.id = s.id) = some s)
      (sent : s.sent = true) (all : mw.otherIp.length ≤ s.nrResponses) :
      ActCase mw (.sessionDone s.id) { mw := mw.collected s }
  | sessionLost (s : Session) (found : mw.sessions.find? (·.id = s.id) = some s)
      (sent : s.sent = true) (few : s.nrResponses < (mw.otherIp.length + 1) / 2) :
      ActCase mw (.sessionTimer s.id) { mw := { mw.dropSession s.id with state := .SLAVE } }
  | sessionKept (s : Session) (found : mw.sessions.find? (·.id = s.id) = some s)
      (sent : s.sent = true) (enough : (mw.otherIp.length + 1) / 2 ≤ s.nrResponses)
      (missing : s.nrResponses < mw.otherIp.length) :
      ActCase mw (.sessionTimer s.id) { mw := mw.collected s }
  | replicate (src : Ip) (session : Nat) (mean : Mean) (term : Nat) (logEntry : RaftLogEntry)
      (unlocked : mw.locked = false) :
      ActCase mw (.recv src (.replicate session mean term logEntry))
        { mw := (mw.handleReplicate src mean term logEntry).1
          sent := (mw.handleReplicate src mean term logEntry).2.toList.map fun a =>
            (src, .replicateRsp session a) }
  | late (src : Ip) (session : Nat) (a : Answer)
      (ended : mw.sessions.find? (·.id = session) = none) :
      ActCase mw (.recv src (.replicateRsp session a)) { mw := mw }
  | response (src : Ip) (a : Answer) (s : Session)
      (found : mw.sessions.find? (·.id = s.id) = some s) (sent : s.sent = true)
      (unlocked : mw.locked = false) :
      ActCase mw (.recv src (.replicateRsp s.id a))
        { mw := (mw.collect s (sendReplicate src a)).1.setSession
            (mw.collect s (sendReplicate src a)).2 }
  | vote (src : Ip) (c : VoteRequest) (unlocked : mw.locked = false) :
      ActCase mw (.recv src (.vote c))
        { mw := (mw.handleVoteRequest src c).1
          sent := [(src, .voteRsp c.elTerm (mw.handleVoteRequest src c).2)]
          events := if (mw.handleVoteRequest src c).2.answer then [.granted src c.elTerm] else [] }
  | voteRsp (src : Ip) (elTerm : Nat) (a : VoteAnswer) :
      ActCase mw (.recv src (.voteRsp elTerm a)) { mw := mw.electionRsp src elTerm a }

lemma act_running {mw : MiddleWare Ip} {na : NodeAct Ip} {e : Effect Ip}
    (h : mw.act na = some e) : mw.running = true := by
  unfold act at h
  split at h
  · simp at h
  · next hr => simpa using hr

lemma recv_cases {mw : MiddleWare Ip} {src : Ip} {msg : Msg} {e : Effect Ip}
    (h : mw.recv src msg = some e) : ActCase mw (.recv src msg) e := by
  cases msg with
  | replicate session mean term logEntry =>
    simp only [recv, Option.ite_none_left_eq_some, Bool.not_eq_true,
      Option.some.injEq] at h
    obtain ⟨hl, rfl⟩ := h
    exact .replicate src session mean term logEntry hl
  | replicateRsp session a =>
    simp only [recv, Option.map_eq_some_iff] at h
    obtain ⟨mw', hmw, rfl⟩ := h
    unfold sessionRsp at hmw
    split at hmw
    · next s hs =>
      obtain rfl : s.id = session := by simpa using List.find?_some hs
      simp only [Option.ite_none_left_eq_some, not_or, Bool.not_eq_true, Bool.not_eq_false',
        Option.some.injEq] at hmw
      obtain ⟨⟨hsent, hl⟩, rfl⟩ := hmw
      exact .response src a s hs hsent hl
    · next hnone =>
      obtain rfl := Option.some.inj hmw
      exact .late src session a hnone
  | vote c =>
    simp only [recv, Option.ite_none_left_eq_some, Bool.not_eq_true,
      Option.some.injEq] at h
    obtain ⟨hl, rfl⟩ := h
    exact .vote src c hl
  | voteRsp elTerm a =>
    obtain rfl := Option.some.inj h
    exact .voteRsp src elTerm a

lemma act_cases {mw : MiddleWare Ip} {na : NodeAct Ip} {e : Effect Ip}
    (h : mw.act na = some e) : ActCase mw na e := by
  unfold act at h
  split at h
  · simp at h
  cases na with
  | request method key value rand =>
    obtain rfl := Option.some.inj h
    exact .request method key value rand
  | kvsBegin r =>
    simp only [Option.ite_none_left_eq_some, not_or, not_not, Bool.not_eq_true,
      Option.some.injEq] at h
    obtain ⟨⟨hl, hr⟩, rfl⟩ := h
    exact .kvsBegin r hr hl
  | kvsWake hd =>
    simp only [Option.ite_none_left_eq_some, not_or, not_not, Bool.not_eq_true,
      Bool.not_eq_false', Option.some.injEq] at h
    obtain ⟨⟨hl, hw, hn⟩, rfl⟩ := h
    exact .kvsWake hd hw hn hl
  | mainLoop =>
    obtain ⟨mw', hmw, rfl⟩ := Option.map_eq_some_iff.mp h
    unfold mainLoop at hmw
    split at hmw
    · next hr =>
      split at hmw
      · next hs =>
        obtain rfl := Option.some.inj hmw
        exact .loopMaster hr hs
      · next hs =>
        obtain rfl := Option.some.inj hmw
        exact .loopCondidate hr hs
      · next hs =>
        obtain rfl := Option.some.inj hmw
        exact .loopSlave hr hs
    · simp at hmw
  | consumerTimer =>
    obtain ⟨mw', hmw, rfl⟩ := Option.map_eq_some_iff.mp h
    unfold consumerTimer at hmw
    split at hmw
    · next hr =>
      obtain rfl := Option.some.inj hmw
      exact .consumerTimer _ hr
    · simp at hmw
  | consumerDone =>
    obtain ⟨mw', hmw, rfl⟩ := Option.map_eq_some_iff.mp h
    unfold consumerDone at hmw
    split at hmw
    · next hr =>
      obtain rfl := Option.some.inj hmw
      exact .consumerDone hr
    · simp at hmw
  | electionStart =>
    obtain ⟨⟨mw', sent⟩, hmw, rfl⟩ := Option.map_eq_some_iff.mp h
    unfold electionStart at hmw
    split at hmw
    · next hr =>
      simp only [Option.some.injEq, Prod.mk.injEq] at hmw
      obtain ⟨rfl, rfl⟩ := hmw
      exact .electionStart _ hr
    · simp at hmw
  | electionStop =>
    obtain ⟨mw', hmw, rfl⟩ := Option.map_eq_some_iff.mp h
    unfold electionStop at hmw
    split at hmw
    · next hr =>
      simp only [Option.ite_none_right_eq_some, Option.some.injEq] at hmw
      obtain ⟨hfew, rfl⟩ := hmw
      exact .electionStop _ _ _ hr hfew
    · simp at hmw
  | electionWin =>
    obtain ⟨mw', hmw, rfl⟩ := Option.map_eq_some_iff.mp h
    unfold electionWin at hmw
    split at hmw
    · next term votes cancelled hr =>
      simp only [Option.ite_none_left_eq_some, not_or, not_lt, Bool.not_eq_true,
        Option.some.injEq] at hmw
      obtain ⟨⟨hq, hl⟩, rfl⟩ := hmw
      have hterm : mw.electionTerm = term := by rw [electionTerm, hr]
      rw [hterm]
      exact .electionWin _ _ _ hr hq hl
    · simp at hmw
  | producerTimer =>
    obtain ⟨mw', hmw, rfl⟩ := Option.map_eq_some_iff.mp h
    unfold producerTimer at hmw
    split at hmw
    · next hr =>
      split at hmw
      · next hs =>
        obtain rfl := Option.some.inj hmw
        exact .beat _ _ hr hs
      · next hs =>
        obtain rfl := Option.some.inj hmw
        exact .resign _ _ hr (by simp [hs])
      · next hs =>
        obtain rfl := Option.some.inj hmw
        exact .resign _ _ hr (by simp [hs])
    · simp at hmw
  | producerDone =>
    obtain ⟨mw', hmw, rfl⟩ := Option.map_eq_some_iff.mp h
    unfold producerDone at hmw
    split at hmw
    · next hr =>
      obtain rfl := Option.some.inj hmw
      exact .producerDone _ hr
    · simp at hmw
  | sessionSend id =>
    obtain ⟨⟨mw', sent⟩, hmw, rfl⟩ := Option.map_eq_some_iff.mp h
    unfold sessionSend at hmw
    split at hmw
    · next s hs =>
      obtain rfl : s.id = id := by simpa using List.find?_some hs
      simp only [Option.ite_none_left_eq_some, not_or, Bool.not_eq_true, Option.some.injEq,
        Prod.mk.injEq] at hmw
      obtain ⟨⟨hsent, hl⟩, rfl, rfl⟩ := hmw
      exact .sessionSend s hs hsent hl
    · simp at hmw
  | sessionDone id =>
    obtain ⟨mw', hmw, rfl⟩ := Option.map_eq_some_iff.mp h
    unfold sessionDone at hmw
    split at hmw
    · next s hs =>
      obtain rfl : s.id = id := by simpa using List.find?_some hs
      simp only [Option.ite_none_right_eq_some, Option.some.injEq] at hmw
      obtain ⟨⟨hsent, hall⟩, rfl⟩ := hmw
      exact .sessionDone s hs hsent hall
    · simp at hmw
  | sessionTimer id =>
    obtain ⟨mw', hmw, rfl⟩ := Option.map_eq_some_iff.mp h
    unfold sessionTimer at hmw
    split at hmw
    · next s hs =>
      obtain rfl : s.id = id := by simpa using List.find?_some hs
      simp only [Option.ite_none_right_eq_some] at hmw
      obtain ⟨⟨hsent, hmissing⟩, hmw⟩ := hmw
      split at hmw
      · next hfew =>
        obtain rfl := Option.some.inj hmw
        exact .sessionLost s hs hsent hfew
      · next henough =>
        obtain rfl := Option.some.inj hmw
        exact .sessionKept s hs hsent (not_lt.mp henough) hmissing
    · simp at hmw
  | recv src msg => exact recv_cases h

end

end MiddleWare

end TiPI.DB
