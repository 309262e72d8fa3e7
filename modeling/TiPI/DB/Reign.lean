import TiPI.DB.Replication

/-!
# One master, one term

A cluster in which one node is `MASTER` and no timer of another routine starts an election. The
processes stay alive exactly as long as every `logcommit` finds the log it is for, and the master
can read its file back whenever a session has commits to send. `CommitLen` lags behind the
replies, so a second session can send the same `logcommit` again.
-/

namespace TiPI.DB

variable {Ip : Type}

/-- The entry of the `logcommit` that an action takes in. -/
def NodeAct.commit : NodeAct Ip → Option RaftLogEntry
  | .recv _ (.replicate _ .logcommit _ entry) => some entry
  | _ => none

lemma NodeAct.commit_eq {na : NodeAct Ip} {entry : RaftLogEntry} (h : entry ∈ na.commit) :
    ∃ src session t, na = .recv src (.replicate session .logcommit t entry) := by
  unfold commit at h
  split at h
  · next src session t entry' =>
    obtain rfl := Option.some.inj h
    exact ⟨src, session, t, rfl⟩
  · simp at h

/-- The messages of a master of term `t`. -/
def FromMaster (t : Nat) (msg : Msg) : Prop :=
  ∃ session mean entry, msg = .replicate session mean t entry ∧
    MiddleWare.CarriesOp mean entry

namespace MiddleWare

/-- The session whose messages go out in an action. -/
def sending (mw : MiddleWare Ip) : NodeAct Ip → Option Session
  | .sessionSend id => mw.sessions.find? (·.id = id)
  | _ => none

/-! ### The two roles -/

/-- A slave in term `t` at most, with nothing of its own to do. -/
structure Following (t : Nat) (mw : MiddleWare Ip) : Prop where
  state : mw.state = .SLAVE
  term : mw.term ≤ t
  idle : mw.Idle
  sessions : mw.sessions = []
  routine : mw.routine = .main ∨ ∃ cancelled, mw.routine = .consumer cancelled
  chained : mw.raftLog.Chained

/-- The master of term `t`. It may step down when a session gets no quorum. -/
structure Leading (t : Nat) (mw : MiddleWare Ip) : Prop where
  state : mw.state ≠ .CONDIDATE
  term : mw.term = t
  stands : mw.routine.stands = false
  chained : mw.raftLog.Chained
  lens : mw.LensOrdered

section

variable [DecidableEq Ip] {t : Nat} {mw : MiddleWare Ip} {na : NodeAct Ip} {e : Effect Ip}

/-- A follower takes in the messages of the master, and otherwise leaves log and network alone. -/
lemma Following.cases (h : mw.Following t) (hact : mw.act na = some e)
    (htimer : na ≠ .consumerTimer)
    (hrecv : ∀ src msg, na = .recv src msg → FromMaster t msg) :
    (e.mw.Following t ∧ e.mw.raftLog = mw.raftLog ∧ e.mw.running = true ∧ e.sent = [] ∧
      na.commit = none) ∨
    ∃ src session mean entry, na = .recv src (.replicate session mean t entry) ∧
      CarriesOp mean entry ∧
      e.mw = (({ mw with term := max mw.term t } : MiddleWare Ip).replicateSlave mean entry).1 ∧
      e.sent = ((({ mw with term := max mw.term t } : MiddleWare Ip).replicateSlave mean
        entry).2.toList.map fun a => (src, .replicateRsp session a)) := by
  have hrun := act_running hact
  cases act_cases hact with
  | request method key value rand =>
    obtain ⟨arrived, hmw⟩ := request_frame mw method key value rand
    have hidle := request_idle h.idle (by simp [h.state]) method key value rand
    refine Or.inl ⟨⟨?_, ?_, hidle, ?_, ?_, ?_⟩, ?_, ?_, request_sent _ _ _ _ _, rfl⟩ <;> rw [hmw]
    · exact h.state
    · exact h.term
    · exact h.sessions
    · exact h.routine
    · exact h.chained
    · exact hrun
  | kvsBegin r arrived => simp [h.idle.arrived] at arrived
  | kvsWake hd waiting => simp [h.idle.waiting] at waiting
  | loopMaster _ state => simp [h.state] at state
  | loopCondidate _ state => simp [h.state] at state
  | loopSlave =>
    exact Or.inl ⟨⟨h.state, h.term, ⟨h.idle.arrived, h.idle.waiting⟩, h.sessions,
      Or.inr ⟨false, rfl⟩, h.chained⟩, rfl, hrun, rfl, rfl⟩
  | consumerTimer => exact absurd rfl htimer
  | consumerDone =>
    exact Or.inl ⟨⟨h.state, h.term, ⟨h.idle.arrived, h.idle.waiting⟩, h.sessions,
      Or.inl rfl, h.chained⟩, rfl, hrun, rfl, rfl⟩
  | electionStart _ routine | electionStop _ _ _ routine | electionWin _ _ _ routine
  | beat _ _ routine | resign _ _ routine | producerDone _ routine =>
    rcases h.routine with hr | ⟨cancelled, hr⟩ <;> simp [hr] at routine
  | sessionSend s found | sessionDone s found | sessionLost s found | sessionKept s found
  | response src a s found => simp [h.sessions] at found
  | replicate src session mean t' entry =>
    obtain ⟨session', mean', entry', hmsg, hop⟩ := hrecv src _ rfl
    simp only [Msg.replicate.injEq] at hmsg
    obtain ⟨rfl, rfl, rfl, rfl⟩ := hmsg
    have hslave := handleReplicate_slave h.state src mean h.term entry
    exact Or.inr ⟨src, session, mean, entry, rfl, hop, by rw [hslave], by rw [hslave]⟩
  | late src session a =>
    obtain ⟨_, _, _, hmsg, -⟩ := hrecv src _ rfl
    simp at hmsg
  | vote src c =>
    obtain ⟨_, _, _, hmsg, -⟩ := hrecv src _ rfl
    simp at hmsg
  | voteRsp src t' a =>
    obtain ⟨_, _, _, hmsg, -⟩ := hrecv src _ rfl
    simp at hmsg

lemma Following.act (h : mw.Following t) (hact : mw.act na = some e)
    (htimer : na ≠ .consumerTimer)
    (hrecv : ∀ src msg, na = .recv src msg → FromMaster t msg) : e.mw.Following t := by
  rcases h.cases hact htimer hrecv with ⟨hf, -⟩ | ⟨src, session, mean, entry, rfl, hop, hmw, -⟩
  · exact hf
  · have hchained : e.mw.raftLog.Chained := by
      refine (act_log hact).chained h.chained ?_
      rintro src' session' mean' t' entry' heq
      simp only [NodeAct.recv.injEq, Msg.replicate.injEq] at heq
      obtain ⟨-, -, rfl, -, rfl⟩ := heq
      exact hop
    obtain ⟨raftLog, kvs, running, hframe⟩ :=
      replicateSlave_frame ({ mw with term := max mw.term t } : MiddleWare Ip) mean entry
    rw [hframe] at hmw
    rw [hmw] at hchained ⊢
    exact ⟨h.state, max_le h.term le_rfl, ⟨h.idle.arrived, h.idle.waiting⟩, h.sessions,
      h.routine, hchained⟩

/-- A follower answers its master. It acknowledges what is in its file. -/
lemma Following.sent (h : mw.Following t) (hact : mw.act na = some e)
    (htimer : na ≠ .consumerTimer)
    (hrecv : ∀ src msg, na = .recv src msg → FromMaster t msg) {dst : Ip} {msg : Msg}
    (hmem : (dst, msg) ∈ e.sent) :
    (∃ m, na = .recv dst m) ∧ ∃ session a, msg = .replicateRsp session a ∧
      ∀ len, a.body = some (len, true) → len ≤ e.mw.raftLog.file.length := by
  have hf := h.act hact htimer hrecv
  rcases h.cases hact htimer hrecv with ⟨-, -, -, hsent, -⟩ |
    ⟨src, session, mean, entry, rfl, -, hmw, hsent⟩
  · simp [hsent] at hmem
  · simp only [hsent, List.mem_map, Option.mem_toList, Prod.mk.injEq] at hmem
    obtain ⟨a, ha, rfl, rfl⟩ := hmem
    refine ⟨⟨_, rfl⟩, session, a, rfl, ?_⟩
    intro len hbody
    rcases replicateSlave_answer ha with rfl | rfl
    · simp [rejected] at hbody
    · rw [← hmw] at hbody
      exact (lens_acked hf.chained hbody).le

/-- The `Fatalf` of a follower. -/
lemma Following.running_iff (h : mw.Following t) (hact : mw.act na = some e)
    (htimer : na ≠ .consumerTimer)
    (hrecv : ∀ src msg, na = .recv src msg → FromMaster t msg)
    (hcommit : ∀ entry ∈ na.commit, entry.prevInd = entry.ind - 1 ∧
      entry.ind ≤ mw.raftLog.file.length) :
    e.mw.running = true ↔ ∀ entry ∈ na.commit, mw.FitsLog entry := by
  rcases h.cases hact htimer hrecv with ⟨-, -, hrun, -, hna⟩ |
    ⟨src, session, mean, entry, rfl, hop, hmw, -⟩
  · simp [hrun, hna]
  · have hrun : mw.running = true := act_running hact
    have hraised : ({ mw with term := max mw.term t } : MiddleWare Ip).running = true := hrun
    rw [hmw, replicateSlave_running hraised]
    cases mean with
    | logcommit =>
      obtain ⟨hprev, hind⟩ := hcommit entry rfl
      have hpasses :
          Logger.pred (({ mw with term := max mw.term t } : MiddleWare Ip).replicateAppend
            entry).raftLog.lenUncommited = entry.ind ↔ mw.FitsLog entry :=
        logcommit_passes_iff h.chained (hop (Or.inr rfl)) hprev hind
      constructor
      · intro hind entry' hentry'
        obtain rfl := Option.some.inj hentry'
        exact hpasses.mp (hind rfl)
      · exact fun hfits _ => hpasses.mpr (hfits entry rfl)
    | _ => simp [NodeAct.commit]

/-- A master sends its own messages, and takes answers in. -/
lemma Leading.act (h : mw.Leading t) (hact : mw.act na = some e) (htimer : na ≠ .consumerTimer)
    (hrecv : ∀ src msg, na = .recv src msg → ∃ session a, msg = .replicateRsp session a) :
    e.mw.Leading t := by
  have hchained : e.mw.raftLog.Chained := by
    refine (act_log hact).chained h.chained ?_
    rintro src session mean t' entry rfl
    obtain ⟨_, _, hmsg⟩ := hrecv src _ rfl
    simp at hmsg
  have hlens : e.mw.LensOrdered := by
    rcases act_lens hact with ⟨hsent, hcommit⟩ | ⟨src, a, s, -, hsent, hcommit⟩
    · intro p
      rw [hsent, hcommit]
      exact h.lens p
    · intro p
      rw [hsent, hcommit]
      exact collect_lens h.lens s _ p
  have hrole : e.mw.state ≠ .CONDIDATE ∧ e.mw.term = t ∧ e.mw.routine.stands = false := by
    cases act_cases hact with
    | request method key value rand =>
      obtain ⟨arrived, hmw⟩ := request_frame mw method key value rand
      rw [hmw]
      exact ⟨h.state, h.term, h.stands⟩
    | kvsBegin r =>
      obtain ⟨kvs, raftLog, locked, waiting, hmw⟩ := kvsBegin_frame mw r
      rw [hmw]
      exact ⟨h.state, h.term, h.stands⟩
    | kvsWake hd =>
      obtain ⟨kvs, raftLog, locked, waiting, hmw⟩ := kvsWake_frame mw hd
      rw [hmw]
      exact ⟨h.state, h.term, h.stands⟩
    | loopMaster | loopSlave | consumerDone | electionStop | resign | producerDone | beat =>
      exact ⟨h.state, h.term, rfl⟩
    | loopCondidate _ state => exact absurd state h.state
    | consumerTimer => exact absurd rfl htimer
    | electionStart _ routine | electionWin _ _ _ routine =>
      have hstands := h.stands
      simp [routine, Routine.stands] at hstands
    | sessionSend s =>
      dsimp only
      split <;> exact ⟨h.state, h.term, h.stands⟩
    | sessionDone s | sessionKept s =>
      obtain ⟨sessions, waiting, hmw⟩ := collected_frame mw s
      rw [hmw]
      exact ⟨h.state, h.term, h.stands⟩
    | sessionLost s => exact ⟨by simp, h.term, h.stands⟩
    | late => exact ⟨h.state, h.term, h.stands⟩
    | response src a s =>
      obtain ⟨sentLen, commitLen, hmw⟩ := collect_frame mw s (sendReplicate src a)
      rw [hmw]
      exact ⟨h.state, h.term, h.stands⟩
    | replicate src session mean t' entry =>
      obtain ⟨_, _, hmsg⟩ := hrecv src _ rfl
      simp at hmsg
    | vote src c =>
      obtain ⟨_, _, hmsg⟩ := hrecv src _ rfl
      simp at hmsg
    | voteRsp src t' a =>
      obtain ⟨_, _, hmsg⟩ := hrecv src _ rfl
      simp at hmsg
  exact ⟨hrole.1, hrole.2.1, hrole.2.2, hchained, hlens⟩

/-- A `logcommit` of the master has the entry behind those the peer has confirmed. -/
lemma Leading.sent (h : mw.Leading t) (hact : mw.act na = some e)
    (hrecv : ∀ src msg, na = .recv src msg → ∃ session a, msg = .replicateRsp session a)
    {dst : Ip} {msg : Msg} (hmem : (dst, msg) ∈ e.sent) :
    dst ∈ mw.otherIp ∧ ∃ session mean entry, msg = .replicate session mean t entry ∧
      CarriesOp mean entry ∧ (mean = .logcommit →
        entry.prevInd = entry.ind - 1 ∧ entry.ind = (mw.commitLen dst).getD 0) := by
  cases act_cases hact with
  | request method key value rand => simp [request_sent] at hmem
  | electionStart _ routine =>
    have hstands := h.stands
    simp [routine, Routine.stands] at hstands
  | sessionSend s =>
    obtain ⟨mean, entry, hmsg, hentry⟩ := sessionMsgs_replicate mw s mw.otherIp _ hmem
    obtain rfl := hmsg
    refine ⟨sessionMsgs_dst mw s mw.otherIp _ hmem, s.id, mean, entry, by rw [h.term],
      sessionMsg_carriesOp h.chained hentry, ?_⟩
    rintro rfl
    obtain ⟨hind, hprev⟩ := sessionMsg_commit h.chained h.lens hentry
    exact ⟨hprev, hind⟩
  | replicate src session mean t' entry =>
    obtain ⟨_, _, hmsg⟩ := hrecv src _ rfl
    simp at hmsg
  | vote src c =>
    obtain ⟨_, _, hmsg⟩ := hrecv src _ rfl
    simp at hmsg
  | _ => simp at hmem

/-- The `Fatalf` of a master. -/
lemma Leading.running_iff (h : mw.Leading t) (hact : mw.act na = some e)
    (hrecv : ∀ src msg, na = .recv src msg → ∃ session a, msg = .replicateRsp session a) :
    e.mw.running = true ↔ ∀ s ∈ mw.sending na, s.nr ≠ 0 → mw.Behind → mw.Readable := by
  have hrun := act_running hact
  cases act_cases hact with
  | request method key value rand =>
    obtain ⟨arrived, hmw⟩ := request_frame mw method key value rand
    simp [hmw, hrun, sending]
  | kvsBegin r =>
    obtain ⟨kvs, raftLog, locked, waiting, hmw⟩ := kvsBegin_frame mw r
    simp [hmw, hrun, sending]
  | kvsWake hd =>
    obtain ⟨kvs, raftLog, locked, waiting, hmw⟩ := kvsWake_frame mw hd
    simp [hmw, hrun, sending]
  | sessionSend s found =>
    have halive := sessionMsgs_alive_iff h.chained h.lens s
    simp only [sending, found, Option.mem_some_iff, forall_eq', ← halive]
    cases (mw.sessionMsgs s mw.otherIp).2 with
    | true => simpa [setSession] using hrun
    | false => simp [exit]
  | sessionDone s | sessionKept s =>
    obtain ⟨sessions, waiting, hmw⟩ := collected_frame mw s
    simp [hmw, hrun, sending]
  | response src a s =>
    obtain ⟨sentLen, commitLen, hmw⟩ := collect_frame mw s (sendReplicate src a)
    simp [hmw, hrun, sending, setSession]
  | replicate src session mean t' entry =>
    obtain ⟨_, _, hmsg⟩ := hrecv src _ rfl
    simp at hmsg
  | vote src c =>
    obtain ⟨_, _, hmsg⟩ := hrecv src _ rfl
    simp at hmsg
  | voteRsp src t' a =>
    obtain ⟨_, _, hmsg⟩ := hrecv src _ rfl
    simp at hmsg
  | _ => simp [hrun, sending, dropSession]

end

end MiddleWare

/-! ### The cluster -/

namespace Cluster

/-- Node `m` has become `MASTER` of term `t` and knows nothing of its peers yet. Their files are
prefixes of its own. -/
structure Reign (m : Ip) (t : Nat) (s : Cluster Ip) : Prop where
  master : (s.node m).state = .MASTER
  leading : (s.node m).Leading t
  peers : m ∉ (s.node m).otherIp
  sentLen : (s.node m).sentLen = fun _ => none
  commitLen : (s.node m).commitLen = fun _ => none
  following : ∀ i, i ≠ m → (s.node i).Following t
  prefixes : ∀ i, i ≠ m → (s.node i).raftLog.file <+: (s.node m).raftLog.file
  net : s.net = []
  running : ∀ i, (s.node i).running = true

/-- No slave stands for election. -/
def Uncontested (_ : Cluster Ip) (_ : Ip) (na : NodeAct Ip) : Prop := na ≠ .consumerTimer

instance [DecidableEq Ip] (s : Cluster Ip) (i : Ip) (na : NodeAct Ip) :
    Decidable (s.Uncontested i na) := inferInstanceAs (Decidable (_ ≠ _))

/-- A `logcommit` fits the log it reaches, and a session that has commits to send can read the
file back. -/
structure Orderly (s : Cluster Ip) (i : Ip) (na : NodeAct Ip) : Prop where
  uncontested : s.Uncontested i na
  fits : ∀ entry ∈ na.commit, (s.node i).FitsLog entry
  readable : ∀ x ∈ (s.node i).sending na, x.nr ≠ 0 → (s.node i).Behind → (s.node i).Readable

instance [DecidableEq Ip] (s : Cluster Ip) (i : Ip) (na : NodeAct Ip) :
    Decidable (s.Orderly i na) :=
  decidable_of_iff (s.Uncontested i na ∧ (∀ entry ∈ na.commit, (s.node i).FitsLog entry) ∧
      ∀ x ∈ (s.node i).sending na, x.nr ≠ 0 → (s.node i).Behind → (s.node i).Readable)
    ⟨fun h => ⟨h.1, h.2.1, h.2.2⟩, fun h => ⟨h.uncontested, h.fits, h.readable⟩⟩

/-- A packet is a message of the master, whose `logcommit` is not ahead of the follower, or an
answer, which acknowledges no more than the follower has in its file. -/
inductive Courier (m : Ip) (t : Nat) (s : Cluster Ip) (p : Packet Ip) : Prop
  | order (session : Nat) (mean : Mean) (entry : RaftLogEntry) (src : p.src = m) (dst : p.dst ≠ m)
      (msg : p.msg = .replicate session mean t entry) (op : MiddleWare.CarriesOp mean entry)
      (commit : mean = .logcommit → entry.prevInd = entry.ind - 1 ∧
        entry.ind ≤ (s.node p.dst).raftLog.file.length)
  | report (session : Nat) (a : Answer) (dst : p.dst = m) (msg : p.msg = .replicateRsp session a)
      (acked : ∀ len, a.body = some (len, true) → len ≤ (s.node p.src).raftLog.file.length)

structure ReignInv (m : Ip) (t : Nat) (s : Cluster Ip) : Prop where
  leading : (s.node m).Leading t
  peers : m ∉ (s.node m).otherIp
  following : ∀ i, i ≠ m → (s.node i).Following t
  reported : ∀ p, ((s.node m).commitLen p).getD 0 ≤ (s.node p).raftLog.file.length
  packets : ∀ p ∈ s.net, Courier m t s p

variable {m : Ip} {t : Nat} {s : Cluster Ip}

lemma Reign.inv (h : s.Reign m t) : s.ReignInv m t where
  leading := h.leading
  peers := h.peers
  following := h.following
  reported := by simp [h.commitLen]
  packets := by simp [h.net]

/-- Files only grow, so the packets on the way stay what they are. -/
lemma Courier.mono {s' : Cluster Ip} {p : Packet Ip} (h : Courier m t s p)
    (hgrow : ∀ j, (s.node j).raftLog.file.length ≤ (s'.node j).raftLog.file.length) :
    Courier m t s' p := by
  cases h with
  | order session mean entry src dst msg op commit =>
    refine .order session mean entry src dst msg op fun hmean => ?_
    obtain ⟨hprev, hind⟩ := commit hmean
    exact ⟨hprev, hind.trans (hgrow _)⟩
  | report session a dst msg acked =>
    exact .report session a dst msg fun len hbody => (acked len hbody).trans (hgrow _)

variable [DecidableEq Ip] {i : Ip} {na : NodeAct Ip} {e : Effect Ip}

omit [DecidableEq Ip] in
/-- What reaches the master is an answer. -/
lemma ReignInv.answers (h : s.ReignInv m t)
    (hrecv : ∀ src msg, na = .recv src msg → ⟨src, m, msg⟩ ∈ s.net) (src : Ip) (msg : Msg)
    (hna : na = .recv src msg) : ∃ session a, msg = .replicateRsp session a ∧
      ∀ len, a.body = some (len, true) → len ≤ (s.node src).raftLog.file.length := by
  cases h.packets _ (hrecv src msg hna) with
  | order _ _ _ _ dst => exact absurd rfl dst
  | report session a _ hmsg acked => exact ⟨session, a, hmsg, acked⟩

omit [DecidableEq Ip] in
lemma ReignInv.responses (h : s.ReignInv m t)
    (hrecv : ∀ src msg, na = .recv src msg → ⟨src, m, msg⟩ ∈ s.net) (src : Ip) (msg : Msg)
    (hna : na = .recv src msg) : ∃ session a, msg = .replicateRsp session a := by
  obtain ⟨session, a, hmsg, -⟩ := h.answers hrecv src msg hna
  exact ⟨session, a, hmsg⟩

omit [DecidableEq Ip] in
/-- What reaches a follower is a message of the master. -/
lemma ReignInv.orders (h : s.ReignInv m t) (hi : i ≠ m)
    (hrecv : ∀ src msg, na = .recv src msg → ⟨src, i, msg⟩ ∈ s.net) (src : Ip) (msg : Msg)
    (hna : na = .recv src msg) : src = m ∧ FromMaster t msg := by
  cases h.packets _ (hrecv src msg hna) with
  | order session mean entry hsrc _ hmsg op => exact ⟨hsrc, session, mean, entry, hmsg, op⟩
  | report _ _ dst => exact absurd dst hi

lemma ReignInv.grows (h : s.ReignInv m t) (hact : (s.node i).act na = some e)
    (hrecv : ∀ src msg, na = .recv src msg → ⟨src, i, msg⟩ ∈ s.net) (j : Ip) :
    (s.node j).raftLog.file.length ≤
      (Function.update s.node i e.mw j).raftLog.file.length := by
  by_cases hj : j = i
  · subst hj
    rw [Function.update_self]
    have hchained : (s.node j).raftLog.Chained := by
      by_cases hm : j = m
      · subst hm
        exact h.leading.chained
      · exact (h.following j hm).chained
    have hop : ∀ src session mean t entry, na = .recv src (.replicate session mean t entry) →
        MiddleWare.CarriesOp mean entry := by
      intro src session mean t' entry hna
      cases h.packets _ (hrecv _ _ hna) with
      | order _ _ _ _ _ hmsg op =>
        simp only [Msg.replicate.injEq] at hmsg
        obtain ⟨-, rfl, -, rfl⟩ := hmsg
        exact op
      | report _ _ _ hmsg => simp at hmsg
    rcases (MiddleWare.act_log hact).file hchained hop with hfile | ⟨x, hfile, -⟩
    · rw [hfile]
    · simp [hfile]
  · rw [Function.update_of_ne hj]

lemma ReignInv.after_master (h : s.ReignInv m t) (hact : (s.node m).act na = some e)
    (hok : s.Uncontested m na) {net : List (Packet Ip)} (hnet : net ⊆ s.net)
    (hrecv : ∀ src msg, na = .recv src msg → ⟨src, m, msg⟩ ∈ s.net) :
    ({ s with net := net }.after m e).ReignInv m t := by
  have hgrow := h.grows hact hrecv
  have hanswers := h.answers hrecv
  have hrsp := h.responses hrecv
  refine ⟨?_, ?_, ?_, ?_, ?_⟩
  · rw [after_node_self]
    exact h.leading.act hact hok hrsp
  · rw [after_node_self, (MiddleWare.act_ids hact).2]
    exact h.peers
  · intro i hi
    rw [after_node_ne _ _ hi]
    exact h.following i hi
  · intro p
    rw [after_node_self]
    refine le_trans ?_ (hgrow p)
    rcases MiddleWare.act_lens hact with ⟨-, hcommit⟩ | ⟨src, a, x, hna, -, hcommit⟩
    · rw [hcommit]
      exact h.reported p
    · rw [hcommit]
      refine MiddleWare.collect_commitLen h.reported x _ ?_ p
      intro q l hmem
      obtain ⟨rfl, hbody⟩ := MiddleWare.ok_mem_sendReplicate hmem
      obtain ⟨session, a', hmsg, hacked⟩ := hanswers q _ hna
      simp only [Msg.replicateRsp.injEq] at hmsg
      obtain ⟨-, rfl⟩ := hmsg
      exact hacked l hbody
  · intro p hp
    rcases mem_after_net.mp hp with hold | ⟨hsrc, hsent⟩
    · exact (h.packets p (hnet hold)).mono hgrow
    · obtain ⟨hdst, session, mean, entry, hmsg, hop, hcommit⟩ :=
        h.leading.sent hact hrsp hsent
      have hne : p.dst ≠ m := fun heq => h.peers (heq ▸ hdst)
      refine .order session mean entry hsrc hne hmsg hop fun hmean => ?_
      obtain ⟨hprev, hind⟩ := hcommit hmean
      exact ⟨hprev, (hind.trans_le (h.reported p.dst)).trans (hgrow p.dst)⟩

lemma ReignInv.after_follower (h : s.ReignInv m t) (hi : i ≠ m)
    (hact : (s.node i).act na = some e) (hok : s.Uncontested i na) {net : List (Packet Ip)}
    (hnet : net ⊆ s.net) (hrecv : ∀ src msg, na = .recv src msg → ⟨src, i, msg⟩ ∈ s.net) :
    ({ s with net := net }.after i e).ReignInv m t := by
  have hgrow := h.grows hact hrecv
  have horders := h.orders hi hrecv
  have hmaster := fun src msg hna => (horders src msg hna).2
  have hm : ({ s with net := net }.after i e).node m = s.node m := after_node_ne _ _ hi.symm
  refine ⟨?_, ?_, ?_, ?_, ?_⟩
  · rw [hm]
    exact h.leading
  · rw [hm]
    exact h.peers
  · intro j hj
    by_cases hji : j = i
    · subst hji
      rw [after_node_self]
      exact (h.following j hj).act hact hok hmaster
    · rw [after_node_ne _ _ hji]
      exact h.following j hj
  · intro p
    rw [hm]
    exact (h.reported p).trans (hgrow p)
  · intro p hp
    rcases mem_after_net.mp hp with hold | ⟨hsrc, hsent⟩
    · exact (h.packets p (hnet hold)).mono hgrow
    · obtain ⟨⟨msg, hna⟩, session, a, hmsg, hacked⟩ :=
        (h.following i hi).sent hact hok hmaster hsent
      refine .report session a (horders _ _ hna).1 hmsg fun len hbody => ?_
      rw [hsrc, after_node_self]
      exact hacked len hbody

lemma ReignInv.after (h : s.ReignInv m t) (hact : (s.node i).act na = some e)
    (hok : s.Uncontested i na) {net : List (Packet Ip)} (hnet : net ⊆ s.net)
    (hrecv : ∀ src msg, na = .recv src msg → ⟨src, i, msg⟩ ∈ s.net) :
    ({ s with net := net }.after i e).ReignInv m t := by
  by_cases hi : i = m
  · subst hi
    exact h.after_master hact hok hnet hrecv
  · exact h.after_follower hi hact hok hnet hrecv

/-- The step after which a process has ended is the one that is out of order. -/
lemma ReignInv.running_iff (h : s.ReignInv m t) (hact : (s.node i).act na = some e)
    (hok : s.Uncontested i na) (hrecv : ∀ src msg, na = .recv src msg → ⟨src, i, msg⟩ ∈ s.net) :
    e.mw.running = true ↔ s.Orderly i na := by
  by_cases hi : i = m
  · subst hi
    have hrsp := h.responses hrecv
    rw [h.leading.running_iff hact hrsp]
    constructor
    · intro hreadable
      refine ⟨hok, ?_, hreadable⟩
      intro entry hentry
      obtain ⟨src, session, t', rfl⟩ := NodeAct.commit_eq hentry
      obtain ⟨_, _, hmsg⟩ := hrsp src _ rfl
      simp at hmsg
    · exact fun horderly => horderly.readable
  · have hmaster := fun src msg hna => (h.orders hi hrecv src msg hna).2
    have hcommit : ∀ entry ∈ na.commit, entry.prevInd = entry.ind - 1 ∧
        entry.ind ≤ (s.node i).raftLog.file.length := by
      intro entry hentry
      obtain ⟨src, session, t', rfl⟩ := NodeAct.commit_eq hentry
      cases h.packets _ (hrecv src _ rfl) with
      | order _ _ _ _ _ hmsg _ commit =>
        simp only [Msg.replicate.injEq] at hmsg
        obtain ⟨-, hmean, -, rfl⟩ := hmsg
        exact commit hmean.symm
      | report _ _ _ hmsg => simp at hmsg
    rw [(h.following i hi).running_iff hact hok hmaster hcommit]
    constructor
    · intro hfits
      refine ⟨hok, hfits, ?_⟩
      intro x hx
      cases na with
      | sessionSend id => simp [MiddleWare.sending, (h.following i hi).sessions] at hx
      | _ => simp [MiddleWare.sending] at hx
    · exact fun horderly => horderly.fits

omit [DecidableEq Ip] in
lemma Lift.mono {ok ok' : Cluster Ip → Ip → NodeAct Ip → Prop} {a : Action Ip}
    (h : Lift ok s a) (hok : ∀ i na, ok s i na → ok' s i na) : Lift ok' s a := by
  unfold Lift at h ⊢
  split at h
  · exact hok _ _ h
  · trivial

/-- Every process runs. -/
def Alive (s : Cluster Ip) : Prop := ∀ i, (s.node i).running = true

lemma reign_run {s₀ : Cluster Ip} (h₀ : s₀.Reign m t) {as : List (Action Ip)}
    (h : Steps step (Lift Orderly) s₀ as s) : s.ReignInv m t ∧ s.Alive := by
  refine h.invariant (P := fun _ s => s.ReignInv m t ∧ s.Alive) ⟨h₀.inv, h₀.running⟩ ?_
  rintro as s a s' ⟨hinv, halive⟩ hok hstep
  obtain ⟨i, na, net, e, hna, hact, rfl, hnet, hrecv⟩ := step_cases hstep
  have horderly : s.Orderly i na := by simpa [Lift, hna] using hok
  refine ⟨hinv.after hact horderly.uncontested hnet hrecv, ?_⟩
  intro j
  by_cases hj : j = i
  · subst hj
    rw [after_node_self]
    exact (hinv.running_iff hact horderly.uncontested hrecv).mpr horderly
  · rw [after_node_ne _ _ hj]
    exact halive j

/-- As long as nobody contests the master, no process ends in exactly the runs in which every
`logcommit` fits and the master can read back what it has to send. -/
theorem no_suicide {s₀ : Cluster Ip} (h₀ : s₀.Reign m t) {as : List (Action Ip)}
    (h : Steps step (Lift Uncontested) s₀ as s) :
    Throughout step (fun _ s => s.Alive) s₀ as ↔ Steps step (Lift Orderly) s₀ as s := by
  refine Steps.throughout_iff h (fun _ _ hrun => (reign_run h₀ hrun).2) ?_
  intro bs r a r' hrun hok hstep halive
  obtain ⟨hinv, -⟩ := reign_run h₀ hrun
  obtain ⟨i, na, net, e, hna, hact, rfl, hnet, hrecv⟩ := step_cases hstep
  have huncontested : r.Uncontested i na := by simpa [Lift, hna] using hok
  have hi := halive i
  rw [after_node_self] at hi
  simpa [Lift, hna] using (hinv.running_iff hact huncontested hrecv).mp hi

/-! ### Two nodes -/

/-- Node `0` of two is `MASTER` and has committed a write that node `1` lacks. -/
def oneWrite (i : Fin 2) : MiddleWare (Fin 2) :=
  if i = 0 then
    { MiddleWare.init 0 [1] with
      term := 1
      state := .MASTER
      raftLog :=
        (Logger.fresh.logOp { RaftLogEntry.zero with op := .create, operand := "k" }).logCommit }
  else .init 1 [0]

lemma reign_oneWrite : Reign 0 1 ⟨oneWrite, [], []⟩ := by
  have hchained : (oneWrite 0).raftLog.Chained :=
    (Logger.chained_fresh.logOp (by decide)).logCommit
  have hone : ∀ i : Fin 2, i ≠ 0 → i = 1 := by decide
  refine ⟨rfl, ⟨by decide, rfl, rfl, hchained, fun p => le_rfl⟩, by decide, rfl, rfl, ?_, ?_, rfl,
    by decide⟩
  · intro i hi
    obtain rfl := hone i hi
    exact ⟨rfl, by decide, ⟨rfl, rfl⟩, rfl, Or.inl rfl, Logger.chained_fresh⟩
  · intro i hi
    obtain rfl := hone i hi
    exact List.nil_prefix

/-- Session number `1` sends the write, which the follower commits and acknowledges. -/
def catchesUp : List (Action (Fin 2)) :=
  [.act 0 .mainLoop, .act 0 .producerTimer, .act 0 .producerTimer, .act 0 (.sessionSend 1),
    .deliver 0, .deliver 0]

theorem no_suicide_two : ∃ s : Cluster (Fin 2),
    Steps step (Lift Uncontested) ⟨oneWrite, [], []⟩ catchesUp s ∧
    (s.node 1).raftLog.file = (s.node 0).raftLog.file ∧ (s.node 0).commitLen 1 = some 1 ∧
    Throughout step (fun _ s => s.Alive) ⟨oneWrite, [], []⟩ catchesUp := by
  obtain ⟨s, hrun, hfile, hcommit⟩ : ∃ s, Steps step (Lift Orderly) ⟨oneWrite, [], []⟩ catchesUp s ∧
      ((s.node 1).raftLog.file = (s.node 0).raftLog.file ∧ (s.node 0).commitLen 1 = some 1) :=
    steps_of_exec _ (by decide)
  have huncontested : Steps step (Lift Uncontested) ⟨oneWrite, [], []⟩ catchesUp s :=
    hrun.mono fun _ _ hok => hok.mono fun _ _ horderly => horderly.uncontested
  exact ⟨s, huncontested, hfile, hcommit, (no_suicide reign_oneWrite huncontested).mpr hrun⟩

/-- Sessions number `1` and `2` both send the write before the follower answers. -/
def sendsTwice : List (Action (Fin 2)) :=
  [.act 0 .mainLoop, .act 0 .producerTimer, .act 0 .producerTimer, .act 0 .producerTimer,
    .act 0 (.sessionSend 1), .act 0 (.sessionSend 2), .deliver 0, .deliver 0]

/-- The follower ends itself at the second copy. -/
theorem follower_ends : ∃ s₀ s : Cluster (Fin 2), s₀.Reign 0 1 ∧
    Steps step (Lift Uncontested) s₀ sendsTwice s ∧ (s.node 1).running = false := by
  obtain ⟨s, hrun, hend⟩ : ∃ s, Steps step (Lift Uncontested) ⟨oneWrite, [], []⟩ sendsTwice s ∧
      (s.node 1).running = false := steps_of_exec _ (by decide)
  exact ⟨_, s, reign_oneWrite, hrun, hend⟩

end Cluster

end TiPI.DB
