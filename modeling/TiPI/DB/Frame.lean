import TiPI.DB.Actions
import Mathlib.Data.List.FinRange

/-!
# Footprints

For each piece of a node, the fields it may change. A property that looks at other fields gets
past the piece by rewriting with its footprint.
-/

namespace TiPI.DB

variable {Ip : Type}

namespace MiddleWare

/-! ### Client requests -/

lemma kvsCommit_frame (mw : MiddleWare Ip) (r : WriteRequest) :
    ∃ kvs raftLog, (mw.kvsCommit r).1 = { mw with kvs := kvs, raftLog := raftLog } := by
  unfold kvsCommit
  split
  · exact ⟨_, _, rfl⟩
  · exact ⟨_, _, rfl⟩
  · split <;> exact ⟨_, _, rfl⟩

lemma kvsLoop_frame (mw : MiddleWare Ip) (h : Handler) :
    ∃ kvs raftLog locked waiting, (mw.kvsLoop h).1 =
      { mw with kvs := kvs, raftLog := raftLog, locked := locked, waiting := waiting } := by
  unfold kvsLoop
  split
  · exact ⟨_, _, _, _, rfl⟩
  · split
    · exact ⟨_, _, _, _, rfl⟩
    · obtain ⟨kvs, raftLog, hc⟩ := kvsCommit_frame mw h.req
      exact ⟨kvs, raftLog, mw.locked, mw.waiting, hc⟩

lemma kvsWake_frame (mw : MiddleWare Ip) (h : Handler) :
    ∃ kvs raftLog locked waiting, (mw.kvsWake h).1 =
      { mw with kvs := kvs, raftLog := raftLog, locked := locked, waiting := waiting } := by
  obtain ⟨kvs, raftLog, locked, waiting, hl⟩ :=
    kvsLoop_frame { mw with waiting := mw.waiting.erase h } h
  exact ⟨kvs, raftLog, locked, waiting, hl⟩

lemma kvsBegin_frame (mw : MiddleWare Ip) (r : WriteRequest) :
    ∃ kvs raftLog locked waiting, (mw.kvsBegin r).1 =
      { mw with
        kvs := kvs, raftLog := raftLog, locked := locked, waiting := waiting
        arrived := mw.arrived.erase r } := by
  simp only [kvsBegin]
  split
  · exact ⟨_, _, _, _, rfl⟩
  · obtain ⟨kvs, raftLog, locked, waiting, hl⟩ :=
      kvsLoop_frame ({ mw with arrived := mw.arrived.erase r }.kvsLog r).1
        ({ mw with arrived := mw.arrived.erase r }.kvsLog r).2
    exact ⟨kvs, raftLog, locked, waiting, hl⟩

lemma request_frame (mw : MiddleWare Ip) (method : Method) (key value : String) (rand : Nat) :
    ∃ arrived, (mw.request method key value rand).mw =
      { mw with arrived := arrived, nextRequest := mw.nextRequest + 1 } := by
  simp only [request]
  split <;> exact ⟨_, rfl⟩

lemma request_sent (mw : MiddleWare Ip) (method : Method) (key value : String) (rand : Nat) :
    (mw.request method key value rand).sent = [] := by
  simp only [request]
  split <;> rfl

/-! ### Replication -/

lemma replicateAppend_frame (mw : MiddleWare Ip) (e : RaftLogEntry) :
    ∃ raftLog, mw.replicateAppend e = { mw with raftLog := raftLog } := by
  unfold replicateAppend
  split <;> exact ⟨_, rfl⟩

lemma replicateCommit_frame {mw mw' : MiddleWare Ip} {e : RaftLogEntry}
    (h : mw.replicateCommit e = some mw') :
    ∃ raftLog kvs, mw' = { mw with raftLog := raftLog, kvs := kvs } := by
  unfold replicateCommit at h
  split at h
  · simp at h
  · exact ⟨_, _, (Option.some.inj h).symm⟩

lemma replicateSlave_frame (mw : MiddleWare Ip) (mean : Mean) (e : RaftLogEntry) :
    ∃ raftLog kvs running, (mw.replicateSlave mean e).1 =
      { mw with raftLog := raftLog, kvs := kvs, running := running } := by
  obtain ⟨raftLog, happ⟩ := replicateAppend_frame mw e
  cases mean with
  | logappend =>
    simp only [replicateSlave, happ]
    exact ⟨_, _, _, rfl⟩
  | logcommit =>
    simp only [replicateSlave]
    split
    · rw [happ]
      exact ⟨_, _, _, rfl⟩
    · next hc =>
      obtain ⟨raftLog', kvs, rfl⟩ := replicateCommit_frame hc
      rw [happ]
      exact ⟨_, _, _, rfl⟩
  | heartbeat => exact ⟨_, _, _, rfl⟩
  | other name => exact ⟨_, _, _, rfl⟩

lemma raiseTerm_frame (mw : MiddleWare Ip) (term : Nat) :
    mw.raiseTerm term = { mw with term := max mw.term term } := by
  unfold raiseTerm
  split
  · next h => rw [max_eq_right h.le]
  · next h => rw [max_eq_left (not_lt.mp h)]

lemma handleReplicate_frame (mw : MiddleWare Ip) (ip : Ip) (mean : Mean) (t : Nat)
    (e : RaftLogEntry) :
    ∃ raftLog kvs running term state leaderIP routine,
      (mw.handleReplicate ip mean t e).1 =
        { mw with
          raftLog := raftLog, kvs := kvs, running := running, term := term, state := state
          leaderIP := leaderIP, routine := routine } := by
  obtain ⟨raftLog, kvs, running, hs⟩ := replicateSlave_frame (mw.raiseTerm t) mean e
  unfold handleReplicate
  split
  · split <;> exact ⟨_, _, _, _, _, _, _, rfl⟩
  · split <;> exact ⟨_, _, _, _, _, _, _, rfl⟩
  · dsimp only
    split
    · rw [raiseTerm_frame]
      exact ⟨_, _, _, _, _, _, _, rfl⟩
    · rw [hs, raiseTerm_frame]
      exact ⟨_, _, _, _, _, _, _, rfl⟩

/-! ### Sessions -/

lemma collected_frame (mw : MiddleWare Ip) (s : Session) :
    ∃ sessions waiting, mw.collected s =
      { mw with sessions := sessions, waiting := waiting } := by
  simp only [collected]
  split <;> exact ⟨_, _, rfl⟩

/-- The messages of a session are replication messages. -/
lemma sessionMsgs_replicate (mw : MiddleWare Ip) (s : Session) (peers : List Ip) :
    ∀ p ∈ (mw.sessionMsgs s peers).1, ∃ mean log,
      p.2 = .replicate s.id mean mw.term log ∧ mw.sessionMsg s.nr p.1 = some (mean, log) := by
  induction peers with
  | nil => simp [sessionMsgs]
  | cons peer peers ih =>
    simp only [sessionMsgs]
    split
    · simp
    · next mean log hmsg =>
      intro p hp
      rcases List.mem_cons.mp hp with rfl | hp
      · exact ⟨mean, log, rfl, hmsg⟩
      · exact ih p hp

variable [DecidableEq Ip]

lemma collect_frame (mw : MiddleWare Ip) (s : Session) (rsps : List (Rsp Ip)) :
    ∃ sentLen commitLen, (mw.collect s rsps).1 =
      { mw with sentLen := sentLen, commitLen := commitLen } := by
  induction rsps generalizing mw s with
  | nil => exact ⟨_, _, rfl⟩
  | cons rsp rsps ih =>
    cases rsp with
    | err => exact ih mw s
    | ok ip len ans =>
      simp only [collect]
      split
      · obtain ⟨sentLen, commitLen, hrest⟩ :=
          ih (mw.collectOk s ip len ans).1 (mw.collectOk s ip len ans).2
        refine ⟨sentLen, commitLen, hrest.trans ?_⟩
        simp only [collectOk]
        split
        · rfl
        · split <;> rfl
      · exact ⟨_, _, rfl⟩

/-! ### Votes -/

lemma handleVoteRequest_frame (mw : MiddleWare Ip) (src : Ip) (c : VoteRequest) :
    ∃ term state votedFor leaderIP routine, (mw.handleVoteRequest src c).1 =
      { mw with
        term := term, state := state, votedFor := votedFor, leaderIP := leaderIP
        routine := routine } := by
  simp only [handleVoteRequest]
  split <;> exact ⟨_, _, _, _, _, rfl⟩

lemma electionRsp_frame (mw : MiddleWare Ip) (peer : Ip) (t : Nat) (a : VoteAnswer) :
    ∃ routine, mw.electionRsp peer t a = { mw with routine := routine } := by
  unfold electionRsp
  split
  · split <;> exact ⟨_, rfl⟩
  · exact ⟨_, rfl⟩

/-! ### Who a node is -/

/-- No action changes a node's own address or its peers. -/
lemma act_ids {mw : MiddleWare Ip} {na : NodeAct Ip} {e : Effect Ip}
    (h : mw.act na = some e) : e.mw.selfIp = mw.selfIp ∧ e.mw.otherIp = mw.otherIp := by
  cases act_cases h with
  | request method key value rand =>
    obtain ⟨arrived, hmw⟩ := request_frame mw method key value rand
    rw [hmw]
    exact ⟨rfl, rfl⟩
  | kvsBegin r =>
    obtain ⟨kvs, raftLog, locked, waiting, hmw⟩ := kvsBegin_frame mw r
    rw [hmw]
    exact ⟨rfl, rfl⟩
  | kvsWake hd =>
    obtain ⟨kvs, raftLog, locked, waiting, hmw⟩ := kvsWake_frame mw hd
    rw [hmw]
    exact ⟨rfl, rfl⟩
  | loopMaster | loopCondidate | loopSlave | consumerTimer | consumerDone | electionStart
  | electionStop | electionWin | beat | resign | producerDone | sessionLost | late =>
    exact ⟨rfl, rfl⟩
  | sessionSend s =>
    dsimp only
    split <;> exact ⟨rfl, rfl⟩
  | sessionDone s | sessionKept s =>
    obtain ⟨sessions, waiting, hmw⟩ := collected_frame mw s
    rw [hmw]
    exact ⟨rfl, rfl⟩
  | replicate src session mean t entry =>
    obtain ⟨_, _, _, _, _, _, _, hmw⟩ := handleReplicate_frame mw src mean t entry
    rw [hmw]
    exact ⟨rfl, rfl⟩
  | response src a s =>
    obtain ⟨sentLen, commitLen, hmw⟩ := collect_frame mw s (sendReplicate src a)
    rw [hmw]
    exact ⟨rfl, rfl⟩
  | vote src c =>
    obtain ⟨_, _, _, _, _, hmw⟩ := handleVoteRequest_frame mw src c
    rw [hmw]
    exact ⟨rfl, rfl⟩
  | voteRsp src t a =>
    obtain ⟨routine, hmw⟩ := electionRsp_frame mw src t a
    rw [hmw]
    exact ⟨rfl, rfl⟩

end MiddleWare

namespace Cluster

/-- Every node knows its own address and its peers. -/
def Peers {n : Nat} (s : Cluster (Fin (n + 1))) : Prop :=
  ∀ i, (s.node i).selfIp = i ∧ (s.node i).otherIp = others n i

lemma peers_init (n : Nat) : (init n).Peers := fun _ => ⟨rfl, rfl⟩

lemma Peers.after {n : Nat} {s : Cluster (Fin (n + 1))} (hs : s.Peers) {i : Fin (n + 1)}
    {na : NodeAct (Fin (n + 1))} {e : Effect (Fin (n + 1))} (h : (s.node i).act na = some e)
    (net : List (Packet (Fin (n + 1)))) : ({ s with net := net }.after i e).Peers := by
  intro j
  by_cases hj : j = i
  · subst hj
    rw [after_node_self, (MiddleWare.act_ids h).1, (MiddleWare.act_ids h).2]
    exact hs j
  · rw [after_node_ne _ _ hj]
    exact hs j

lemma length_others (n : Nat) (i : Fin (n + 1)) : (others n i).length = n := by
  have herase : others n i = (List.finRange (n + 1)).erase i := by
    rw [(List.nodup_finRange _).erase_eq_filter]
    exact List.filter_congr fun j _ => by by_cases hj : j = i <;> simp [hj]
  rw [herase, List.length_erase_of_mem (List.mem_finRange i), List.length_finRange]
  rfl

lemma nodup_others (n : Nat) (i : Fin (n + 1)) : (others n i).Nodup :=
  (List.nodup_finRange _).filter _

lemma mem_others {n : Nat} {i j : Fin (n + 1)} : j ∈ others n i ↔ j ≠ i := by
  simp [others]

end Cluster

end TiPI.DB
