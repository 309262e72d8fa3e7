import TiPI.DB.Frame
import Mathlib.Data.Fintype.Card
import Mathlib.Algebra.Group.Even
import Mathlib.Data.Finset.Card

/-!
# Elections

A node that completes `Election_co` holds a quorum of votes. Whether two nodes can do so in one
term depends on the quorum, `len(OtherIp) / 2 + 1`, being more than half of the cluster, and on no
node supporting two candidates.
-/

namespace TiPI.DB

variable {Ip : Type}

/-! ### What an action does to a node's part in elections -/

/-- Term and votes of a running election. -/
def Routine.candidacy : Routine Ip → Option (Nat × List Ip)
  | .election term votes _ => some (term, votes)
  | _ => none

def Event.isVote : Event Ip → Bool
  | .campaigned _ | .granted _ _ | .becameMaster _ => true
  | .invoked _ | .answered _ _ _ | .leftLoop _ _ => false

namespace MiddleWare

@[simp] lemma coDone_candidacy (mw : MiddleWare Ip) :
    mw.coDone.routine.candidacy = mw.routine.candidacy := by
  unfold coDone
  cases mw.routine <;> rfl

/-- No vote is cast by the packets sent. -/
def NoVoteSent (sent : List (Ip × Msg)) : Prop :=
  ∀ dst elTerm a, (dst, .voteRsp elTerm a) ∈ sent → a.answer = false

/-- The ways an action can touch a node's term, its vote, its candidacy and the history. -/
inductive BallotCase [DecidableEq Ip] (mw : MiddleWare Ip) (na : NodeAct Ip) (e : Effect Ip) :
    Prop
  | quiet (term : mw.term ≤ e.mw.term) (voted : e.mw.votedFor = mw.votedFor)
      (cand : e.mw.routine.candidacy = mw.routine.candidacy ∨ e.mw.routine.candidacy = none)
      (events : ∀ ev ∈ e.events, ev.isVote = false) (sent : NoVoteSent e.sent)
  | start (term : e.mw.term = mw.term + 1) (voted : e.mw.votedFor = mw.votedFor)
      (cand : e.mw.routine.candidacy = some (mw.term + 1, [mw.selfIp]))
      (events : e.events = [.campaigned (mw.term + 1)]) (sent : NoVoteSent e.sent)
      (act : na = .electionStart)
  | grant (src : Ip) (c : VoteRequest) (recv : na = .recv src (.vote c))
      (ok : mw.termOk src c ∧ mw.logOk c)
      (term : e.mw.term = c.elTerm) (voted : e.mw.votedFor = some src)
      (cand : e.mw.routine.candidacy = mw.routine.candidacy)
      (events : e.events = [.granted src c.elTerm])
      (sent : ∃ status, e.sent = [(src, .voteRsp c.elTerm ⟨status, c.elTerm, true⟩)])
  | count (peer : Ip) (t : Nat) (a : VoteAnswer) (votes : List Ip)
      (recv : na = .recv peer (.voteRsp t a)) (answer : a.answer = true)
      (before : mw.routine.candidacy = some (t, votes))
      (cand : e.mw.routine.candidacy = some (t, votes.insert peer))
      (term : e.mw.term = mw.term) (voted : e.mw.votedFor = mw.votedFor)
      (events : e.events = []) (sent : e.sent = [])
  | win (t : Nat) (votes : List Ip) (before : mw.routine.candidacy = some (t, votes))
      (quorum : mw.voteQuorum ≤ votes.length) (cand : e.mw.routine.candidacy = none)
      (term : e.mw.term = mw.term) (voted : e.mw.votedFor = mw.votedFor)
      (events : e.events = [.becameMaster t]) (sent : e.sent = []) (act : na = .electionWin)

lemma noVoteSent_nil : NoVoteSent ([] : List (Ip × Msg)) := by
  simp [NoVoteSent]

lemma section_not_vote (id : Nat) (sec : Section Ip) :
    ∀ ev ∈ sec.events id, ev.isVote = false := by
  cases sec <;> simp [Section.events, Event.isVote]

lemma request_not_vote (mw : MiddleWare Ip) (method : Method) (key value : String)
    (rand : Nat) : ∀ ev ∈ (mw.request method key value rand).events, ev.isVote = false := by
  simp only [request]
  split <;> simp [Event.isVote]

lemma giveWay_ballot (mw : MiddleWare Ip) (ip : Ip) (t : Nat) :
    (mw.giveWay ip t).term = t ∧ (mw.giveWay ip t).votedFor = mw.votedFor ∧
      (mw.giveWay ip t).routine.candidacy = mw.routine.candidacy :=
  ⟨rfl, rfl, coDone_candidacy _⟩

lemma handleReplicate_ballot (mw : MiddleWare Ip) (ip : Ip) (mean : Mean) (t : Nat)
    (e : RaftLogEntry) :
    mw.term ≤ (mw.handleReplicate ip mean t e).1.term ∧
      (mw.handleReplicate ip mean t e).1.votedFor = mw.votedFor ∧
      (mw.handleReplicate ip mean t e).1.routine.candidacy = mw.routine.candidacy := by
  have hway : mw.term ≤ t → mw.term ≤ (mw.giveWay ip t).term ∧
      (mw.giveWay ip t).votedFor = mw.votedFor ∧
      (mw.giveWay ip t).routine.candidacy = mw.routine.candidacy :=
    fun ht => ⟨ht, (giveWay_ballot mw ip t).2⟩
  unfold handleReplicate
  cases mw.state with
  | MASTER =>
    dsimp only
    split
    · exact ⟨le_refl _, rfl, rfl⟩
    · exact hway (by omega)
  | CONDIDATE =>
    dsimp only
    split
    · next ht => exact hway ht
    · exact ⟨le_refl _, rfl, rfl⟩
  | SLAVE =>
    dsimp only
    have hraise : (mw.raiseTerm t).term = max mw.term t ∧
        (mw.raiseTerm t).votedFor = mw.votedFor ∧ (mw.raiseTerm t).routine = mw.routine := by
      rw [raiseTerm_frame]
      exact ⟨rfl, rfl, rfl⟩
    obtain ⟨hterm, hvoted, hroutine⟩ := hraise
    split
    · exact ⟨hterm ▸ le_max_left _ _, hvoted, by rw [hroutine]⟩
    · obtain ⟨raftLog, kvs, running, hs⟩ := replicateSlave_frame (mw.raiseTerm t) mean e
      rw [hs]
      exact ⟨hterm ▸ le_max_left _ _, hvoted, by rw [← hroutine]⟩

variable [DecidableEq Ip]

/-- A piece that keeps term, vote and routine and sends no vote. -/
lemma BallotCase.of_frame {mw : MiddleWare Ip} {na : NodeAct Ip} {e : Effect Ip}
    (term : e.mw.term = mw.term) (voted : e.mw.votedFor = mw.votedFor)
    (cand : e.mw.routine.candidacy = mw.routine.candidacy ∨ e.mw.routine.candidacy = none)
    (events : ∀ ev ∈ e.events, ev.isVote = false) (sent : NoVoteSent e.sent) :
    BallotCase mw na e :=
  .quiet term.ge voted cand events sent

lemma handleVoteRequest_refused {mw : MiddleWare Ip} {src : Ip} {c : VoteRequest}
    (h : (mw.termOk src c && mw.logOk c) = false) :
    mw.handleVoteRequest src c = (mw, ⟨if src ∈ mw.otherIp then 200 else 405, mw.term, false⟩) := by
  simp [handleVoteRequest, h]

lemma act_ballot {mw : MiddleWare Ip} {na : NodeAct Ip} {e : Effect Ip}
    (h : mw.act na = some e) : BallotCase mw na e := by
  cases act_cases h with
  | request method key value rand =>
    obtain ⟨arrived, hmw⟩ := request_frame mw method key value rand
    refine .of_frame (by rw [hmw]) (by rw [hmw]) (Or.inl (by rw [hmw]))
      (request_not_vote mw method key value rand) ?_
    rw [request_sent]
    exact noVoteSent_nil
  | kvsBegin r =>
    obtain ⟨kvs, raftLog, locked, waiting, hmw⟩ := kvsBegin_frame mw r
    exact .of_frame (by rw [hmw]) (by rw [hmw]) (Or.inl (by rw [hmw]))
      (section_not_vote r.id _) noVoteSent_nil
  | kvsWake hd =>
    obtain ⟨kvs, raftLog, locked, waiting, hmw⟩ := kvsWake_frame mw hd
    exact .of_frame (by rw [hmw]) (by rw [hmw]) (Or.inl (by rw [hmw]))
      (section_not_vote hd.req.id _) noVoteSent_nil
  | loopMaster | loopCondidate | loopSlave | consumerTimer | consumerDone | electionStop | beat
  | resign | producerDone => exact .of_frame rfl rfl (Or.inr rfl) (by simp) noVoteSent_nil
  | sessionLost | late => exact .of_frame rfl rfl (Or.inl rfl) (by simp) noVoteSent_nil
  | electionStart =>
    refine .start rfl rfl rfl rfl ?_ rfl
    intro dst elTerm a ha
    simp at ha
  | electionWin t votes cancelled routine quorum =>
    exact .win t votes (by rw [routine]; rfl) quorum rfl rfl rfl rfl rfl rfl
  | sessionSend s =>
    have hsent : NoVoteSent (mw.sessionMsgs s mw.otherIp).1 := by
      intro dst elTerm a ha
      obtain ⟨_, _, hmsg, _⟩ := sessionMsgs_replicate mw s mw.otherIp _ ha
      simp at hmsg
    refine .of_frame ?_ ?_ (Or.inl ?_) (by simp) hsent <;> dsimp only <;> split <;> rfl
  | sessionDone s | sessionKept s =>
    obtain ⟨sessions, waiting, hmw⟩ := collected_frame mw s
    exact .of_frame (by rw [hmw]) (by rw [hmw]) (Or.inl (by rw [hmw])) (by simp) noVoteSent_nil
  | replicate src session mean t entry =>
    obtain ⟨hterm, hvoted, hcand⟩ := handleReplicate_ballot mw src mean t entry
    refine .quiet hterm hvoted (Or.inl hcand) (by simp) ?_
    intro dst elTerm a ha
    simp at ha
  | response src a s =>
    obtain ⟨sentLen, commitLen, hmw⟩ := collect_frame mw s (sendReplicate src a)
    rw [hmw]
    exact .of_frame rfl rfl (Or.inl rfl) (by simp) noVoteSent_nil
  | vote src c =>
    cases hok : (mw.termOk src c && mw.logOk c) with
    | true =>
      have hv : mw.handleVoteRequest src c =
          ({ mw with term := c.elTerm, state := .SLAVE, votedFor := some src,
                     leaderIP := src }.coDone,
            ⟨if src ∈ mw.otherIp then 200 else 405, c.elTerm, true⟩) := by
        simp only [handleVoteRequest, hok, if_true]
      rw [hv]
      refine .grant src c rfl (by simpa using hok) rfl rfl ?_ (by simp) ⟨_, rfl⟩
      exact coDone_candidacy _
    | false =>
      rw [handleVoteRequest_refused hok]
      refine .of_frame rfl rfl (Or.inl rfl) (by simp) ?_
      intro dst elTerm a ha
      simp only [List.mem_singleton, Prod.mk.injEq, Msg.voteRsp.injEq] at ha
      rw [ha.2.2]
  | voteRsp src elTerm a =>
    unfold electionRsp
    split
    · next t votes cancelled hr =>
      split
      · next hc =>
        obtain ⟨rfl, -, -, -, ha⟩ := hc
        exact .count src elTerm a votes rfl ha (by rw [hr]; rfl) rfl rfl rfl rfl rfl
      · exact .of_frame rfl rfl (Or.inl rfl) (by simp) noVoteSent_nil
    · exact .of_frame rfl rfl (Or.inl rfl) (by simp) noVoteSent_nil

section Ballot

variable {mw : MiddleWare Ip} {na : NodeAct Ip} {e : Effect Ip}

omit [DecidableEq Ip] in
lemma not_mem_of_quiet {ev : Event Ip} (hev : ev.isVote = true)
    (h : ∀ ev ∈ e.events, ev.isVote = false) : ev ∉ e.events := fun hmem => by
  simp [h ev hmem] at hev

lemma BallotCase.term_le (h : BallotCase mw na e) : mw.term ≤ e.mw.term := by
  cases h with
  | quiet term => exact term
  | start term => omega
  | grant src c _ ok term =>
    have hok := ok.1
    simp only [termOk, Bool.or_eq_true, Bool.and_eq_true, decide_eq_true_eq] at hok
    omega
  | count peer t a votes _ _ _ _ term => exact term.ge
  | win t votes _ _ _ term => exact term.ge

/-- A vote is granted by `HandleVoteRequest` alone, and remembered. -/
lemma BallotCase.granted (h : BallotCase mw na e) {c : Ip} {t : Nat}
    (hg : .granted c t ∈ e.events) :
    ∃ r : VoteRequest, na = .recv c (.vote r) ∧ t = r.elTerm ∧ mw.termOk c r ∧ mw.logOk r ∧
      e.mw.term = t ∧ e.mw.votedFor = some c := by
  cases h with
  | quiet _ _ _ events => exact absurd hg (not_mem_of_quiet rfl events)
  | start _ _ _ events => simp [events] at hg
  | grant src r recv ok term voted _ events =>
    simp only [events, List.mem_singleton, Event.granted.injEq] at hg
    obtain ⟨rfl, rfl⟩ := hg
    exact ⟨r, recv, rfl, ok.1, ok.2, term, voted⟩
  | count _ _ _ _ _ _ _ _ _ _ events => simp [events] at hg
  | win _ _ _ _ _ _ _ events => simp [events] at hg

/-- A vote kept for the term a node stays in keeps naming the same peer. -/
lemma BallotCase.votedFor (h : BallotCase mw na e) {c : Ip} (hterm : e.mw.term = mw.term)
    (hc : mw.votedFor = some c) : e.mw.votedFor = some c := by
  cases h with
  | quiet _ voted => rw [voted, hc]
  | start _ voted => rw [voted, hc]
  | grant src r _ ok term voted =>
    have hok := ok.1
    simp only [termOk, Bool.or_eq_true, Bool.and_eq_true, decide_eq_true_eq] at hok
    rcases hok with hlt | ⟨-, hsrc⟩
    · omega
    · rw [voted, ← hsrc, hc]
  | count _ _ _ _ _ _ _ _ _ voted => rw [voted, hc]
  | win _ _ _ _ _ _ voted => rw [voted, hc]

lemma BallotCase.campaigned (h : BallotCase mw na e) {t : Nat}
    (hc : .campaigned t ∈ e.events) : t = mw.term + 1 ∧ e.mw.term = t := by
  cases h with
  | quiet _ _ _ events => exact absurd hc (not_mem_of_quiet rfl events)
  | start term _ _ events =>
    simp only [events, List.mem_singleton, Event.campaigned.injEq] at hc
    omega
  | grant _ _ _ _ _ _ _ events => simp [events] at hc
  | count _ _ _ _ _ _ _ _ _ _ events => simp [events] at hc
  | win _ _ _ _ _ _ _ events => simp [events] at hc

lemma BallotCase.stands (h : BallotCase mw na e) {t : Nat} (hc : .campaigned t ∈ e.events) :
    na = .electionStart := by
  cases h with
  | quiet _ _ _ events => exact absurd hc (not_mem_of_quiet rfl events)
  | start _ _ _ _ _ act => exact act
  | grant _ _ _ _ _ _ _ events => simp [events] at hc
  | count _ _ _ _ _ _ _ _ _ _ events => simp [events] at hc
  | win _ _ _ _ _ _ _ events => simp [events] at hc

lemma BallotCase.sent (h : BallotCase mw na e) {c : Ip} {t : Nat} {a : VoteAnswer}
    (hp : (c, .voteRsp t a) ∈ e.sent) (ha : a.answer = true) : .granted c t ∈ e.events := by
  cases h with
  | quiet _ _ _ _ sent => simp [sent c t a hp] at ha
  | start _ _ _ _ sent => simp [sent c t a hp] at ha
  | grant src r _ _ _ _ _ events sent =>
    obtain ⟨status, hsent⟩ := sent
    simp only [hsent, List.mem_singleton, Prod.mk.injEq, Msg.voteRsp.injEq] at hp
    simp [events, hp.1, hp.2.1]
  | count _ _ _ _ _ _ _ _ _ _ _ sent => simp [sent] at hp
  | win _ _ _ _ _ _ _ _ sent => simp [sent] at hp

/-- A candidacy goes on, is opened with the node's own vote, or counts one more vote. -/
lemma BallotCase.candidacy (h : BallotCase mw na e) {t : Nat} {votes : List Ip}
    (hc : e.mw.routine.candidacy = some (t, votes)) :
    mw.routine.candidacy = some (t, votes) ∨
    (votes = [mw.selfIp] ∧ .campaigned t ∈ e.events) ∨
    ∃ peer a votes', na = .recv peer (.voteRsp t a) ∧ a.answer = true ∧
      mw.routine.candidacy = some (t, votes') ∧ votes = votes'.insert peer := by
  cases h with
  | quiet _ _ cand =>
    rcases cand with cand | cand
    · exact Or.inl (cand ▸ hc)
    · simp [cand] at hc
  | start _ _ cand events =>
    rw [cand, Option.some.injEq, Prod.mk.injEq] at hc
    obtain ⟨rfl, rfl⟩ := hc
    exact Or.inr (Or.inl ⟨rfl, by simp [events]⟩)
  | grant _ _ _ _ _ _ cand => exact Or.inl (cand ▸ hc)
  | count peer t' a votes' recv answer before cand =>
    rw [cand, Option.some.injEq, Prod.mk.injEq] at hc
    obtain ⟨rfl, rfl⟩ := hc
    exact Or.inr (Or.inr ⟨peer, a, votes', recv, answer, before, rfl⟩)
  | win _ _ _ _ cand => simp [cand] at hc

/-- `MASTER` is stored by an election that has its quorum. -/
lemma BallotCase.won (h : BallotCase mw na e) {t : Nat} (hw : .becameMaster t ∈ e.events) :
    ∃ votes, mw.routine.candidacy = some (t, votes) ∧ mw.voteQuorum ≤ votes.length ∧
      na = .electionWin := by
  cases h with
  | quiet _ _ _ events => exact absurd hw (not_mem_of_quiet rfl events)
  | start _ _ _ events => simp [events] at hw
  | grant _ _ _ _ _ _ _ events => simp [events] at hw
  | count _ _ _ _ _ _ _ _ _ _ events => simp [events] at hw
  | win t' votes before quorum _ _ _ events _ act =>
    simp only [events, List.mem_singleton, Event.becameMaster.injEq] at hw
    exact ⟨votes, hw ▸ before, quorum, act⟩

end Ballot

end MiddleWare

/-! ### One master a term -/

namespace Cluster

variable {n : Nat}

/-- Node `v` supports candidate `c` in term `t`: it is the candidate, or it has voted for it. -/
def Supports (s : Cluster (Fin (n + 1))) (v c : Fin (n + 1)) (t : Nat) : Prop :=
  (v = c ∧ (c, .campaigned t) ∈ s.trace) ∨ (v, .granted c t) ∈ s.trace

lemma Supports.after {s : Cluster (Fin (n + 1))} {v c : Fin (n + 1)} {t : Nat}
    (h : s.Supports v c t) (i : Fin (n + 1)) (e : Effect (Fin (n + 1)))
    (net : List (Packet (Fin (n + 1)))) : ({ s with net := net }.after i e).Supports v c t :=
  h.imp (fun ⟨hv, hc⟩ => ⟨hv, mem_after_trace.mpr (Or.inl hc)⟩)
    fun hg => mem_after_trace.mpr (Or.inl hg)

/-- Node `c` is supported in term `t` by `len(OtherIp) / 2 + 1` nodes. -/
def Elected (s : Cluster (Fin (n + 1))) (c : Fin (n + 1)) (t : Nat) : Prop :=
  ∃ Q : Finset (Fin (n + 1)), n / 2 + 1 ≤ Q.card ∧ ∀ v ∈ Q, s.Supports v c t

/-- A node grants no vote in a term for which it has started an election of its own. -/
def SingleVote (s : Cluster (Fin (n + 1))) (i : Fin (n + 1)) (na : NodeAct (Fin (n + 1))) :
    Prop :=
  ∀ p ∈ na.voteRequest, (s.node i).termOk p.1 p.2 ∧ (s.node i).logOk p.2 →
    (i, .campaigned p.2.elTerm) ∉ s.trace

instance (s : Cluster (Fin (n + 1))) (i : Fin (n + 1)) (na : NodeAct (Fin (n + 1))) :
    Decidable (s.SingleVote i na) :=
  inferInstanceAs (Decidable (∀ p ∈ na.voteRequest, _))

/-- What every run keeps. `granted` and `campaigned` bound the history by the term of the node. -/
structure BallotInv (s : Cluster (Fin (n + 1))) : Prop where
  peers : s.Peers
  granted : ∀ i c t, (i, .granted c t) ∈ s.trace →
    t ≤ (s.node i).term ∧ (t = (s.node i).term → (s.node i).votedFor = some c)
  campaigned : ∀ i t, (i, .campaigned t) ∈ s.trace → t ≤ (s.node i).term
  unique : ∀ i c c' t, (i, .granted c t) ∈ s.trace → (i, .granted c' t) ∈ s.trace → c = c'
  votes : ∀ v c t a, ⟨v, c, .voteRsp t a⟩ ∈ s.net → a.answer = true →
    (v, .granted c t) ∈ s.trace
  candidate : ∀ i t votes, (s.node i).routine.candidacy = some (t, votes) →
    votes.Nodup ∧ ∀ v ∈ votes, s.Supports v i t
  won : ∀ i t, (i, .becameMaster t) ∈ s.trace → s.Elected i t

/-- What a run of single votes keeps: `unique` and `apart` leave one supported candidate a term. -/
structure ElectionInv (s : Cluster (Fin (n + 1))) : Prop extends BallotInv s where
  apart : ∀ i c t, (i, .granted c t) ∈ s.trace → (i, .campaigned t) ∉ s.trace

lemma ballotInv_init (n : Nat) : (init n).BallotInv where
  peers := peers_init n
  granted := by simp [init]
  campaigned := by simp [init]
  unique := by simp [init]
  votes := by simp [init]
  candidate := by simp [init, MiddleWare.init, Routine.candidacy]
  won := by simp [init]

lemma electionInv_init (n : Nat) : (init n).ElectionInv where
  toBallotInv := ballotInv_init n
  apart := by simp [init]

/-- A node has supported nobody in a term above its own. -/
lemma BallotInv.supports_le {s : Cluster (Fin (n + 1))} (h : s.BallotInv) {v c : Fin (n + 1)}
    {t : Nat} (hs : s.Supports v c t) : t ≤ (s.node v).term := by
  rcases hs with ⟨rfl, hc⟩ | hg
  · exact h.campaigned v t hc
  · exact (h.granted v c t hg).1

section Step

variable {s : Cluster (Fin (n + 1))} {i : Fin (n + 1)} {na : NodeAct (Fin (n + 1))}
  {net : List (Packet (Fin (n + 1)))} {e : Effect (Fin (n + 1))}

lemma BallotInv.granted_after (h : s.BallotInv) (hb : (s.node i).BallotCase na e)
    {j c : Fin (n + 1)} {t : Nat}
    (hg : (j, .granted c t) ∈ ({ s with net := net }.after i e).trace) :
    t ≤ (({ s with net := net }.after i e).node j).term ∧
      (t = (({ s with net := net }.after i e).node j).term →
        (({ s with net := net }.after i e).node j).votedFor = some c) := by
  by_cases hj : j = i
  · subst hj
    rw [after_node_self]
    rcases mem_after_trace.mp hg with hold | ⟨-, hnew⟩
    · obtain ⟨hle, hvote⟩ := h.granted j c t hold
      have hmono := hb.term_le
      exact ⟨hle.trans hmono, fun ht => hb.votedFor (by omega) (hvote (by omega))⟩
    · obtain ⟨r, -, -, -, -, hterm, hvoted⟩ := hb.granted hnew
      exact ⟨hterm.ge, fun _ => hvoted⟩
  · rw [after_node_ne _ _ hj]
    rcases mem_after_trace.mp hg with hold | ⟨rfl, -⟩
    · exact h.granted j c t hold
    · exact absurd rfl hj

lemma BallotInv.campaigned_after (h : s.BallotInv) (hb : (s.node i).BallotCase na e)
    {j : Fin (n + 1)} {t : Nat}
    (hc : (j, .campaigned t) ∈ ({ s with net := net }.after i e).trace) :
    t ≤ (({ s with net := net }.after i e).node j).term := by
  by_cases hj : j = i
  · subst hj
    rw [after_node_self]
    rcases mem_after_trace.mp hc with hold | ⟨-, hnew⟩
    · exact (h.campaigned j t hold).trans hb.term_le
    · exact (hb.campaigned hnew).2.ge
  · rw [after_node_ne _ _ hj]
    rcases mem_after_trace.mp hc with hold | ⟨rfl, -⟩
    · exact h.campaigned j t hold
    · exact absurd rfl hj

/-- A new vote in a term the node has voted in before goes to the same candidate. -/
lemma BallotInv.granted_same (h : s.BallotInv) (hb : (s.node i).BallotCase na e)
    {c c' : Fin (n + 1)} {t : Nat} (hold : (i, .granted c t) ∈ s.trace)
    (hnew : .granted c' t ∈ e.events) : c = c' := by
  obtain ⟨hle, hvote⟩ := h.granted i c t hold
  obtain ⟨r, -, rfl, hok, -, -, -⟩ := hb.granted hnew
  simp only [MiddleWare.termOk, Bool.or_eq_true, Bool.and_eq_true, decide_eq_true_eq] at hok
  rcases hok with hlt | ⟨heq, hvoted⟩
  · omega
  · rw [hvote heq, Option.some.injEq] at hvoted
    exact hvoted

lemma BallotInv.unique_after (h : s.BallotInv) (hb : (s.node i).BallotCase na e)
    {j c c' : Fin (n + 1)} {t : Nat}
    (hg : (j, .granted c t) ∈ ({ s with net := net }.after i e).trace)
    (hg' : (j, .granted c' t) ∈ ({ s with net := net }.after i e).trace) : c = c' := by
  rcases mem_after_trace.mp hg with hold | ⟨rfl, hnew⟩ <;>
    rcases mem_after_trace.mp hg' with hold' | ⟨hj, hnew'⟩
  · exact h.unique j c c' t hold hold'
  · subst hj
    exact h.granted_same hb hold hnew'
  · exact (h.granted_same hb hold' hnew).symm
  · obtain ⟨r, -, -, -, -, -, hv⟩ := hb.granted hnew
    obtain ⟨r', -, -, -, -, -, hv'⟩ := hb.granted hnew'
    exact Option.some.inj (hv.symm.trans hv')

lemma ElectionInv.apart_after (h : s.ElectionInv) (hb : (s.node i).BallotCase na e)
    (hok : s.SingleVote i na) {j c : Fin (n + 1)} {t : Nat}
    (hg : (j, .granted c t) ∈ ({ s with net := net }.after i e).trace) :
    (j, .campaigned t) ∉ ({ s with net := net }.after i e).trace := by
  intro hc
  rcases mem_after_trace.mp hg with hold | ⟨rfl, hnew⟩ <;>
    rcases mem_after_trace.mp hc with hold' | ⟨hj, hnew'⟩
  · exact h.apart j c t hold hold'
  · subst hj
    obtain ⟨ht, -⟩ := hb.campaigned hnew'
    have hle := (h.granted j c t hold).1
    omega
  · obtain ⟨r, rfl, rfl, hterm, hlog, -, -⟩ := hb.granted hnew
    exact hok (c, r) rfl ⟨hterm, hlog⟩ hold'
  · obtain ⟨r, hrecv, rfl, -, -, -, -⟩ := hb.granted hnew
    obtain ⟨ht, hterm⟩ := hb.campaigned hnew'
    cases hb with
    | quiet _ _ _ events => exact absurd hnew (MiddleWare.not_mem_of_quiet rfl events)
    | start _ _ _ events => simp [events] at hnew
    | grant _ _ _ _ _ _ _ events => simp [events] at hnew'
    | count _ _ _ _ _ _ _ _ _ _ events => simp [events] at hnew
    | win _ _ _ _ _ _ _ events => simp [events] at hnew

lemma BallotInv.candidate_after (h : s.BallotInv) (hb : (s.node i).BallotCase na e)
    (hrecv : ∀ src msg, na = .recv src msg → ⟨src, i, msg⟩ ∈ s.net)
    {j : Fin (n + 1)} {t : Nat} {votes : List (Fin (n + 1))}
    (hc : (({ s with net := net }.after i e).node j).routine.candidacy = some (t, votes)) :
    votes.Nodup ∧ ∀ v ∈ votes, ({ s with net := net }.after i e).Supports v j t := by
  have hkeep : (s.node j).routine.candidacy = some (t, votes) →
      votes.Nodup ∧ ∀ v ∈ votes, ({ s with net := net }.after i e).Supports v j t := by
    intro hold
    obtain ⟨hnd, hsup⟩ := h.candidate j t votes hold
    exact ⟨hnd, fun v hv => (hsup v hv).after i e net⟩
  by_cases hj : j = i
  · subst hj
    rw [after_node_self] at hc
    rcases hb.candidacy hc with hold | ⟨rfl, hnew⟩ | ⟨peer, a, votes', hna, ha, hold, rfl⟩
    · exact hkeep hold
    · refine ⟨List.nodup_singleton _, fun v hv => Or.inl ?_⟩
      rw [List.mem_singleton, (h.peers j).1] at hv
      exact ⟨hv, mem_after_trace.mpr (Or.inr ⟨rfl, hnew⟩)⟩
    · obtain ⟨hnd, hsup⟩ := h.candidate j t votes' hold
      refine ⟨hnd.insert, fun v hv => ?_⟩
      rcases List.mem_insert_iff.mp hv with rfl | hv
      · exact Supports.after (Or.inr (h.votes v j t a (hrecv v _ hna) ha)) j e net
      · exact (hsup v hv).after j e net
  · rw [after_node_ne _ _ hj] at hc
    exact hkeep hc

lemma BallotInv.won_after (h : s.BallotInv) (hb : (s.node i).BallotCase na e)
    {j : Fin (n + 1)} {t : Nat}
    (hw : (j, .becameMaster t) ∈ ({ s with net := net }.after i e).trace) :
    ({ s with net := net }.after i e).Elected j t := by
  rcases mem_after_trace.mp hw with hold | ⟨rfl, hnew⟩
  · obtain ⟨Q, hcard, hQ⟩ := h.won j t hold
    exact ⟨Q, hcard, fun v hv => (hQ v hv).after i e net⟩
  · obtain ⟨votes, hcand, hquorum, -⟩ := hb.won hnew
    obtain ⟨hnd, hsup⟩ := h.candidate j t votes hcand
    refine ⟨votes.toFinset, ?_, fun v hv => ?_⟩
    · rw [List.toFinset_card_of_nodup hnd]
      rwa [MiddleWare.voteQuorum, (h.peers j).2, length_others] at hquorum
    · exact (hsup v (List.mem_toFinset.mp hv)).after j e net

lemma BallotInv.after (h : s.BallotInv) (hact : (s.node i).act na = some e) (hnet : net ⊆ s.net)
    (hrecv : ∀ src msg, na = .recv src msg → ⟨src, i, msg⟩ ∈ s.net) :
    ({ s with net := net }.after i e).BallotInv := by
  have hb := MiddleWare.act_ballot hact
  refine ⟨h.peers.after hact net, ?_, ?_, ?_, ?_, ?_, ?_⟩
  · exact fun j c t => h.granted_after hb
  · exact fun j t => h.campaigned_after hb
  · exact fun j c c' t => h.unique_after hb
  · intro v c t a hp ha
    rcases mem_after_net.mp hp with hold | ⟨hv, hnew⟩
    · exact mem_after_trace.mpr (Or.inl (h.votes v c t a (hnet hold) ha))
    · exact mem_after_trace.mpr (Or.inr ⟨hv, hb.sent hnew ha⟩)
  · exact fun j t votes => h.candidate_after hb hrecv
  · exact fun j t => h.won_after hb

/-- Every action that casts single votes keeps one supported candidate a term. -/
lemma ElectionInv.after (h : s.ElectionInv) (hok : s.SingleVote i na)
    (hact : (s.node i).act na = some e) (hnet : net ⊆ s.net)
    (hrecv : ∀ src msg, na = .recv src msg → ⟨src, i, msg⟩ ∈ s.net) :
    ({ s with net := net }.after i e).ElectionInv where
  toBallotInv := h.toBallotInv.after hact hnet hrecv
  apart _ _ _ := h.apart_after (MiddleWare.act_ballot hact) hok

end Step

lemma electionInv_run {s : Cluster (Fin (n + 1))} (h : Run step (Lift SingleVote) (init n) s) :
    s.ElectionInv :=
  invariant h (electionInv_init n) fun _ _ _ _ _ hs hok hact hnet hrecv =>
    hs.after hok hact hnet hrecv

/-- Sets that have more nodes than there are share one. -/
lemma exists_mem_inter {Q Q' : Finset (Fin (n + 1))} (h : n + 1 < Q.card + Q'.card) :
    ∃ v, v ∈ Q ∧ v ∈ Q' := by
  have hlt : (Finset.univ : Finset (Fin (n + 1))).card < Q.card + Q'.card := by
    rwa [Finset.card_univ, Fintype.card_fin]
  obtain ⟨v, hv⟩ := Finset.inter_nonempty_of_card_lt_card_add_card (Finset.subset_univ Q)
    (Finset.subset_univ Q') hlt
  exact ⟨v, Finset.mem_inter.mp hv⟩

/-- Two quorums of an odd cluster share a node. -/
lemma quorum_inter (hn : Even n) {Q Q' : Finset (Fin (n + 1))} (h : n / 2 + 1 ≤ Q.card)
    (h' : n / 2 + 1 ≤ Q'.card) : ∃ v, v ∈ Q ∧ v ∈ Q' := by
  obtain ⟨k, rfl⟩ := hn
  exact exists_mem_inter (by omega)

/-- A node that supports two candidates of one term supports one. -/
lemma ElectionInv.supports_unique {s : Cluster (Fin (n + 1))} (h : s.ElectionInv)
    {v c c' : Fin (n + 1)} {t : Nat} (hs : s.Supports v c t) (hs' : s.Supports v c' t) :
    c = c' := by
  rcases hs with ⟨rfl, hc⟩ | hg <;> rcases hs' with ⟨rfl, hc'⟩ | hg'
  · rfl
  · exact absurd hc (h.apart _ _ _ hg')
  · exact absurd hc' (h.apart _ _ _ hg)
  · exact h.unique v c c' t hg hg'

/-- In an odd cluster whose nodes grant no vote in a term they stand in themselves, at most one
node completes `Election_co` in a term. -/
theorem election_safety (hn : Even n) {s : Cluster (Fin (n + 1))}
    (h : Run step (Lift SingleVote) (init n) s) {i j : Fin (n + 1)} {t : Nat}
    (hi : (i, .becameMaster t) ∈ s.trace) (hj : (j, .becameMaster t) ∈ s.trace) : i = j := by
  have hinv := electionInv_run h
  obtain ⟨Q, hQ, hsup⟩ := hinv.won i t hi
  obtain ⟨Q', hQ', hsup'⟩ := hinv.won j t hj
  obtain ⟨v, hv, hv'⟩ := quorum_inter hn hQ hQ'
  exact hinv.supports_unique (hsup v hv) (hsup' v hv')

/-! ### Runs -/

/-- Node `i` times out and opens an election. -/
def stands (i : Fin (n + 1)) : List (Action (Fin (n + 1))) :=
  [.act i .mainLoop, .act i .consumerTimer, .act i .mainLoop, .act i .electionStart]

/-- Node `0` stands and wins with the vote of node `1`. -/
def soundElection : List (Action (Fin 3)) :=
  stands 0 ++ [.deliver 0, .deliver 1, .act 0 .electionWin]

theorem election_safety_three : ∃ s : Cluster (Fin 3),
    Run step (Lift SingleVote) (init 2) s ∧ (0, .becameMaster 1) ∈ s.trace ∧
      ∀ j, (j, .becameMaster 1) ∈ s.trace → j = 0 := by
  obtain ⟨s, hrun, hwon⟩ : ∃ s, Run step (Lift SingleVote) (init 2) s ∧
      ((0 : Fin 3), Event.becameMaster 1) ∈ s.trace :=
    exists_of_exec soundElection (by decide)
  exact ⟨s, hrun, hwon, fun j hj => election_safety ⟨1, rfl⟩ hrun hj hwon⟩

/-- In a cluster of two nodes each node is a quorum. -/
def loneVotes : List (Action (Fin 2)) :=
  stands 0 ++ stands 1 ++ [.act 0 .electionWin, .act 1 .electionWin]

/-- Node `0` has voted for node `1` in term `1`. Both stand in term `2`, node `2` votes for node
`0`, and node `0` takes its old vote for one of term `2`. -/
def staleVote : List (Action (Fin 3)) :=
  stands 1 ++ [.deliver 0, .act 1 .electionStop, .act 1 .mainLoop, .act 1 .electionStart] ++
    stands 0 ++
    [.deliver 5, .deliver 5, .deliver 2, .deliver 4, .act 0 .electionWin, .act 1 .electionWin]

/-- Two masters of one term: by a quorum that is no majority with two nodes, by a double vote
with three. -/
theorem two_masters :
    (∃ s : Cluster (Fin 2), Reach step (init 1) s ∧
      (0, .becameMaster 1) ∈ s.trace ∧ (1, .becameMaster 1) ∈ s.trace) ∧
    (∃ s : Cluster (Fin 3), Reach step (init 2) s ∧
      (0, .becameMaster 2) ∈ s.trace ∧ (1, .becameMaster 2) ∈ s.trace) := by
  constructor
  · exact exists_of_exec loneVotes (by decide)
  · exact exists_of_exec staleVote (by decide)

end Cluster

end TiPI.DB
