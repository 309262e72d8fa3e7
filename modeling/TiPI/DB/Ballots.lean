import TiPI.DB.Actions
import TiPI.DB.Election
import TiPI.DB.Master

/-!
# What stands behind a vote

The term in which a node is `MASTER` is one whose election it has won, as long as `Term` is not
raised between the last vote and the critical section at the end of `Election_co`.
-/

namespace TiPI.DB

variable {Ip : Type}

/-- The node is about to stand, or stands, in an election. -/
def Routine.stands : Routine Ip → Bool
  | .electionStart _ | .election _ _ _ => true
  | .main | .consumer _ | .producer _ _ | .orphan => false

namespace MiddleWare

lemma handleReplicate_master {mw : MiddleWare Ip} {ip : Ip} {mean : Mean} {t : Nat}
    {e : RaftLogEntry} (h : (mw.handleReplicate ip mean t e).1.state = .MASTER) :
    (mw.handleReplicate ip mean t e).1 = mw := by
  unfold handleReplicate at h ⊢
  cases hs : mw.state with
  | MASTER =>
    simp only [hs] at h ⊢
    split at h
    · next ht => rw [if_pos ht]
    · simp [giveWay, coDone] at h
  | CONDIDATE =>
    simp only [hs] at h ⊢
    split at h
    · simp [giveWay, coDone] at h
    · simp [hs] at h
  | SLAVE =>
    simp only [hs] at h
    split at h
    · simp [raiseTerm_frame, hs] at h
    · obtain ⟨raftLog, kvs, running, hr⟩ := replicateSlave_frame (mw.raiseTerm t) mean e
      rw [hr, raiseTerm_frame] at h
      simp [hs] at h

variable [DecidableEq Ip]

lemma handleVoteRequest_master {mw : MiddleWare Ip} {src : Ip} {c : VoteRequest}
    (h : (mw.handleVoteRequest src c).1.state = .MASTER) :
    (mw.handleVoteRequest src c).1 = mw := by
  unfold handleVoteRequest at h ⊢
  dsimp only at h ⊢
  split at h
  · simp [coDone] at h
  · next hno => rw [if_neg hno]

lemma electionRsp_stands (mw : MiddleWare Ip) (peer : Ip) (t : Nat) (a : VoteAnswer) :
    (mw.electionRsp peer t a).routine.stands = mw.routine.stands := by
  unfold electionRsp
  split
  · next hr =>
    split
    · rw [hr]
      rfl
    · rfl
  · rfl

/-- A node enters `MASTER` by winning an election only, and stays `MASTER` in one term. -/
lemma act_master {mw : MiddleWare Ip} {na : NodeAct Ip} {e : Effect Ip}
    (h : mw.act na = some e) (hs : e.mw.state = .MASTER) :
    na = .electionWin ∨ (mw.state = .MASTER ∧
      (mw.routine.stands = false → e.mw.routine.stands = false ∧ e.mw.term = mw.term)) := by
  cases act_cases h with
  | request method key value rand =>
    obtain ⟨arrived, hmw⟩ := request_frame mw method key value rand
    rw [hmw] at hs ⊢
    exact Or.inr ⟨hs, fun hr => ⟨hr, rfl⟩⟩
  | kvsBegin r =>
    obtain ⟨kvs, raftLog, locked, waiting, hmw⟩ := kvsBegin_frame mw r
    rw [hmw] at hs ⊢
    exact Or.inr ⟨hs, fun hr => ⟨hr, rfl⟩⟩
  | kvsWake hd =>
    obtain ⟨kvs, raftLog, locked, waiting, hmw⟩ := kvsWake_frame mw hd
    rw [hmw] at hs ⊢
    exact Or.inr ⟨hs, fun hr => ⟨hr, rfl⟩⟩
  | loopMaster _ state => exact Or.inr ⟨state, fun _ => ⟨rfl, rfl⟩⟩
  | loopCondidate _ state => simp [state] at hs
  | loopSlave _ state => simp [state] at hs
  | consumerTimer => simp at hs
  | consumerDone => exact Or.inr ⟨hs, fun _ => ⟨rfl, rfl⟩⟩
  | electionStart _ routine => exact Or.inr ⟨hs, fun hr => by simp [routine, Routine.stands] at hr⟩
  | electionStop => exact Or.inr ⟨hs, fun _ => ⟨rfl, rfl⟩⟩
  | electionWin => exact Or.inl rfl
  | beat _ _ _ state => exact Or.inr ⟨state, fun _ => ⟨rfl, rfl⟩⟩
  | resign => exact Or.inr ⟨hs, fun _ => ⟨rfl, rfl⟩⟩
  | producerDone => exact Or.inr ⟨hs, fun _ => ⟨rfl, rfl⟩⟩
  | sessionSend s =>
    dsimp only at hs ⊢
    split at hs <;> rename_i halive
    · rw [if_pos halive]
      exact Or.inr ⟨hs, fun hr => ⟨hr, rfl⟩⟩
    · rw [if_neg halive]
      exact Or.inr ⟨hs, fun hr => ⟨hr, rfl⟩⟩
  | sessionDone s =>
    obtain ⟨sessions, waiting, hmw⟩ := collected_frame mw s
    rw [hmw] at hs ⊢
    exact Or.inr ⟨hs, fun hr => ⟨hr, rfl⟩⟩
  | sessionLost => simp at hs
  | sessionKept s =>
    obtain ⟨sessions, waiting, hmw⟩ := collected_frame mw s
    rw [hmw] at hs ⊢
    exact Or.inr ⟨hs, fun hr => ⟨hr, rfl⟩⟩
  | replicate src session mean t entry =>
    have hmw := handleReplicate_master hs
    dsimp only at hs ⊢
    rw [hmw] at hs ⊢
    exact Or.inr ⟨hs, fun hr => ⟨hr, rfl⟩⟩
  | late => exact Or.inr ⟨hs, fun hr => ⟨hr, rfl⟩⟩
  | response src a s =>
    obtain ⟨sentLen, commitLen, hmw⟩ := collect_frame mw s (sendReplicate src a)
    rw [hmw] at hs ⊢
    exact Or.inr ⟨hs, fun hr => ⟨hr, rfl⟩⟩
  | vote src c =>
    have hmw := handleVoteRequest_master hs
    dsimp only at hs ⊢
    rw [hmw] at hs ⊢
    exact Or.inr ⟨hs, fun hr => ⟨hr, rfl⟩⟩
  | voteRsp src elTerm a =>
    have hstands := electionRsp_stands mw src elTerm a
    obtain ⟨routine, hmw⟩ := electionRsp_frame mw src elTerm a
    rw [hmw] at hs hstands ⊢
    exact Or.inr ⟨hs, fun hr => ⟨hstands.trans hr, rfl⟩⟩

lemma BallotCase.stood {mw : MiddleWare Ip} {na : NodeAct Ip} {e : Effect Ip}
    (h : BallotCase mw na e) {t : Nat} (hc : .campaigned t ∈ e.events) :
    e.mw.routine.candidacy = some (t, [mw.selfIp]) := by
  cases h with
  | quiet _ _ _ events => exact absurd hc (not_mem_of_quiet rfl events)
  | start _ _ cand events =>
    obtain rfl : t = mw.term + 1 := by simpa [events] using hc
    exact cand
  | grant _ _ _ _ _ _ _ events => simp [events] at hc
  | count _ _ _ _ _ _ _ _ _ _ events => simp [events] at hc
  | win _ _ _ _ _ _ _ events => simp [events] at hc

/-- The votes of an election that goes on: those it had, the node's own one at its start, or one
more that a peer has given to this election. -/
lemma act_voters {mw : MiddleWare Ip} {na : NodeAct Ip} {e : Effect Ip}
    (h : mw.act na = some e) {t : Nat} {votes : List Ip}
    (hc : e.mw.routine.candidacy = some (t, votes)) :
    mw.routine.candidacy = some (t, votes) ∨
    (votes = [mw.selfIp] ∧ .campaigned t ∈ e.events) ∨
    ∃ peer votes', na = .recv peer (.voteRsp t ⟨200, t, true⟩) ∧
      mw.routine.candidacy = some (t, votes') ∧ votes = votes'.insert peer := by
  rcases (act_ballot h).candidacy hc with hold | hstart | ⟨peer, a, votes', rfl, -, hbefore, hvotes⟩
  · exact Or.inl hold
  · exact Or.inr (Or.inl hstart)
  · by_cases ha : a = ⟨200, t, true⟩
    · exact Or.inr (Or.inr ⟨peer, votes', by rw [ha], hbefore, hvotes⟩)
    · have hsame : mw.electionRsp peer t a = mw := by
        unfold electionRsp
        split
        · next t' _ _ hr =>
          rw [hr] at hbefore
          obtain ⟨rfl, -⟩ : t' = t ∧ _ = votes' := by simpa [Routine.candidacy] using hbefore
          rw [if_neg]
          rintro ⟨-, -, hstatus, hterm, hanswer⟩
          exact ha (by rw [← hstatus, ← hterm, ← hanswer])
        · rfl
      cases act_cases h with
      | voteRsp =>
        dsimp only at hc
        rw [hsame] at hc
        exact Or.inl hc

end MiddleWare

namespace Solo

variable [DecidableEq Ip]

lemma step_inv {s s' : Solo Ip} {na : NodeAct Ip} (h : s.step na = some s') :
    ∃ e, s.mw.act na = some e ∧ s' = ⟨e.mw, s.trace ++ e.events⟩ := by
  obtain ⟨e, he, rfl⟩ := Option.map_eq_some_iff.mp h
  exact ⟨e, he, rfl⟩

/-! ### The term of a master -/

omit [DecidableEq Ip] in
/-- The node has stood in term `t` and has a quorum of votes for it: its own one, and those of
peers that have answered this election. -/
structure Elected (as : List (NodeAct Ip)) (s : Solo Ip) (t : Nat) : Prop where
  campaigned : .campaigned t ∈ s.trace
  quorum : ∃ votes : List Ip, votes.Nodup ∧ s.mw.voteQuorum ≤ votes.length ∧
    ∀ v ∈ votes, v = s.mw.selfIp ∨ .recv v (.voteRsp t ⟨200, t, true⟩) ∈ as

omit [DecidableEq Ip] in
/-- An election is won while the node is still in its term. -/
def WinsOwnTerm (s : Solo Ip) (na : NodeAct Ip) : Prop :=
  na = .electionWin → ∀ p ∈ s.mw.routine.candidacy, p.1 = s.mw.term

instance (s : Solo Ip) (na : NodeAct Ip) : Decidable (s.WinsOwnTerm na) :=
  inferInstanceAs (Decidable (_ → _))

omit [DecidableEq Ip] in
structure ElectedInv (as : List (NodeAct Ip)) (s : Solo Ip) : Prop where
  seated : s.mw.state = .MASTER → s.mw.routine.stands = false
  elected : s.mw.state = .MASTER → s.Elected as s.mw.term
  votes : ∀ t votes, s.mw.routine.candidacy = some (t, votes) →
    .campaigned t ∈ s.trace ∧ votes.Nodup ∧
      ∀ v ∈ votes, v = s.mw.selfIp ∨ .recv v (.voteRsp t ⟨200, t, true⟩) ∈ as
  latest : ∀ t votes, s.mw.routine.candidacy = some (t, votes) →
    ∀ t', .campaigned t' ∈ s.trace → t' ≤ t
  bound : ∀ t, .campaigned t ∈ s.trace → t ≤ s.mw.term

omit [DecidableEq Ip] in
lemma electedInv_start (selfIp : Ip) (otherIp : List Ip) :
    ElectedInv [] (start (.init selfIp otherIp)) where
  seated := by simp [start, MiddleWare.init]
  elected := by simp [start, MiddleWare.init]
  votes := by simp [start, MiddleWare.init, Routine.candidacy]
  latest := by simp [start, MiddleWare.init, Routine.candidacy]
  bound := by simp [start]

variable {as : List (NodeAct Ip)} {s : Solo Ip} {na : NodeAct Ip} {e : Effect Ip}

lemma ElectedInv.votes_after (h : ElectedInv as s) (hact : s.mw.act na = some e) {t : Nat}
    {votes : List Ip} (hc : e.mw.routine.candidacy = some (t, votes)) :
    .campaigned t ∈ s.trace ++ e.events ∧ votes.Nodup ∧
      ∀ v ∈ votes, v = e.mw.selfIp ∨ .recv v (.voteRsp t ⟨200, t, true⟩) ∈ as ++ [na] := by
  rw [(MiddleWare.act_ids hact).1]
  rcases MiddleWare.act_voters hact hc with hold | ⟨rfl, hev⟩ | ⟨peer, votes', hna, hbefore, rfl⟩
  · obtain ⟨hcamp, hnodup, hvotes⟩ := h.votes t votes hold
    exact ⟨List.mem_append_left _ hcamp, hnodup,
      fun v hv => (hvotes v hv).imp id (List.mem_append_left _)⟩
  · exact ⟨List.mem_append_right _ hev, List.nodup_singleton _,
      fun v hv => Or.inl (List.mem_singleton.mp hv)⟩
  · obtain ⟨hcamp, hnodup, hvotes⟩ := h.votes t votes' hbefore
    refine ⟨List.mem_append_left _ hcamp, hnodup.insert, ?_⟩
    intro v hv
    rcases List.mem_insert_iff.mp hv with rfl | hv
    · exact Or.inr (List.mem_append_right _ (by simp [hna]))
    · exact (hvotes v hv).imp id (List.mem_append_left _)

lemma ElectedInv.bound_after (h : ElectedInv as s) (hact : s.mw.act na = some e) {t : Nat}
    (hc : .campaigned t ∈ s.trace ++ e.events) : t ≤ e.mw.term := by
  have hballot := MiddleWare.act_ballot hact
  rcases List.mem_append.mp hc with hold | hnew
  · exact (h.bound t hold).trans hballot.term_le
  · exact (hballot.campaigned hnew).2.ge

lemma ElectedInv.latest_after (h : ElectedInv as s) (hact : s.mw.act na = some e) {t t' : Nat}
    {votes : List Ip} (hc : e.mw.routine.candidacy = some (t, votes))
    (hc' : .campaigned t' ∈ s.trace ++ e.events) : t' ≤ t := by
  have hballot := MiddleWare.act_ballot hact
  rcases List.mem_append.mp hc' with hold | hnew
  · rcases hballot.candidacy hc with hsame | ⟨-, hstart⟩ | ⟨_, _, votes', -, -, hbefore, -⟩
    · exact h.latest t votes hsame t' hold
    · have hbound := h.bound t' hold
      have hterm := (hballot.campaigned hstart).1
      omega
    · exact h.latest t votes' hbefore t' hold
  · obtain ⟨rfl, -⟩ : t' = t ∧ _ = votes := by simpa [hballot.stood hnew] using hc
    exact le_refl _

omit [DecidableEq Ip] in
lemma Elected.mono {s s' : Solo Ip} {as bs : List (NodeAct Ip)} {t : Nat}
    (h : s.Elected as t) (has : as ⊆ bs) (htrace : s.trace ⊆ s'.trace)
    (hself : s'.mw.selfIp = s.mw.selfIp) (hother : s'.mw.otherIp = s.mw.otherIp) :
    s'.Elected bs t := by
  obtain ⟨votes, hnodup, hquorum, hvotes⟩ := h.quorum
  refine ⟨htrace h.campaigned, votes, hnodup, ?_, ?_⟩
  · rwa [MiddleWare.voteQuorum, hother]
  · rw [hself]
    exact fun v hv => (hvotes v hv).imp id fun hmem => has hmem

lemma ElectedInv.elected_after (h : ElectedInv as s) (hok : s.WinsOwnTerm na)
    (hact : s.mw.act na = some e) (hs : e.mw.state = .MASTER) :
    (⟨e.mw, s.trace ++ e.events⟩ : Solo Ip).Elected (as ++ [na]) e.mw.term := by
  obtain ⟨hself, hother⟩ := MiddleWare.act_ids hact
  rcases MiddleWare.act_master hact hs with rfl | ⟨hbefore, hkeep⟩
  · cases MiddleWare.act_cases hact with
    | electionWin t votes cancelled routine quorum unlocked =>
      have hcand : s.mw.routine.candidacy = some (t, votes) := by rw [routine]; rfl
      obtain ⟨hcamp, hnodup, hvotes⟩ := h.votes t votes hcand
      obtain rfl : t = s.mw.term := hok rfl (t, votes) hcand
      exact ⟨List.mem_append_left _ hcamp, votes, hnodup, quorum,
        fun v hv => (hvotes v hv).imp id (List.mem_append_left _)⟩
  · rw [(hkeep (h.seated hbefore)).2]
    exact (h.elected hbefore).mono (List.subset_append_left _ _) (List.subset_append_left _ _)
      hself hother

lemma ElectedInv.after (h : ElectedInv as s) (hok : s.WinsOwnTerm na)
    (hact : s.mw.act na = some e) :
    ElectedInv (as ++ [na]) ⟨e.mw, s.trace ++ e.events⟩ where
  seated := by
    intro hs
    rcases MiddleWare.act_master hact hs with rfl | ⟨hbefore, hkeep⟩
    · cases MiddleWare.act_cases hact
      rfl
    · exact (hkeep (h.seated hbefore)).1
  elected := h.elected_after hok hact
  votes _ _ := h.votes_after hact
  latest _ _ hc _ := h.latest_after hact hc
  bound _ := h.bound_after hact

lemma electedInv_run {selfIp : Ip} {otherIp : List Ip}
    (h : Steps step WinsOwnTerm (start (.init selfIp otherIp)) as s) : ElectedInv as s := by
  refine h.invariant (electedInv_start selfIp otherIp) ?_
  intro as s na s' hs hok hstep
  obtain ⟨e, hact, rfl⟩ := step_inv hstep
  exact hs.after hok hact

/-- A node is `MASTER` only in terms whose election it has won, in exactly the runs in which no
election is won after its term. -/
theorem master_elected (selfIp : Ip) (otherIp : List Ip)
    (h : AllSteps step (start (.init selfIp otherIp)) as s) :
    Throughout step (fun as s => s.mw.state = .MASTER → s.Elected as s.mw.term)
      (start (.init selfIp otherIp)) as ↔
    Steps step WinsOwnTerm (start (.init selfIp otherIp)) as s := by
  refine Steps.throughout_iff h (fun _ _ hrun => (electedInv_run hrun).elected) ?_
  rintro bs r na r' hrun - hstep helected rfl ⟨t, votes⟩ hcand
  obtain ⟨e, hact, rfl⟩ := step_inv hstep
  cases MiddleWare.act_cases hact with
  | electionWin t' votes' cancelled routine =>
    have hcamp := (helected rfl).campaigned
    have hcamp' : .campaigned r.mw.term ∈ r.trace := by simpa using hcamp
    have hinv := electedInv_run hrun
    have hle := hinv.latest t votes hcand _ hcamp'
    have hge := hinv.bound t (hinv.votes t votes hcand).1
    exact le_antisymm hge hle

/-- Node `0` of three stands in term `1` and gets the vote of node `1`. -/
def standing : List (NodeAct (Fin 3)) :=
  [.mainLoop, .consumerTimer, .mainLoop, .electionStart, .recv 1 (.voteRsp 1 ⟨200, 1, true⟩)]

theorem master_elected_three : ∃ s : Solo (Fin 3),
    AllSteps step (start (.init 0 [1, 2])) (standing ++ [.electionWin]) s ∧
    s.mw.state = .MASTER ∧ s.Elected (standing ++ [.electionWin]) s.mw.term := by
  obtain ⟨s, hrun, hs⟩ : ∃ s, Steps step WinsOwnTerm (start (.init 0 [1, 2]))
      (standing ++ [.electionWin]) s ∧ s.mw.state = .MASTER := steps_of_exec _ (by decide)
  have hall := hrun.mono fun _ _ _ => trivial
  exact ⟨s, hall, hs, (master_elected 0 [1, 2] hall).mpr hrun _ s List.prefix_rfl hall hs⟩

/-- Node `2` stands in term `2` and gets node `0`'s vote before node `0`, with its quorum of
term `1`, has the lock. -/
def overtaken : List (NodeAct (Fin 3)) :=
  standing ++ [.recv 2 (.vote ⟨0, 0, 2⟩), .electionWin]

theorem master_not_elected : ∃ s : Solo (Fin 3),
    AllSteps step (start (.init 0 [1, 2])) overtaken s ∧ s.mw.state = .MASTER ∧
    ¬ s.Elected overtaken s.mw.term := by
  obtain ⟨s, hrun, hs, hcamp⟩ : ∃ s, AllSteps step (start (.init 0 [1, 2])) overtaken s ∧
      (s.mw.state = .MASTER ∧ .campaigned s.mw.term ∉ s.trace) := steps_of_exec _ (by decide)
  exact ⟨s, hrun, hs, fun helected => hcamp helected.campaigned⟩

end Solo

end TiPI.DB
