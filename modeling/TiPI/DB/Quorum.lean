import TiPI.DB.Agreement
import TiPI.DB.Calls
import TiPI.Lib.Median
import Mathlib.Data.Fin.VecNotation
import Mathlib.Order.Bounds.Basic

/-!
# The commit quorum

A call leaves its wait loop when the median of `SentLen` has reached its entry. The lengths in
`SentLen` come from answers of the peers, so they bound the logs of the peers as long as no log
is cut back; and a log of that length holds the entry as long as the logs agree.
-/

namespace TiPI.DB

/-! ### The length of a quorum -/

section

variable {Ip : Type} {peers : Finset Ip} {sentLen : Ip → Nat} {lens : List Nat}

/-- Whatever order `maps.Values` has, it yields one length a peer. -/
lemma countP_lens (hlens : (lens : Multiset Nat) = peers.val.map sentLen) (v : Nat) :
    lens.countP (fun len => decide (v ≤ len)) = {p ∈ peers | v ≤ sentLen p}.card := by
  rw [← Multiset.coe_countP, hlens, Multiset.countP_map, Finset.card_def, Finset.filter_val]

lemma length_lens (hlens : (lens : Multiset Nat) = peers.val.map sentLen) :
    lens.length = peers.card := by
  rw [← Multiset.coe_card, hlens, Multiset.card_map, Finset.card_def]

/-- The result is the greatest length that half of the peers, rounded up, have reached. With the
master these are a strict majority of the nodes. -/
theorem minSentLenQuorum_isGreatest (hne : peers.Nonempty)
    (hlens : (lens : Multiset Nat) = peers.val.map sentLen) :
    ∃ v, minSentLenQuorum lens = some v ∧
      IsGreatest {v | peers.card - peers.card / 2 ≤ {p ∈ peers | v ≤ sentLen p}.card} v ∧
      peers.card + 1 < 2 * ({p ∈ peers | v ≤ sentLen p}.card + 1) := by
  have hlen := length_lens hlens
  have hpos := hne.card_pos
  have hnil : lens ≠ [] := by
    apply List.ne_nil_of_length_pos
    rwa [hlen]
  obtain ⟨v, hv⟩ := exists_upperMedian hnil
  have hcount := half_le_countP hv
  rw [countP_lens hlens, hlen] at hcount
  refine ⟨v, hv, ⟨hcount, ?_⟩, by omega⟩
  intro w hw
  apply le_upperMedian hv
  rw [countP_lens hlens, hlen]
  exact hw

theorem minSentLenQuorum_isGreatest_four :
    IsGreatest {v | 4 - 4 / 2 ≤ {p ∈ (Finset.univ : Finset (Fin 4)) | v ≤ ![5, 2, 2, 7] p}.card}
      5 := by
  obtain ⟨v, hv, hgreatest, -⟩ :=
    @minSentLenQuorum_isGreatest (Fin 4) .univ ![5, 2, 2, 7] [2, 7, 5, 2] (by decide) (by decide)
  obtain rfl : 5 = v := Option.some.inj hv
  exact hgreatest

end

namespace MiddleWare

variable {Ip : Type}

/-! ### Logs that are not cut back -/

/-- What the requests put into the log of a node, pending entries included. -/
def payloads (mw : MiddleWare Ip) : List (Opertn × String × String × String × Nat) :=
  mw.raftLog.log.map RaftLogEntry.payload

lemma length_payloads {mw : MiddleWare Ip} (hc : mw.raftLog.Chained) :
    mw.payloads.length = mw.raftLog.lenUncommited := by
  rw [payloads, List.length_map, Logger.lenUncommited_eq hc]

lemma payloads_eq_map {mw : MiddleWare Ip} (h : mw.raftLog.toCommit = []) :
    mw.payloads = mw.raftLog.file.map RaftLogEntry.payload := by
  rw [payloads, Logger.log, h, List.append_nil]

/-- No pending entry is dropped by a change of role or by the end of the process. -/
structure KeepsPending (mw : MiddleWare Ip) (na : NodeAct Ip) : Prop where
  role : na = .mainLoop → mw.state ≠ .SLAVE → mw.raftLog.toCommit = []
  fails : mw.fails na → mw.raftLog.toCommit = []

/-- With its pending entries kept, a log stays, grows by the entry of a call, or has the entry of
a message behind its committed part. -/
lemma LogCase.payloads {mw : MiddleWare Ip} {na : NodeAct Ip} {e : Effect Ip}
    (h : LogCase mw na e) (hc : mw.raftLog.Chained) (hkeep : mw.KeepsPending na)
    (hind : ∀ x ∈ mw.appends na, x.op ≠ .none ∧ x.ind = mw.raftLog.lenCommited) :
    e.mw.payloads = mw.payloads ∨
    (∃ x, mw.logging na = some x ∧ e.mw.payloads = mw.payloads ++ [x.payload]) ∨
    (∃ x, mw.appends na = some x ∧
      e.mw.payloads = mw.raftLog.file.map RaftLogEntry.payload ++ [x.payload]) := by
  have hlogOp : ∀ x, (mw.raftLog.logOp x).log.map RaftLogEntry.payload =
      mw.payloads ++ [x.payload] := by
    intro x
    rw [Logger.logOp_log hc]
    simp [MiddleWare.payloads]
  have hflush : ∀ x, (mw.raftLog.flushUncommited.logOp x).log.map RaftLogEntry.payload =
      mw.raftLog.file.map RaftLogEntry.payload ++ [x.payload] := by
    intro x
    rw [Logger.logOp_log hc.flushUncommited]
    simp
  cases h with
  | same _ log => exact Or.inl (by rw [MiddleWare.payloads, log]; rfl)
  | role hna state log =>
    refine Or.inl ?_
    rw [payloads_eq_map (hkeep.role hna state), MiddleWare.payloads, log,
      Logger.flushUncommited_log]
  | fatal _ _ hfails log =>
    refine Or.inl ?_
    rw [payloads_eq_map (hkeep.fails hfails), MiddleWare.payloads, log,
      Logger.flushUncommited_log]
  | logged x hx _ log => exact Or.inr (Or.inl ⟨x, hx, by rw [MiddleWare.payloads, log, hlogOp]⟩)
  | left m hd left log =>
    have hm : e.mw.payloads = m.raftLog.log.map RaftLogEntry.payload := by
      rw [MiddleWare.payloads, log]
      split
      · rfl
      · rw [Logger.logCommit_log]
    rcases leaving_raftLog left with hlog | ⟨x, hx, hlog⟩
    · exact Or.inl (by rw [hm, hlog]; rfl)
    · exact Or.inr (Or.inl ⟨x, hx, by rw [hm, hlog, hlogOp]⟩)
  | replicate src session mean t entry hna hs ht case =>
    have happ : mean = .logappend ∨ mean = .logcommit → mw.takesEntry entry = true →
        mw.appends na = some entry := by
      intro hmean htakes
      simp [hna, appends, hs, ht, hmean, htakes]
    cases case with
    | keep log => exact Or.inl (by rw [MiddleWare.payloads, log]; rfl)
    | append hmean htakes log =>
      exact Or.inr (Or.inr ⟨entry, happ (Or.inl hmean) htakes,
        by rw [MiddleWare.payloads, log, hflush]⟩)
    | commit hmean htakes _ log =>
      exact Or.inr (Or.inr ⟨entry, happ (Or.inr hmean) htakes,
        by rw [MiddleWare.payloads, log, Logger.logCommit_log, hflush]⟩)
    | commitWaiting _ _ _ log =>
      exact Or.inl (by rw [MiddleWare.payloads, log, Logger.logCommit_log]; rfl)
    | exit hmean ind log =>
      cases htakes : mw.takesEntry entry with
      | true =>
        -- an entry that is taken at its own index is the last one, so there is no `Fatalf`
        obtain ⟨hop, hx⟩ := hind entry (happ (Or.inr hmean) htakes)
        rw [htakes, if_pos rfl,
          Logger.lenUncommited_eq (hc.flushUncommited.logOp hop),
          Logger.logOp_log hc.flushUncommited, Logger.flushUncommited_log, List.length_append,
          hx, Logger.lenCommited_eq hc] at ind
        exact absurd rfl ind
      | false =>
        rw [htakes] at ind
        have hfails : mw.fails na := by
          subst hmean
          simp only [hna, fails, hs, ht, htakes, decide_eq_true_eq]
          exact ⟨trivial, trivial, rfl, ind⟩
        refine Or.inl ?_
        rw [payloads_eq_map (hkeep.fails hfails), MiddleWare.payloads, log,
          Logger.flushUncommited_log]

/-! ### What a master knows of its peers -/

lemma lens_body (mw : MiddleWare Ip) {len : Nat} {ack : Bool}
    (h : mw.lens.body = some (len, ack)) : len = mw.raftLog.lenUncommited := by
  simp only [lens, Option.some.injEq, Prod.mk.injEq] at h
  exact h.1.symm

/-- The length in an answer is the length of the log the answer leaves behind. -/
lemma handleReplicate_answer {mw mw' : MiddleWare Ip} {ip : Ip} {mean : Mean} {t : Nat}
    {entry : RaftLogEntry} {a : Answer} {len : Nat} {ack : Bool}
    (h : mw.handleReplicate ip mean t entry = (mw', some a)) (hb : a.body = some (len, ack)) :
    len = mw'.raftLog.lenUncommited := by
  have hrejected : ∀ m : MiddleWare Ip, (m, some rejected) = (mw', some a) → False := by
    rintro m heq
    obtain rfl : rejected = a := Option.some.inj (Prod.mk.inj heq).2
    simp [rejected] at hb
  have hlens : ∀ m m' : MiddleWare Ip, m.raftLog = m'.raftLog →
      (m', some m.lens) = (mw', some a) → len = mw'.raftLog.lenUncommited := by
    rintro m m' hlog heq
    obtain ⟨rfl, ha⟩ := Prod.mk.inj heq
    obtain rfl := Option.some.inj ha
    rw [← hlog]
    exact lens_body m hb
  unfold handleReplicate at h
  cases hs : mw.state with
  | MASTER =>
    simp only [hs] at h
    split at h
    · exact (hrejected _ h).elim
    · exact hlens mw (mw.giveWay ip t) rfl h
  | CONDIDATE =>
    simp only [hs] at h
    split at h
    · exact hlens mw (mw.giveWay ip t) rfl h
    · exact (hrejected _ h).elim
  | SLAVE =>
    simp only [hs] at h
    split at h
    · exact (hrejected _ h).elim
    · cases mean with
      | logappend => exact hlens _ _ rfl h
      | logcommit =>
        simp only [replicateSlave] at h
        split at h
        · simp at h
        · exact hlens _ _ rfl h
      | heartbeat => exact hlens _ _ rfl h
      | other name => exact (hrejected _ h).elim

variable [DecidableEq Ip]

lemma act_answers {mw : MiddleWare Ip} {na : NodeAct Ip} {e : Effect Ip}
    (h : mw.act na = some e) {dst : Ip} {session : Nat} {a : Answer} {len : Nat} {ack : Bool}
    (hp : (dst, .replicateRsp session a) ∈ e.sent) (hb : a.body = some (len, ack)) :
    len = e.mw.raftLog.lenUncommited := by
  cases act_cases h with
  | request method key value rand => simp [request_sent] at hp
  | sessionSend s =>
    obtain ⟨mean, log, heq, -⟩ := sessionMsgs_replicate mw s mw.otherIp _ hp
    simp at heq
  | replicate src session' mean t entry =>
    simp only [List.mem_map, Option.mem_toList, Prod.mk.injEq, Msg.replicateRsp.injEq] at hp
    obtain ⟨a', ha', -, -, rfl⟩ := hp
    exact handleReplicate_answer (Prod.ext rfl ha') hb
  | _ => simp at hp

/-- A new value in `SentLen` is the one of the response. -/
lemma collectOk_sentLen (mw : MiddleWare Ip) (s : Session) (ip : Ip) (len : Nat) (ans : Bool)
    {p : Ip} {l : Nat} (h : (mw.collectOk s ip len ans).1.sentLen p = some l) :
    mw.sentLen p = some l ∨ (p = ip ∧ l = len) := by
  have hmax : Function.update mw.sentLen ip (some (max len ((mw.sentLen ip).getD 0))) p = some l →
      mw.sentLen p = some l ∨ (p = ip ∧ l = len) := by
    intro hup
    by_cases hp : p = ip
    · subst hp
      rw [Function.update_self, Option.some.injEq] at hup
      cases hold : mw.sentLen p with
      | none => exact Or.inr ⟨rfl, by simpa [hold] using hup.symm⟩
      | some o =>
        rw [hold, Option.getD_some] at hup
        rcases max_choice len o with hm | hm
        · exact Or.inr ⟨rfl, by omega⟩
        · exact Or.inl (by rw [← hup, hm])
    · rw [Function.update_of_ne hp] at hup
      exact Or.inl hup
  simp only [collectOk] at h
  split at h
  · exact hmax h
  · split at h
    · exact hmax h
    · exact Or.inl h

lemma collect_sentLen (mw : MiddleWare Ip) (s : Session) (rsps : List (Rsp Ip)) {p : Ip}
    {l : Nat} (h : (mw.collect s rsps).1.sentLen p = some l) :
    mw.sentLen p = some l ∨ ∃ ans, .ok p l ans ∈ rsps := by
  induction rsps generalizing mw s with
  | nil => exact Or.inl h
  | cons rsp rsps ih =>
    cases rsp with
    | err =>
      rcases ih mw s h with hold | ⟨ans, hmem⟩
      · exact Or.inl hold
      · exact Or.inr ⟨ans, List.mem_cons_of_mem _ hmem⟩
    | ok ip len ans =>
      simp only [collect] at h
      split at h
      · rcases ih _ _ h with hold | ⟨ans', hmem⟩
        · rcases collectOk_sentLen mw s ip len ans hold with hold | ⟨rfl, rfl⟩
          · exact Or.inl hold
          · exact Or.inr ⟨ans, List.mem_cons_self⟩
        · exact Or.inr ⟨ans', List.mem_cons_of_mem _ hmem⟩
      · exact Or.inl h

omit [DecidableEq Ip] in
lemma mem_sendReplicate {peer p : Ip} {a : Answer} {l : Nat} {ans : Bool}
    (h : .ok p l ans ∈ sendReplicate peer a) :
    p = peer ∧ (l = 0 ∨ ∃ ack, a.body = some (l, ack)) := by
  unfold sendReplicate at h
  cases hb : a.body with
  | none =>
    simp only [hb, List.mem_append, List.mem_ite_nil_right, List.mem_cons,
      reduceCtorEq, Rsp.ok.injEq, and_false, false_or, List.not_mem_nil, or_false] at h
    exact ⟨h.1, Or.inl h.2.1⟩
  | some body =>
    simp only [hb, List.mem_append, List.mem_ite_nil_right, List.mem_singleton, reduceCtorEq,
      Rsp.ok.injEq, and_false, false_or] at h
    exact ⟨h.1, Or.inr ⟨body.2, by rw [h.2.1]⟩⟩

/-- `SentLen` and `CommitLen` change by the answer to a session's message. -/
lemma act_lens {mw : MiddleWare Ip} {na : NodeAct Ip} {e : Effect Ip} (h : mw.act na = some e) :
    (e.mw.sentLen = mw.sentLen ∧ e.mw.commitLen = mw.commitLen) ∨
      ∃ src a s, na = .recv src (.replicateRsp s.id a) ∧
        e.mw.sentLen = (mw.collect s (sendReplicate src a)).1.sentLen ∧
        e.mw.commitLen = (mw.collect s (sendReplicate src a)).1.commitLen := by
  cases act_cases h with
  | request method key value rand =>
    obtain ⟨arrived, hmw⟩ := request_frame mw method key value rand
    exact Or.inl (by rw [hmw]; exact ⟨rfl, rfl⟩)
  | kvsBegin r =>
    obtain ⟨kvs, raftLog, locked, waiting, hmw⟩ := kvsBegin_frame mw r
    exact Or.inl (by rw [hmw]; exact ⟨rfl, rfl⟩)
  | kvsWake hd =>
    obtain ⟨kvs, raftLog, locked, waiting, hmw⟩ := kvsWake_frame mw hd
    exact Or.inl (by rw [hmw]; exact ⟨rfl, rfl⟩)
  | loopMaster | loopCondidate | loopSlave | consumerTimer | consumerDone | electionStart
  | electionStop | electionWin | beat | resign | producerDone | sessionLost | late =>
    exact Or.inl ⟨rfl, rfl⟩
  | sessionSend s =>
    dsimp only
    split <;> exact Or.inl ⟨rfl, rfl⟩
  | sessionDone s | sessionKept s =>
    obtain ⟨sessions, waiting, hmw⟩ := collected_frame mw s
    exact Or.inl (by rw [hmw]; exact ⟨rfl, rfl⟩)
  | replicate src session mean t entry =>
    obtain ⟨_, _, _, _, _, _, _, hmw⟩ := handleReplicate_frame mw src mean t entry
    exact Or.inl (by rw [hmw]; exact ⟨rfl, rfl⟩)
  | response src a s => exact Or.inr ⟨src, a, s, rfl, rfl, rfl⟩
  | vote src c =>
    simp only [handleVoteRequest]
    split <;> exact Or.inl ⟨rfl, rfl⟩
  | voteRsp src t a =>
    obtain ⟨routine, hmw⟩ := electionRsp_frame mw src t a
    exact Or.inl (by rw [hmw]; exact ⟨rfl, rfl⟩)

/-- `SentLen` changes by the length in an answer of that peer. A failed answer counts as `0`. -/
lemma act_sentLen {mw : MiddleWare Ip} {na : NodeAct Ip} {e : Effect Ip}
    (h : mw.act na = some e) {p : Ip} {l : Nat} (hl : e.mw.sentLen p = some l) :
    mw.sentLen p = some l ∨ l = 0 ∨
      ∃ session a ack, na = .recv p (.replicateRsp session a) ∧ a.body = some (l, ack) := by
  rcases act_lens h with ⟨hsent, -⟩ | ⟨src, a, s, hna, hsent, -⟩
  · exact Or.inl (hsent ▸ hl)
  · rw [hsent] at hl
    rcases collect_sentLen mw _ _ hl with hold | ⟨ans, hmem⟩
    · exact Or.inl hold
    · obtain ⟨rfl, rfl | ⟨ack, hb⟩⟩ := mem_sendReplicate hmem
      · exact Or.inr (Or.inl rfl)
      · exact Or.inr (Or.inr ⟨s.id, a, ack, hna, hb⟩)

omit [DecidableEq Ip] in
/-- A call that has just logged waits for the length its entry has brought the log to. -/
lemma kvsLog_handler {mw : MiddleWare Ip} (hc : mw.raftLog.Chained) (r : WriteRequest) :
    (mw.kvsLog r).2.requiredLen = (mw.kvsLog r).2.entry.ind + 1 ∧
      (mw.kvsLog r).1.raftLog.log[(mw.kvsLog r).2.entry.ind]? = some (mw.kvsLog r).2.entry := by
  have hlog := Logger.logOp_log hc (mw.kvsEntry r)
  have hentry : (mw.kvsLog r).2.entry = (mw.kvsEntry r).stamp mw.raftLog.log := by
    simp [kvsLog, Logger.logOp_eq hc]
  have hlen : (mw.kvsLog r).2.requiredLen = mw.raftLog.log.length + 1 := by
    simp only [kvsLog]
    rw [Logger.lenUncommited_eq (hc.logOp (kvsEntry_op mw r)), hlog, List.length_append]
    rfl
  have hget : (mw.kvsLog r).1.raftLog.log =
      mw.raftLog.log ++ [(mw.kvsEntry r).stamp mw.raftLog.log] :=
    hlog
  rw [hlen, hentry, hget, RaftLogEntry.stamp_ind]
  exact ⟨rfl, by simp⟩

omit [DecidableEq Ip] in
lemma kvsLoop_log (mw : MiddleWare Ip) (h : Handler) :
    (mw.kvsLoop h).1.raftLog.log = mw.raftLog.log := by
  cases hq : mw.quorumReached h with
  | true =>
    rw [kvsLoop_left hq, kvsCommit_log]
    split
    · rfl
    · rw [Logger.logCommit_log]
  | false => rw [(kvsLoop_stays hq).1]

omit [DecidableEq Ip] in
lemma act_kvsBegin_log {mw : MiddleWare Ip} {r : WriteRequest} {e : Effect Ip}
    (h : CallCase mw (.kvsBegin r) e) (hc : mw.kvsCheck r = none) :
    e.mw.raftLog.log = (mw.kvsLog r).1.raftLog.log := by
  have hc' : { mw with arrived := mw.arrived.erase r }.kvsCheck r = none := hc
  cases h with
  | request _ _ _ _ hna => simp at hna
  | begins r' hna _ effect =>
    obtain rfl := NodeAct.kvsBegin.inj hna
    rw [effect]
    simp only [kvsBegin, hc']
    rw [kvsLoop_log]
    rfl
  | wakes _ hna => simp at hna
  | other _ _ hlog => simp [logging, hc] at hlog

omit [DecidableEq Ip] in
/-- When a call leaves its loop, half of the peers in `SentLen` have reached its length. -/
lemma count_reached {mw : MiddleWare Ip} {hd : Handler}
    (hq : mw.quorumReached hd = true) :
    mw.sentLens.length - mw.sentLens.length / 2 ≤
      (mw.otherIp.filter fun p => (mw.sentLen p).any (hd.requiredLen ≤ ·)).length := by
  unfold quorumReached at hq
  cases hm : minSentLenQuorum mw.sentLens with
  | none => simp [hm] at hq
  | some len =>
    rw [hm, Option.any_some, decide_eq_true_eq] at hq
    calc mw.sentLens.length - mw.sentLens.length / 2
        ≤ mw.sentLens.countP fun l => decide (len ≤ l) := half_le_countP hm
      _ ≤ mw.sentLens.countP fun l => decide (hd.requiredLen ≤ l) := by
          refine List.countP_mono_left fun l _ hl => ?_
          rw [decide_eq_true_eq] at hl ⊢
          exact hq.trans hl
      _ = (mw.otherIp.filter fun p => (mw.sentLen p).any (hd.requiredLen ≤ ·)).length := by
          rw [sentLens, List.countP_filterMap, List.countP_eq_length_filter]
          congr 2
          funext p
          cases mw.sentLen p <;> rfl

end MiddleWare

/-! ### The invariant -/

namespace Cluster

section

variable {Ip : Type}

def payloads (s : Cluster Ip) (i : Ip) : List (Opertn × String × String × String × Nat) :=
  (s.node i).payloads

/-- Calls log on a longest log only, nothing pending is dropped, a follower takes an entry only
at its own index, and enough peers have answered when a call leaves its loop. -/
structure QuorumSafe (s : Cluster Ip) (i : Ip) (na : NodeAct Ip) : Prop where
  longest : (s.node i).logging na ≠ none →
    ∀ j, (s.node j).raftLog.lenUncommited ≤ (s.node i).raftLog.lenUncommited
  keeps : (s.node i).KeepsPending na
  takes : ∀ x ∈ (s.node i).appends na,
    x.ind = (s.node i).raftLog.lenCommited ∧ (s.node i).raftLog.toCommit.length ≤ 1
  answers : ∀ p ∈ (s.node i).leaving na,
    ((s.node i).otherIp.length + 1) / 2 ≤ p.1.sentLens.length - p.1.sentLens.length / 2

structure QuorumInv (s : Cluster Ip) : Prop where
  chained : ∀ j, (s.node j).raftLog.Chained
  agree : Agree id s.payloads
  packets : ∀ src dst session mean t x, ⟨src, dst, .replicate session mean t x⟩ ∈ s.net →
    MiddleWare.CarriesOp mean x ∧
      (mean = .logappend ∨ mean = .logcommit → (s.payloads src)[x.ind]? = some x.payload)
  answers : ∀ src dst session a len ack, ⟨src, dst, .replicateRsp session a⟩ ∈ s.net →
    a.body = some (len, ack) → len ≤ (s.payloads src).length
  sentLen : ∀ i p len, (s.node i).sentLen p = some len → len ≤ (s.payloads p).length
  waiting : ∀ i, ∀ h ∈ (s.node i).waiting, h.requiredLen = h.entry.ind + 1 ∧
    (s.node i).raftLog.log[h.entry.ind]? = some h.entry

lemma quorumInv_init (n : Nat) : (init n).QuorumInv where
  chained := fun _ => Logger.chained_fresh
  agree := by
    intro i j k a b ha
    simp [payloads, MiddleWare.payloads, init, MiddleWare.init, Logger.fresh, Logger.log] at ha
  packets := by simp [init]
  answers := by simp [init]
  sentLen := by simp [init, MiddleWare.init]
  waiting := by simp [init, MiddleWare.init]

variable [DecidableEq Ip]

instance [Fintype Ip] (s : Cluster Ip) (i : Ip) (na : NodeAct Ip) :
    Decidable (s.QuorumSafe i na) :=
  decidable_of_iff
    (((s.node i).logging na ≠ none →
        ∀ j, (s.node j).raftLog.lenUncommited ≤ (s.node i).raftLog.lenUncommited) ∧
      ((na = .mainLoop → (s.node i).state ≠ .SLAVE → (s.node i).raftLog.toCommit = []) ∧
        ((s.node i).fails na → (s.node i).raftLog.toCommit = [])) ∧
      (∀ x ∈ (s.node i).appends na,
        x.ind = (s.node i).raftLog.lenCommited ∧ (s.node i).raftLog.toCommit.length ≤ 1) ∧
      ∀ p ∈ (s.node i).leaving na,
        ((s.node i).otherIp.length + 1) / 2 ≤ p.1.sentLens.length - p.1.sentLens.length / 2)
    ⟨fun h => ⟨h.1, ⟨h.2.1.1, h.2.1.2⟩, h.2.2.1, h.2.2.2⟩,
      fun h => ⟨h.longest, ⟨h.keeps.role, h.keeps.fails⟩, h.takes, h.answers⟩⟩

lemma payloads_after (s : Cluster Ip) (net : List (Packet Ip)) (i : Ip) (e : Effect Ip) :
    ({ s with net := net }.after i e).payloads = Function.update s.payloads i e.mw.payloads := by
  funext j
  by_cases hj : j = i
  · subst hj
    simp [payloads]
  · simp [payloads, after_node_ne _ _ hj, hj]

variable {s : Cluster Ip} {i : Ip} {na : NodeAct Ip} {net : List (Packet Ip)} {e : Effect Ip}

omit [DecidableEq Ip] in
/-- An entry `HandleReplicate` appends is one of a packet. -/
lemma QuorumInv.appends (h : s.QuorumInv)
    (hrecv : ∀ src msg, na = .recv src msg → ⟨src, i, msg⟩ ∈ s.net) {x : RaftLogEntry}
    (hx : (s.node i).appends na = some x) :
    x.op ≠ .none ∧ ∃ src, (s.payloads src)[x.ind]? = some x.payload := by
  unfold MiddleWare.appends at hx
  split at hx
  · next src session mean t x' =>
    split at hx
    · next hc =>
      obtain rfl := Option.some.inj hx
      obtain ⟨hop, hget⟩ := h.packets _ _ _ _ _ _ (hrecv _ _ rfl)
      exact ⟨hop hc.2.2.1, src, hget hc.2.2.1⟩
    · simp at hx
  · simp at hx

/-- One action leaves the log of its node, or puts an entry behind it: that of a call, on a longest
log, or one that another log has at this place. -/
lemma QuorumInv.grows (h : s.QuorumInv) (hok : s.QuorumSafe i na)
    (hact : (s.node i).act na = some e)
    (hrecv : ∀ src msg, na = .recv src msg → ⟨src, i, msg⟩ ∈ s.net) :
    e.mw.payloads = s.payloads i ∨
    (∃ x, (s.node i).logging na = some x ∧ (∀ j, (s.payloads j).length ≤ (s.payloads i).length) ∧
      e.mw.payloads = s.payloads i ++ [x.payload]) ∨
    ∃ src x, (s.payloads src)[(s.payloads i).length]? = some x ∧
      e.mw.payloads = s.payloads i ++ [x] := by
  have hc := h.chained i
  have hind : ∀ x ∈ (s.node i).appends na,
      x.op ≠ .none ∧ x.ind = (s.node i).raftLog.lenCommited :=
    fun x hx => ⟨(h.appends hrecv hx).1, (hok.takes x hx).1⟩
  rcases (MiddleWare.act_log hact).payloads hc hok.keeps hind with
    hsame | ⟨x, hx, hnew⟩ | ⟨x, hx, hnew⟩
  · exact Or.inl hsame
  · refine Or.inr (Or.inl ⟨x, hx, fun j => ?_, hnew⟩)
    have hle := hok.longest (by simp [hx]) j
    rwa [← MiddleWare.length_payloads (h.chained j), ← MiddleWare.length_payloads hc] at hle
  · obtain ⟨hlen, hone⟩ := hok.takes x hx
    obtain ⟨-, src, hsrc⟩ := h.appends hrecv hx
    rw [hlen, Logger.lenCommited_eq hc] at hsrc
    cases htc : (s.node i).raftLog.toCommit with
    | nil =>
      have hold : s.payloads i = (s.node i).raftLog.file.map RaftLogEntry.payload :=
        MiddleWare.payloads_eq_map htc
      have hlast : (s.payloads i).length = (s.node i).raftLog.file.length := by
        rw [hold, List.length_map]
      rw [← hlast] at hsrc
      exact Or.inr (Or.inr ⟨src, x.payload, hsrc, by rw [hnew, hold]⟩)
    | cons w rest =>
      -- the entry that is dropped is the one that is appended again
      obtain rfl : rest = [] := by
        rw [htc, List.length_cons] at hone
        exact List.eq_nil_of_length_eq_zero (by omega)
      have hold : s.payloads i =
          (s.node i).raftLog.file.map RaftLogEntry.payload ++ [w.payload] := by
        simp [payloads, MiddleWare.payloads, Logger.log, htc]
      have hw : (s.payloads i)[(s.node i).raftLog.file.length]? = some w.payload := by
        rw [hold, List.getElem?_append_right (by simp)]
        simp
      have hpay : w.payload = x.payload := h.agree i src _ _ _ hw hsrc
      exact Or.inl (by rw [hnew, hold, hpay])

lemma QuorumInv.chained_after (h : s.QuorumInv) (hact : (s.node i).act na = some e)
    (hrecv : ∀ src msg, na = .recv src msg → ⟨src, i, msg⟩ ∈ s.net) : e.mw.raftLog.Chained :=
  (MiddleWare.act_log hact).chained (h.chained i) fun _ _ _ _ _ hna =>
    (h.packets _ _ _ _ _ _ (hrecv _ _ hna)).1

lemma QuorumInv.payloads_grow (h : s.QuorumInv) (hok : s.QuorumSafe i na)
    (hact : (s.node i).act na = some e)
    (hrecv : ∀ src msg, na = .recv src msg → ⟨src, i, msg⟩ ∈ s.net) (net : List (Packet Ip))
    (j : Ip) : s.payloads j <+: ({ s with net := net }.after i e).payloads j := by
  rw [payloads_after]
  by_cases hj : j = i
  · subst hj
    rw [Function.update_self]
    rcases h.grows hok hact hrecv with hsame | ⟨x, -, -, hnew⟩ | ⟨src, x, -, hnew⟩
    · exact hsame ▸ List.prefix_rfl
    · exact hnew ▸ List.prefix_append _ _
    · exact hnew ▸ List.prefix_append _ _
  · rw [Function.update_of_ne hj]

lemma QuorumInv.chained_node (h : s.QuorumInv) (hact : (s.node i).act na = some e)
    (hrecv : ∀ src msg, na = .recv src msg → ⟨src, i, msg⟩ ∈ s.net) (net : List (Packet Ip))
    (j : Ip) : (({ s with net := net }.after i e).node j).raftLog.Chained := by
  by_cases hj : j = i
  · subst hj
    rw [after_node_self]
    exact h.chained_after hact hrecv
  · rw [after_node_ne _ _ hj]
    exact h.chained j

/-- The entries of a log stay, index fields included. -/
lemma QuorumInv.log_after (h : s.QuorumInv) (hok : s.QuorumSafe i na)
    (hact : (s.node i).act na = some e)
    (hrecv : ∀ src msg, na = .recv src msg → ⟨src, i, msg⟩ ∈ s.net)
    (net : List (Packet Ip)) {j : Ip}
    {k : Nat} {x : RaftLogEntry} (hx : (s.node j).raftLog.log[k]? = some x) :
    (({ s with net := net }.after i e).node j).raftLog.log[k]? = some x := by
  have hgrow := h.payloads_grow hok hact hrecv net j
  have hpay {k' : Nat} {x' : RaftLogEntry} (hx' : (s.node j).raftLog.log[k']? = some x') :
      ∃ y, (({ s with net := net }.after i e).node j).raftLog.log[k']? = some y ∧
        y.payload = x'.payload := by
    have hold : (s.payloads j)[k']? = some x'.payload := by
      rw [payloads, MiddleWare.payloads, List.getElem?_map, hx']
      rfl
    have hnew := getElem?_mono hgrow hold
    rwa [payloads, MiddleWare.payloads, List.getElem?_map, Option.map_eq_some_iff] at hnew
  obtain ⟨y, hy, -⟩ := hpay hx
  have hxy : x = y := by
    refine (h.chained j).entry_eq (h.chained_node hact hrecv net j) hx hy fun k' _ a b ha hb => ?_
    obtain ⟨b', hb', hpay'⟩ := hpay ha
    rw [hb, Option.some.injEq] at hb'
    rw [hb', hpay']
  rw [hy, hxy]

/-- The entry of a call that has logged it, now or before, is in the log after the action. -/
lemma QuorumInv.handler_after (h : s.QuorumInv) (hok : s.QuorumSafe i na)
    (hact : (s.node i).act na = some e)
    (hrecv : ∀ src msg, na = .recv src msg → ⟨src, i, msg⟩ ∈ s.net) {hd : Handler}
    (hhd : (∃ hd' ∈ (s.node i).waiting, MiddleWare.Handler.Same hd' hd) ∨
      ∃ r ∈ (s.node i).arrived, na = .kvsBegin r ∧ (s.node i).kvsCheck r = none ∧
        hd = ((s.node i).kvsLog r).2) :
    hd.requiredLen = hd.entry.ind + 1 ∧ e.mw.raftLog.log[hd.entry.ind]? = some hd.entry := by
  rcases hhd with ⟨hd', hmem, -, hentry, hlen⟩ | ⟨r, -, rfl, hcheck, rfl⟩
  · obtain ⟨hreq, hget⟩ := h.waiting i hd' hmem
    have hlog := h.log_after hok hact hrecv s.net hget
    rw [after_node_self] at hlog
    rw [← hentry, ← hlen]
    exact ⟨hreq, hlog⟩
  · obtain ⟨hlen, hget⟩ := MiddleWare.kvsLog_handler (h.chained i) r
    refine ⟨hlen, ?_⟩
    rw [MiddleWare.act_kvsBegin_log (MiddleWare.act_calls hact) hcheck, hget]

lemma QuorumInv.after (h : s.QuorumInv) (hok : s.QuorumSafe i na)
    (hact : (s.node i).act na = some e) (hnet : net ⊆ s.net)
    (hrecv : ∀ src msg, na = .recv src msg → ⟨src, i, msg⟩ ∈ s.net) :
    ({ s with net := net }.after i e).QuorumInv := by
  have hgrow := h.payloads_grow hok hact hrecv net
  have hchained := h.chained_after hact hrecv
  refine ⟨h.chained_node hact hrecv net, ?_, ?_, ?_, ?_, ?_⟩
  · rw [payloads_after]
    rcases h.grows hok hact hrecv with hsame | ⟨x, -, hlongest, hnew⟩ | ⟨src, x, hsrc, hnew⟩
    · exact hsame ▸ h.agree.cut List.prefix_rfl
    · exact hnew ▸ h.agree.extend (.of_longest hlongest)
    · exact hnew ▸ h.agree.extend (.of_copy h.agree hsrc rfl)
  · intro src dst session mean t x hp
    rcases mem_after_net.mp hp with hold | ⟨rfl, hnew⟩
    · obtain ⟨hop, hget⟩ := h.packets _ _ _ _ _ _ (hnet hold)
      exact ⟨hop, fun hm => getElem?_mono (hgrow src) (hget hm)⟩
    · obtain ⟨nr, hmsg⟩ := MiddleWare.act_sent hact hnew
      have hsent : ∀ y : RaftLogEntry, (s.node src).raftLog.log[y.ind]? = some y → y.op ≠ .none ∧
          (({ s with net := net }.after src e).payloads src)[y.ind]? = some y.payload := by
        intro y hy
        refine ⟨(h.chained src).op _ (List.mem_of_getElem? hy), getElem?_mono (hgrow src) ?_⟩
        rw [payloads, MiddleWare.payloads, List.getElem?_map, hy]
        rfl
      rcases MiddleWare.sessionMsg_entry (h.chained src) hmsg with
        ⟨rfl, hget⟩ | ⟨rfl, hget⟩ | rfl
      · exact ⟨fun _ => (hsent x (Logger.log_of_file hget)).1,
          fun _ => (hsent x (Logger.log_of_file hget)).2⟩
      · exact ⟨fun _ => (hsent x hget).1, fun _ => (hsent x hget).2⟩
      · exact ⟨by simp [MiddleWare.CarriesOp], by simp⟩
  · intro src dst session a len ack hp hb
    rcases mem_after_net.mp hp with hold | ⟨rfl, hnew⟩
    · exact (h.answers _ _ _ _ _ _ (hnet hold) hb).trans (hgrow src).length_le
    · rw [MiddleWare.act_answers hact hnew hb, payloads_after, Function.update_self,
        MiddleWare.length_payloads hchained]
  · intro j p len hl
    have hold : (s.node j).sentLen p = some len →
        len ≤ (({ s with net := net }.after i e).payloads p).length :=
      fun hl => (h.sentLen j p len hl).trans (hgrow p).length_le
    by_cases hj : j = i
    · subst hj
      rw [after_node_self] at hl
      rcases MiddleWare.act_sentLen hact hl with hl | rfl | ⟨session, a, ack, hna, hb⟩
      · exact hold hl
      · exact Nat.zero_le _
      · exact (h.answers _ _ _ _ _ _ (hrecv _ _ hna) hb).trans (hgrow p).length_le
    · rw [after_node_ne _ _ hj] at hl
      exact hold hl
  · intro j hd hmem
    by_cases hj : j = i
    · subst hj
      rw [after_node_self] at hmem ⊢
      exact h.handler_after hok hact hrecv ((MiddleWare.act_calls hact).mem_waiting hmem)
    · rw [after_node_ne _ _ hj] at hmem ⊢
      exact h.waiting j hd hmem

end

/-! ### Holders -/

variable {n : Nat}

/-- Node `j` has the entry at index `k`, committed or in `to_commit`. -/
def Holds (s : Cluster (Fin (n + 1))) (j : Fin (n + 1)) (entry : RaftLogEntry) (k : Nat) : Prop :=
  ∃ x, (s.node j).raftLog.log[k]? = some x ∧ x.payload = entry.payload

lemma holds_iff {s : Cluster (Fin (n + 1))} {j : Fin (n + 1)} {entry : RaftLogEntry} {k : Nat} :
    s.Holds j entry k ↔ (s.payloads j)[k]? = some entry.payload := by
  simp [Holds, payloads, MiddleWare.payloads, List.getElem?_map]

lemma quorum_run {s : Cluster (Fin (n + 1))} (h : Run step (Lift QuorumSafe) (init n) s) :
    s.QuorumInv ∧ s.Peers :=
  invariant (P := fun s => s.QuorumInv ∧ s.Peers) h ⟨quorumInv_init n, peers_init n⟩
    fun _ _ _ _ _ hs hok hact hnet hrecv =>
      ⟨hs.1.after hok hact hnet hrecv, hs.2.after hact _⟩

section Step

variable {s : Cluster (Fin (n + 1))} {i : Fin (n + 1)} {na : NodeAct (Fin (n + 1))}
  {net : List (Packet (Fin (n + 1)))} {e : Effect (Fin (n + 1))}

/-- When a call leaves its loop, its node has the entry, and enough peers have answered with a
length that reaches it. -/
lemma QuorumInv.answered (h : s.QuorumInv) (hpeers : s.Peers) (hok : s.QuorumSafe i na)
    (hact : (s.node i).act na = some e)
    (hrecv : ∀ src msg, na = .recv src msg → ⟨src, i, msg⟩ ∈ s.net)
    {m : MiddleWare (Fin (n + 1))} {hd : Handler} (left : (s.node i).leaving na = some (m, hd)) :
    hd.requiredLen = hd.entry.ind + 1 ∧ e.mw.raftLog.log[hd.entry.ind]? = some hd.entry ∧
      ∃ P : Finset (Fin (n + 1)), i ∉ P ∧ (n + 1) / 2 ≤ P.card ∧
        ∀ p ∈ P, ∃ l, (s.node i).sentLen p = some l ∧ hd.entry.ind < l := by
  obtain ⟨hq, hcall⟩ := (MiddleWare.act_calls hact).leaving left
  have hanswers := hok.answers (m, hd) left
  have hcount := MiddleWare.count_reached hq
  obtain ⟨hsent, hother, hhd⟩ : m.sentLen = (s.node i).sentLen ∧
      m.otherIp = (s.node i).otherIp ∧
      ((∃ hd' ∈ (s.node i).waiting, MiddleWare.Handler.Same hd' hd) ∨
        ∃ r ∈ (s.node i).arrived, na = .kvsBegin r ∧ (s.node i).kvsCheck r = none ∧
          hd = ((s.node i).kvsLog r).2) := by
    rcases hcall with ⟨hmem, rfl, -⟩ | ⟨r, harr, hr, hcheck, hhd, rfl⟩
    · exact ⟨rfl, rfl, Or.inl ⟨hd, hmem, rfl, rfl, rfl⟩⟩
    · exact ⟨rfl, rfl, Or.inr ⟨r, harr, hr, hcheck, hhd⟩⟩
  obtain ⟨hind, hown⟩ := h.handler_after hok hact hrecv hhd
  rw [hsent, hother, (hpeers i).2] at hcount
  rw [(hpeers i).2, length_others] at hanswers
  dsimp only at hanswers
  refine ⟨hind, hown, ((others n i).filter fun p =>
    ((s.node i).sentLen p).any (hd.requiredLen ≤ ·)).toFinset, by simp [mem_others], ?_, ?_⟩
  · rw [List.toFinset_card_of_nodup ((nodup_others n i).filter _)]
    omega
  · intro p hp
    obtain ⟨-, hany⟩ := List.mem_filter.mp (List.mem_toFinset.mp hp)
    obtain ⟨l, hl, hreq⟩ := (Option.any_eq_true _ _).mp hany
    rw [decide_eq_true_eq, hind] at hreq
    exact ⟨l, hl, hreq⟩

/-- A peer whose known length reaches an entry of the node has the very entry. -/
lemma QuorumInv.reached (h : s.QuorumInv) (hok : s.QuorumSafe i na)
    (hact : (s.node i).act na = some e) (hnet : net ⊆ s.net)
    (hrecv : ∀ src msg, na = .recv src msg → ⟨src, i, msg⟩ ∈ s.net) {p : Fin (n + 1)} {k l : Nat}
    {x : Opertn × String × String × String × Nat} (hx : e.mw.payloads[k]? = some x)
    (hl : (s.node i).sentLen p = some l) (hk : k < l) :
    (({ s with net := net }.after i e).payloads p)[k]? = some x := by
  have hmaster : (({ s with net := net }.after i e).payloads i)[k]? = some x := by
    rwa [payloads_after, Function.update_self]
  have hlen := (h.sentLen i p l hl).trans (h.payloads_grow hok hact hrecv net p).length_le
  have hget := List.getElem?_eq_getElem (lt_of_lt_of_le hk hlen)
  rw [hget]
  exact congrArg some ((h.after hok hact hnet hrecv).agree p i k _ _ hget hmaster)

end Step

/-- A call leaves its wait loop when at least `(n + 1) / 2 + 1` nodes hold its entry, the one it
runs on included. -/
theorem commit_quorum {s s' : Cluster (Fin (n + 1))} {a : Action (Fin (n + 1))}
    (h : Run step (Lift QuorumSafe) (init n) s) (hok : Lift QuorumSafe s a)
    (hstep : s.step a = some s') {evs : List (Fin (n + 1) × Event (Fin (n + 1)))}
    (htrace : s'.trace = s.trace ++ evs) {i : Fin (n + 1)} {entry : RaftLogEntry} {len : Nat}
    (hleft : (i, .leftLoop entry len) ∈ evs) :
    ∃ H : Finset (Fin (n + 1)), (n + 1) / 2 + 1 ≤ H.card ∧ i ∈ H ∧
      ∀ j ∈ H, s'.Holds j entry (len - 1) := by
  obtain ⟨hinv, hpeers⟩ := quorum_run h
  obtain ⟨i', na, net, e, hna, hact, rfl, hnet, hrecv⟩ := step_cases hstep
  have hguard : s.QuorumSafe i' na := by simpa [Lift, hna] using hok
  obtain rfl : evs = e.events.map fun ev => (i', ev) := by
    simpa [after] using htrace.symm
  obtain ⟨ev, hev, heq⟩ := List.mem_map.mp hleft
  obtain ⟨rfl, rfl⟩ := Prod.mk.inj heq
  cases MiddleWare.act_leave hact with
  | stays _ events => exact absurd (events _ hev) (by simp [Event.logged])
  | leaves m hd left events =>
    obtain ⟨rfl, rfl⟩ : entry = hd.entry ∧ len = hd.requiredLen := by
      simpa [events, MiddleWare.Section.events] using hev
    obtain ⟨hind, hlog, P, hi, hcard, hP⟩ := hinv.answered hpeers hguard hact hrecv left
    have hown : e.mw.payloads[hd.entry.ind]? = some hd.entry.payload := by
      rw [MiddleWare.payloads, List.getElem?_map, hlog]
      rfl
    refine ⟨insert i' P, ?_, Finset.mem_insert_self _ _, ?_⟩
    · rw [Finset.card_insert_of_notMem hi]
      omega
    · intro j hj
      rw [holds_iff, hind, Nat.add_sub_cancel]
      rcases Finset.mem_insert.mp hj with rfl | hj
      · rwa [payloads_after, Function.update_self]
      · obtain ⟨l, hl, hlt⟩ := hP j hj
        exact hinv.reached hguard hact hnet hrecv hown hl hlt

/-! ### Runs -/

theorem commit_quorum_three : ∃ (s s' : Cluster (Fin 3)) (H : Finset (Fin 3)),
    Run step (Lift QuorumSafe) (init 2) s ∧ s.step (wake 0 "k" "x" 1) = some s' ∧
      2 ≤ H.card ∧ 0 ∈ H ∧ ∀ j ∈ H, s'.Holds j (firstEntry "k" "x" 1) 0 := by
  obtain ⟨s, hrun, hok, hstep⟩ : ∃ s, Run step (Lift QuorumSafe) (init 2) s ∧
      (Lift QuorumSafe s (wake 0 "k" "x" 1) ∧ (s.step (wake 0 "k" "x" 1)).any fun s' =>
        s'.trace = s.trace ++ [(0, .leftLoop (firstEntry "k" "x" 1) 1),
          (0, .answered 0 ⟨201, .json "k" (some "x")⟩ (some (firstEntry "k" "x" 1)))]) :=
    exists_of_exec confirmed (by decide)
  obtain ⟨s', hs', htrace⟩ := (Option.any_eq_true _ _).mp hstep
  obtain ⟨H, hcard, hmem, hholds⟩ := commit_quorum hrun hok hs' (of_decide_eq_true htrace)
    List.mem_cons_self
  exact ⟨s, s', H, hrun, hs', hcard, hmem, hholds⟩

/-- Nodes `1` and `2` of four have answered, node `1` alone has the entry: the median of two
lengths is the larger one. -/
def minorityCommit : List (Action (Fin 4)) :=
  stands 0 ++ [.deliver 0, .deliver 2, .act 0 .electionWin, .act 0 .mainLoop] ++ beats 0 0 ++
    [.deliver 2, .deliver 2, .deliver 3, .deliver 3] ++ posts 0 "k" "x" ++ beats 0 1 ++
    [.deliver 3, .deliver 5, .act 0 (.sessionTimer 0)]

theorem minority_commit : ∃ (s s' : Cluster (Fin 4)) (evs : List (Fin 4 × Event (Fin 4))),
    Reach step (init 3) s ∧ s.step (wake 0 "k" "x" 1) = some s' ∧ s'.trace = s.trace ++ evs ∧
      (0, .leftLoop (firstEntry "k" "x" 1) 1) ∈ evs ∧
      ∀ H : Finset (Fin 4), (∀ j ∈ H, s'.Holds j (firstEntry "k" "x" 1) 0) →
        H.card < (3 + 1) / 2 + 1 := by
  obtain ⟨s, hrun, hstep⟩ : ∃ s, Reach step (init 3) s ∧
      (s.step (wake 0 "k" "x" 1)).any fun s' =>
        s'.trace = s.trace ++ [(0, .leftLoop (firstEntry "k" "x" 1) 1),
          (0, .answered 0 ⟨201, .json "k" (some "x")⟩ (some (firstEntry "k" "x" 1)))] ∧
        (s'.node 2).raftLog.log = [] ∧ (s'.node 3).raftLog.log = [] :=
    exists_of_exec minorityCommit (by decide)
  obtain ⟨s', hs', hprop⟩ := (Option.any_eq_true _ _).mp hstep
  obtain ⟨htrace, h2, h3⟩ := of_decide_eq_true hprop
  refine ⟨s, s', _, hrun, hs', htrace, List.mem_cons_self, fun H hH => ?_⟩
  have hsub : H ⊆ {0, 1} := by
    intro j hj
    obtain ⟨x, hx, -⟩ := hH j hj
    match j, hx with
    | 0, _ => simp
    | 1, _ => simp
    | 2, hx => simp [h2] at hx
    | 3, hx => simp [h3] at hx
  exact lt_of_le_of_lt (Finset.card_le_card hsub) (by decide)

end Cluster

end TiPI.DB
