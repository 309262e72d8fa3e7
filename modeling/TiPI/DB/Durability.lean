import TiPI.DB.Quorum
import TiPI.DB.Validity

/-!
# Durability of acknowledged writes

A write is acknowledged when its call has left the wait loop. A quorum has the entry by then, so
every later election meets a node that has it. The candidate has committed the entry, too, if no
vote overlooks what is pending: the rule compares the committed lengths only, and an election does
not look at what is pending on its own node.
-/

namespace TiPI.DB

/-- A `2xx` answer. -/
def Response.success {Ip : Type} (r : Response Ip) : Bool := 200 ≤ r.status && r.status < 300

/-- The entry of a write that is answered `2xx`. -/
def Event.acknowledged {Ip : Type} : Event Ip → Option RaftLogEntry
  | .answered _ resp logged => if resp.success then logged else none
  | .invoked _ | .leftLoop _ _ | .campaigned _ | .granted _ _ | .becameMaster _ => none

namespace MiddleWare

variable {Ip : Type}

/-- A failed deletion is the one answer behind the wait loop that is no success. -/
lemma kvsCommit_success (mw : MiddleWare Ip) (h : Handler) :
    (mw.kvsCommit h.req).2.success = !mw.deleteFails h := by
  rcases mw.kvsCommit_cases h with ⟨hd, -, hstatus⟩ | ⟨hd, -, hstatus | hstatus⟩
  · simp [Response.success, hd, hstatus]
  · simp [Response.success, hd, hstatus]
  · simp [Response.success, hd, hstatus]

end MiddleWare

namespace MiddleWare

variable {Ip : Type} {mw : MiddleWare Ip} {na : NodeAct Ip} {e : Effect Ip}

/-- A call that is acknowledged leaves its loop and does not fail to delete. -/
lemma LeaveCase.acknowledged (h : LeaveCase mw na e) {ev : Event Ip} (hev : ev ∈ e.events)
    {entry : RaftLogEntry} (hack : ev.acknowledged = some entry) :
    ∃ m hd, mw.leaving na = some (m, hd) ∧ m.deleteFails hd = false ∧ hd.entry = entry := by
  have hlogged : ev.logged ≠ none := by
    cases ev with
    | answered id resp logged =>
      rintro rfl
      simp [Event.acknowledged] at hack
    | _ => simp [Event.acknowledged] at hack
  cases h with
  | stays _ events => exact absurd (events ev hev) hlogged
  | leaves m hd left events =>
    rw [events, Section.events, List.mem_cons, List.mem_singleton] at hev
    rcases hev with rfl | rfl
    · simp [Event.acknowledged] at hack
    · simp only [Event.acknowledged, Option.ite_none_right_eq_some, kvsCommit_success,
        Option.some.injEq, Bool.not_eq_true'] at hack
      exact ⟨m, hd, left, hack.1, hack.2⟩

end MiddleWare

namespace MiddleWare

variable {Ip : Type}

/-- The candidate's log is shorter than that of the node, and the rule does not tell: the committed
entries end in the same term, or more than one entry is pending behind them. -/
def Overlooks (mw : MiddleWare Ip) (c : VoteRequest) : Prop :=
  c.logLen < mw.raftLog.lenUncommited ∧
    (c.logTerm = mw.raftLog.lastOp.term ∨ 1 < mw.raftLog.toCommit.length)

instance (mw : MiddleWare Ip) (c : VoteRequest) : Decidable (mw.Overlooks c) :=
  inferInstanceAs (Decidable (_ ∧ _))

/-- A node that answers with its length is in the term of the message. -/
lemma handleReplicate_term {mw mw' : MiddleWare Ip} {ip : Ip} {mean : Mean} {t : Nat}
    {entry : RaftLogEntry} {a : Answer} (h : mw.handleReplicate ip mean t entry = (mw', some a))
    (hb : a.body ≠ none) : mw'.term = t := by
  have hrejected : ∀ m : MiddleWare Ip, (m, some rejected) ≠ (mw', some a) := by
    rintro m heq
    obtain rfl : rejected = a := Option.some.inj (Prod.mk.inj heq).2
    exact hb rfl
  unfold handleReplicate at h
  cases hs : mw.state with
  | MASTER =>
    simp only [hs] at h
    split at h
    · exact absurd h (hrejected _)
    · exact (Prod.mk.inj h).1 ▸ rfl
  | CONDIDATE =>
    simp only [hs] at h
    split at h
    · exact (Prod.mk.inj h).1 ▸ rfl
    · exact absurd h (hrejected _)
  | SLAVE =>
    simp only [hs] at h
    split at h
    · exact absurd h (hrejected _)
    · next hle =>
      have hraise : (mw.raiseTerm t).term = t := by
        rw [raiseTerm_frame] at hle ⊢
        exact le_antisymm (not_lt.1 hle) (le_max_right ..)
      obtain ⟨raftLog, kvs, running, hframe⟩ := replicateSlave_frame (mw.raiseTerm t) mean entry
      have hmw := congrArg (fun p => p.1.term) h
      rw [hframe] at hmw
      exact hmw.symm.trans hraise

variable [DecidableEq Ip] {mw : MiddleWare Ip} {na : NodeAct Ip} {e : Effect Ip}

lemma act_answered (h : mw.act na = some e) {dst : Ip} {session : Nat} {a : Answer}
    (hp : (dst, .replicateRsp session a) ∈ e.sent) (hb : a.body ≠ none) :
    ∃ mean t entry, na = .recv dst (.replicate session mean t entry) ∧ e.mw.term = t := by
  cases act_cases h with
  | request method key value rand => simp [request_sent] at hp
  | sessionSend s =>
    obtain ⟨mean, log, heq, -⟩ := sessionMsgs_replicate mw s mw.otherIp _ hp
    simp at heq
  | replicate src session' mean t entry =>
    simp only [List.mem_map, Option.mem_toList, Prod.mk.injEq, Msg.replicateRsp.injEq] at hp
    obtain ⟨a', ha', rfl, rfl, rfl⟩ := hp
    exact ⟨mean, t, entry, rfl, handleReplicate_term (Prod.ext rfl ha') hb⟩
  | _ => simp at hp

lemma act_requests (h : mw.act na = some e) {dst : Ip} {session : Nat} {mean : Mean} {t : Nat}
    {x : RaftLogEntry} (hp : (dst, .replicate session mean t x) ∈ e.sent) : t = mw.term := by
  cases act_cases h with
  | request method key value rand => simp [request_sent] at hp
  | sessionSend s =>
    obtain ⟨mean', log, heq, -⟩ := sessionMsgs_replicate mw s mw.otherIp _ hp
    simp only [Msg.replicate.injEq] at heq
    exact heq.2.2.1
  | _ => simp at hp

lemma act_asksVote (h : mw.act na = some e) {dst : Ip} {c : VoteRequest}
    (hp : (dst, .vote c) ∈ e.sent) :
    c.logLen = mw.raftLog.lenCommited ∧ c.logTerm = mw.raftLog.lastOp.term := by
  cases act_cases h with
  | request method key value rand => simp [request_sent] at hp
  | sessionSend s =>
    obtain ⟨mean', log, heq, -⟩ := sessionMsgs_replicate mw s mw.otherIp _ hp
    simp at heq
  | electionStart =>
    simp only [List.mem_map, Prod.mk.injEq, Msg.vote.injEq] at hp
    obtain ⟨_, -, -, rfl⟩ := hp
    exact ⟨rfl, rfl⟩
  | _ => simp at hp

lemma act_leaving_term (h : mw.act na = some e) {p : MiddleWare Ip × Handler}
    (left : mw.leaving na = some p) : e.mw.term = mw.term := by
  cases act_cases h with
  | kvsBegin r =>
    obtain ⟨_, _, _, _, hmw⟩ := kvsBegin_frame mw r
    rw [hmw]
  | kvsWake hd =>
    obtain ⟨_, _, _, _, hmw⟩ := kvsWake_frame mw hd
    rw [hmw]
  | _ => simp [leaving] at left

end MiddleWare

namespace Cluster

section

variable {Ip : Type} [DecidableEq Ip]

/-- Besides what the commit quorum needs: a call leaves its loop in the term of its entry, and
nobody is supported who may lack an entry that is pending on the supporter. -/
structure DurableSafe (s : Cluster Ip) (i : Ip) (na : NodeAct Ip) : Prop where
  quorum : s.QuorumSafe i na
  inTerm : ∀ p ∈ (s.node i).leaving na, (s.node i).term = p.2.entry.term
  vote : ∀ p ∈ na.voteRequest, (s.node i).termOk p.1 p.2 → (s.node i).logOk p.2 →
    ¬ (s.node i).Overlooks p.2
  stands : na = .electionStart → (s.node i).raftLog.toCommit = []

instance [Fintype Ip] (s : Cluster Ip) (i : Ip) (na : NodeAct Ip) :
    Decidable (s.DurableSafe i na) :=
  decidable_of_iff
    (s.QuorumSafe i na ∧
      (∀ p ∈ (s.node i).leaving na, (s.node i).term = p.2.entry.term) ∧
      (∀ p ∈ na.voteRequest, (s.node i).termOk p.1 p.2 → (s.node i).logOk p.2 →
        ¬ (s.node i).Overlooks p.2) ∧
      (na = .electionStart → (s.node i).raftLog.toCommit = []))
    ⟨fun h => ⟨h.1, h.2.1, h.2.2.1, h.2.2.2⟩, fun h => ⟨h.1, h.2, h.3, h.4⟩⟩

end

variable {n : Nat}

/-- Node `v` has `l` entries, and a candidate it supports above term `t` has committed as many. -/
def Guards (s : Cluster (Fin (n + 1))) (v : Fin (n + 1)) (t l : Nat) : Prop :=
  l ≤ (s.payloads v).length ∧ ∀ c t', s.Supports v c t' → t < t' → l ≤ (s.files c).length

/-- The entry is in the log of node `m`, and a quorum guards it. -/
structure Acked (s : Cluster (Fin (n + 1))) (m : Fin (n + 1)) (entry : RaftLogEntry) : Prop where
  logged : (s.node m).raftLog.log[entry.ind]? = some entry
  quorum : ∃ H : Finset (Fin (n + 1)), (n + 1) / 2 + 1 ≤ H.card ∧
    ∀ v ∈ H, s.Guards v entry.term (entry.ind + 1)

structure DurableInv (s : Cluster (Fin (n + 1))) : Prop where
  valid : s.ValidInv
  quorum : s.QuorumInv
  ballot : s.BallotInv
  sorted : ∀ i, (s.payloads i).Pairwise fun x y => x.2.2.2.2 ≤ y.2.2.2.2
  packets : ∀ src dst session mean t x, ⟨src, dst, .replicate session mean t x⟩ ∈ s.net →
    t ≤ (s.node src).term
  /-- what a candidate says of its log: the length, and the term of the last entry -/
  requests : ∀ src dst c, ⟨src, dst, .vote c⟩ ∈ s.net → c.logLen ≤ (s.files src).length ∧
    (0 < c.logTerm → 0 < c.logLen ∧ ∃ x, (s.files src)[c.logLen - 1]? = some x ∧ x.term = c.logTerm)
  answers : ∀ v m session a l ack, ⟨v, m, .replicateRsp session a⟩ ∈ s.net →
    a.body = some (l, ack) → s.Guards v (s.node m).term l
  sentLen : ∀ m v l, (s.node m).sentLen v = some l → s.Guards v (s.node m).term l
  acked : ∀ m ev entry, (m, ev) ∈ s.trace → ev.acknowledged = some entry → s.Acked m entry

lemma Guards.mono {s : Cluster (Fin (n + 1))} {v : Fin (n + 1)} {t t' l l' : Nat}
    (h : s.Guards v t l) (ht : t ≤ t') (hl : l' ≤ l) : s.Guards v t' l' :=
  ⟨hl.trans h.1, fun c t'' hs hlt => hl.trans (h.2 c t'' hs (ht.trans_lt hlt))⟩

lemma guards_zero (s : Cluster (Fin (n + 1))) (v : Fin (n + 1)) (t : Nat) : s.Guards v t 0 :=
  ⟨Nat.zero_le _, fun _ _ _ _ => Nat.zero_le _⟩

section Step

variable {s : Cluster (Fin (n + 1))} {i : Fin (n + 1)} {na : NodeAct (Fin (n + 1))}
  {net : List (Packet (Fin (n + 1)))} {e : Effect (Fin (n + 1))}

lemma DurableInv.term_le (h : s.DurableInv) {j : Fin (n + 1)} {k k' : Nat}
    {x y : Opertn × String × String × String × Nat} (hk : k ≤ k')
    (hx : (s.payloads j)[k]? = some x) (hy : (s.payloads j)[k']? = some y) :
    x.2.2.2.2 ≤ y.2.2.2.2 := by
  rcases hk.eq_or_lt with rfl | hlt
  · rw [hx, Option.some.injEq] at hy
    rw [hy]
  · obtain ⟨hk, rfl⟩ := List.getElem?_eq_some_iff.1 hx
    obtain ⟨hk', rfl⟩ := List.getElem?_eq_some_iff.1 hy
    exact List.pairwise_iff_getElem.1 (h.sorted j) k k' hk hk' hlt

omit na net e in
lemma payload_of_file {k : Nat} {x : RaftLogEntry} (hx : (s.files i)[k]? = some x) :
    (s.payloads i)[k]? = some x.payload := by
  rw [payloads, MiddleWare.payloads, List.getElem?_map, Logger.log_of_file hx]
  rfl

/-- A committed entry is of no later term than the last one. -/
lemma DurableInv.le_lastOp (h : s.DurableInv) {k : Nat} {x : RaftLogEntry}
    (hx : (s.files i)[k]? = some x) : x.term ≤ (s.node i).raftLog.lastOp.term := by
  have hlt := (List.getElem?_eq_some_iff.1 hx).1
  have hne : (s.node i).raftLog.file ≠ [] := by
    intro hnil
    simp [files, hnil] at hlt
  have hlast : (s.files i)[(s.files i).length - 1]? = some (s.node i).raftLog.lastOp := by
    rw [Logger.lastOp, (h.quorum.chained i).last, List.getLast?_eq_some_getLast hne, files,
      ← List.getLast?_eq_getElem?, List.getLast?_eq_some_getLast hne]
    rfl
  exact h.term_le (Nat.le_sub_one_of_lt hlt) (payload_of_file hx) (payload_of_file hlast)

/-- A candidate that gets a vote has committed as many entries as the voter has, pending or not. -/
lemma DurableInv.granted_reaches (h : s.DurableInv) (hok : s.DurableSafe i na)
    (hrecv : ∀ src msg, na = .recv src msg → ⟨src, i, msg⟩ ∈ s.net) {c : Fin (n + 1)}
    {r : VoteRequest} (hna : na = .recv c (.vote r)) (hterm : (s.node i).termOk c r = true)
    (hlog : (s.node i).logOk r = true) : (s.payloads i).length ≤ (s.files c).length := by
  obtain ⟨hlen, hlast⟩ := h.requests c i r (hrecv _ _ hna)
  have hc := h.quorum.chained i
  have hover := hok.vote (c, r) (by rw [hna]; rfl) hterm hlog
  have hpay : (s.payloads i).length = (s.node i).raftLog.lenUncommited :=
    MiddleWare.length_payloads hc
  rw [hpay]
  refine le_trans ?_ hlen
  by_contra hshort
  have hnot : ¬ (r.logTerm = (s.node i).raftLog.lastOp.term ∨
      1 < (s.node i).raftLog.toCommit.length) := fun hor => hover ⟨not_le.1 hshort, hor⟩
  rw [not_or, not_lt] at hnot
  obtain ⟨hne, hone⟩ := hnot
  simp only [MiddleWare.logOk, Bool.or_eq_true, Bool.and_eq_true, decide_eq_true_eq] at hlog
  have hlater : (s.node i).raftLog.lastOp.term < r.logTerm := by omega
  obtain ⟨hpos, x, hx, hxterm⟩ := hlast (by omega)
  -- the candidate's last entry is too late to be among the committed ones of the voter
  have hbeyond : (s.files i).length < r.logLen := by
    by_contra hle
    obtain ⟨y, hy⟩ : ∃ y, (s.files i)[r.logLen - 1]? = some y :=
      ⟨_, List.getElem?_eq_getElem (by omega)⟩
    have heq := h.quorum.agree c i _ _ _ (payload_of_file hx) (payload_of_file hy)
    have hyterm : x.term = y.term := congrArg (·.2.2.2.2) heq
    have := h.le_lastOp hy
    omega
  rw [Logger.lenUncommited, Logger.lenCommited_eq hc] at hshort
  simp only [files] at hbeyond
  omega

/-- Nothing that is guarded stops being so. -/
lemma DurableInv.guards_after (h : s.DurableInv) (hok : s.DurableSafe i na)
    (hact : (s.node i).act na = some e)
    (hrecv : ∀ src msg, na = .recv src msg → ⟨src, i, msg⟩ ∈ s.net) {v : Fin (n + 1)} {t l : Nat}
    (hg : s.Guards v t l) : ({ s with net := net }.after i e).Guards v t l := by
  have hgrow (j : Fin (n + 1)) :
      (s.files j).length ≤ (({ s with net := net }.after i e).files j).length :=
    (h.valid.keeps hact hrecv net j).1.length_le
  have hballot := MiddleWare.act_ballot hact
  refine ⟨hg.1.trans (h.quorum.payloads_grow hok.quorum hact hrecv net v).length_le, ?_⟩
  rintro c t' hs hlt
  have hold : s.Supports v c t' →
      l ≤ (({ s with net := net }.after i e).files c).length :=
    fun hs => (hg.2 c t' hs hlt).trans (hgrow c)
  rcases hs with ⟨rfl, hcamp⟩ | hgrant
  · rcases mem_after_trace.1 hcamp with hcamp | ⟨rfl, hnew⟩
    · exact hold (.inl ⟨rfl, hcamp⟩)
    · -- nothing is pending on a node that stands
      have hnone := hok.stands (hballot.stands hnew)
      refine (hg.1.trans ?_).trans (hgrow v)
      rw [payloads, MiddleWare.payloads_eq_map hnone, List.length_map]
      rfl
  · rcases mem_after_trace.1 hgrant with hgrant | ⟨rfl, hnew⟩
    · exact hold (.inr hgrant)
    · obtain ⟨r, hna, -, hterm, hlog, -, -⟩ := hballot.granted hnew
      exact (hg.1.trans (h.granted_reaches hok hrecv hna hterm hlog)).trans (hgrow c)

/-- A node that is still in the term guards all it has. -/
lemma BallotInv.guards (h : s.BallotInv) {v : Fin (n + 1)} {t l : Nat}
    (ht : (s.node v).term ≤ t) (hl : l ≤ (s.payloads v).length) : s.Guards v t l :=
  ⟨hl, fun _ _ hs hlt => absurd (h.supports_le hs) (not_le.2 (ht.trans_lt hlt))⟩

lemma DurableInv.sorted_after (h : s.DurableInv) (hok : s.DurableSafe i na)
    (hact : (s.node i).act na = some e)
    (hrecv : ∀ src msg, na = .recv src msg → ⟨src, i, msg⟩ ∈ s.net) :
    e.mw.payloads.Pairwise fun x y => x.2.2.2.2 ≤ y.2.2.2.2 := by
  rcases h.quorum.grows hok.quorum hact hrecv with
    hsame | ⟨x, hlogging, -, hnew⟩ | ⟨src, x, hsrc, hnew⟩
  · exact hsame ▸ h.sorted i
  · obtain ⟨-, -, -, hterm⟩ := MiddleWare.logging_asks hlogging
    rw [hnew, List.pairwise_append]
    refine ⟨h.sorted i, List.pairwise_singleton _ _, fun y hy z hz => ?_⟩
    obtain rfl := List.mem_singleton.1 hz
    obtain ⟨y', hy', rfl⟩ := List.mem_map.1 hy
    exact (h.valid.logs i y' hy').2.trans hterm.ge
  · rw [hnew, List.pairwise_append]
    refine ⟨h.sorted i, List.pairwise_singleton _ _, fun y hy z hz => ?_⟩
    obtain rfl := List.mem_singleton.1 hz
    -- the log the entry comes from has the same entries before it
    obtain ⟨k, hk⟩ := List.mem_iff_getElem?.1 hy
    have hlt := (List.getElem?_eq_some_iff.1 hk).1
    have hlen := (List.getElem?_eq_some_iff.1 hsrc).1
    obtain ⟨y', hy'⟩ : ∃ y', (s.payloads src)[k]? = some y' :=
      ⟨_, List.getElem?_eq_getElem (hlt.trans hlen)⟩
    obtain rfl : y = y' := h.quorum.agree i src k y y' hk hy'
    exact h.term_le hlt.le hy' hsrc

/-- What a node that stands says of its log. -/
lemma DurableInv.request_after (h : s.DurableInv) (hact : (s.node i).act na = some e)
    {dst : Fin (n + 1)} {c : VoteRequest} (hp : (dst, .vote c) ∈ e.sent) :
    c.logLen ≤ (s.files i).length ∧
      (0 < c.logTerm → 0 < c.logLen ∧ ∃ x, (s.files i)[c.logLen - 1]? = some x ∧
        x.term = c.logTerm) := by
  obtain ⟨hlen, hterm⟩ := MiddleWare.act_asksVote hact hp
  have hc := h.quorum.chained i
  rw [Logger.lenCommited_eq hc] at hlen
  refine ⟨hlen.le, fun hpos => ?_⟩
  have hne : (s.node i).raftLog.file ≠ [] := by
    intro hnil
    rw [hterm, Logger.lastOp, Logger.lastEntry_nil hc hnil] at hpos
    simp [RaftLogEntry.zero] at hpos
  refine ⟨hlen ▸ List.length_pos_of_ne_nil hne, (s.node i).raftLog.lastOp, ?_, hterm.symm⟩
  rw [hlen, files, ← List.getLast?_eq_getElem?, Logger.lastOp, hc.last,
    List.getLast?_eq_some_getLast hne]
  rfl

/-- What a node answers with it guards in the term of the message. -/
lemma DurableInv.answer_after (h : s.DurableInv) (hact : (s.node i).act na = some e)
    (hnet : net ⊆ s.net)
    (hrecv : ∀ src msg, na = .recv src msg → ⟨src, i, msg⟩ ∈ s.net) {m : Fin (n + 1)}
    {session : Nat} {a : Answer} {l : Nat} {ack : Bool} (hp : (m, .replicateRsp session a) ∈ e.sent)
    (hb : a.body = some (l, ack)) :
    ({ s with net := net }.after i e).Guards i (s.node m).term l := by
  obtain ⟨mean, t, x, hna, hterm⟩ := MiddleWare.act_answered hact hp (by simp [hb])
  have hle := h.packets _ _ _ _ _ _ (hrecv _ _ hna)
  refine (h.ballot.after hact hnet hrecv).guards ?_ ?_
  · rwa [after_node_self, hterm]
  · rw [MiddleWare.act_answers hact hp hb, payloads_after, Function.update_self,
      MiddleWare.length_payloads (h.quorum.chained_after hact hrecv)]

/-- When a call is acknowledged, a quorum guards its entry. -/
lemma DurableInv.acked_new (h : s.DurableInv) (hok : s.DurableSafe i na)
    (hact : (s.node i).act na = some e) (hnet : net ⊆ s.net)
    (hrecv : ∀ src msg, na = .recv src msg → ⟨src, i, msg⟩ ∈ s.net) {ev : Event (Fin (n + 1))}
    (hev : ev ∈ e.events) {entry : RaftLogEntry} (hack : ev.acknowledged = some entry) :
    ({ s with net := net }.after i e).Acked i entry := by
  obtain ⟨m, hd, hleft, -, rfl⟩ := (MiddleWare.act_leave hact).acknowledged hev hack
  obtain ⟨-, hlog, P, hi, hcard, hP⟩ :=
    h.quorum.answered h.ballot.peers hok.quorum hact hrecv hleft
  have hterm : (s.node i).term = hd.entry.term := hok.inTerm (m, hd) hleft
  have hlt := (List.getElem?_eq_some_iff.1 hlog).1
  refine ⟨by rwa [after_node_self], insert i P, ?_, fun v hv => ?_⟩
  · rw [Finset.card_insert_of_notMem hi]
    omega
  · rcases Finset.mem_insert.1 hv with rfl | hv
    · refine (h.ballot.after hact hnet hrecv).guards ?_ ?_
      · rw [after_node_self, MiddleWare.act_leaving_term hact hleft, hterm]
      · rw [payloads_after, Function.update_self, MiddleWare.payloads, List.length_map]
        exact hlt
    · obtain ⟨l, hl, hlt⟩ := hP v hv
      exact h.guards_after hok hact hrecv ((h.sentLen i v l hl).mono hterm.le hlt)

lemma DurableInv.after (h : s.DurableInv) (hok : s.DurableSafe i na)
    (hact : (s.node i).act na = some e) (hnet : net ⊆ s.net)
    (hrecv : ∀ src msg, na = .recv src msg → ⟨src, i, msg⟩ ∈ s.net) :
    ({ s with net := net }.after i e).DurableInv := by
  have hkeeps := h.valid.keeps hact hrecv net
  have hguards {v : Fin (n + 1)} {t t' l : Nat} (hg : s.Guards v t l) (ht : t ≤ t') :
      ({ s with net := net }.after i e).Guards v t' l :=
    (h.guards_after hok hact hrecv hg).mono ht le_rfl
  refine ⟨h.valid.after hact hnet hrecv, h.quorum.after hok.quorum hact hnet hrecv,
    h.ballot.after hact hnet hrecv, ?_, ?_, ?_, ?_, ?_, ?_⟩
  · intro j
    rw [payloads_after]
    by_cases hj : j = i
    · subst hj
      rw [Function.update_self]
      exact h.sorted_after hok hact hrecv
    · rw [Function.update_of_ne hj]
      exact h.sorted j
  · intro src dst session mean t x hp
    refine le_trans ?_ (hkeeps src).2
    rcases mem_after_net.1 hp with hold | ⟨rfl, hnew⟩
    · exact h.packets _ _ _ _ _ _ (hnet hold)
    · exact (MiddleWare.act_requests hact hnew).le
  · intro src dst c hp
    have hold : c.logLen ≤ (s.files src).length ∧ (0 < c.logTerm → 0 < c.logLen ∧
        ∃ x, (s.files src)[c.logLen - 1]? = some x ∧ x.term = c.logTerm) := by
      rcases mem_after_net.1 hp with hold | ⟨rfl, hnew⟩
      · exact h.requests src dst c (hnet hold)
      · exact h.request_after hact hnew
    refine ⟨hold.1.trans (hkeeps src).1.length_le, fun hpos => ?_⟩
    obtain ⟨hlen, x, hx, hterm⟩ := hold.2 hpos
    exact ⟨hlen, x, getElem?_mono (hkeeps src).1 hx, hterm⟩
  · intro v m session a l ack hp hb
    rcases mem_after_net.1 hp with hold | ⟨rfl, hnew⟩
    · exact hguards (h.answers v m session a l ack (hnet hold) hb) (hkeeps m).2
    · exact (h.answer_after hact hnet hrecv hnew hb).mono (hkeeps m).2 le_rfl
  · intro m v l hl
    by_cases hm : m = i
    · subst hm
      rw [after_node_self] at hl
      rcases MiddleWare.act_sentLen hact hl with hold | rfl | ⟨session, a, ack, hna, hb⟩
      · exact hguards (h.sentLen m v l hold) (hkeeps m).2
      · exact guards_zero _ v _
      · exact hguards (h.answers v m session a l ack (hrecv _ _ hna) hb) (hkeeps m).2
    · have hterm := (hkeeps m).2
      rw [after_node_ne _ _ hm] at hl
      exact hguards (h.sentLen m v l hl) hterm
  · intro m ev entry hev hack
    rcases mem_after_trace.1 hev with hold | ⟨rfl, hnew⟩
    · obtain ⟨hlog, H, hcard, hH⟩ := h.acked m ev entry hold hack
      exact ⟨h.quorum.log_after hok.quorum hact hrecv net hlog, H, hcard,
        fun v hv => hguards (hH v hv) le_rfl⟩
    · exact h.acked_new hok hact hnet hrecv hnew hack

end Step

end Cluster

end TiPI.DB
