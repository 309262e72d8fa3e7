import TiPI.DB.LogSteps

/-!
# What a follower acknowledges

A follower answers a replication message with the length of its log. `FalseAck` are the messages
whose answer claims an entry that the follower does not have.
-/

namespace TiPI.DB

variable {Ip : Type}

/-- A decoded `POST` to `/replicate/{mean}`. -/
structure ReplicateMsg (Ip : Type) where
  ip : Ip
  mean : Mean
  term : Nat
  entry : RaftLogEntry

/-- As a master sends it: an entry of its log with its index. -/
structure ReplicateMsg.FromLog (m : ReplicateMsg Ip) : Prop where
  mean : m.mean = .logappend ∨ m.mean = .logcommit
  ind : m.entry.ind < 2 ^ 64
  prevInd : m.entry.prevInd = m.entry.ind - 1

namespace Logger

/-- The entry at the index of `e` is `e`, but for the fields that `LogOp` sets. -/
def HasEntry (es : List RaftLogEntry) (e : RaftLogEntry) : Prop :=
  ∃ e', es[e.ind]? = some e' ∧ e'.payload = e.payload

instance (es : List RaftLogEntry) (e : RaftLogEntry) : Decidable (HasEntry es e) :=
  match h : es[e.ind]? with
  | none => isFalse fun ⟨e', he', _⟩ => by simp [h] at he'
  | some e' => decidable_of_iff (e'.payload = e.payload) (by simp [HasEntry, h])

/-- The entry belongs right behind the committed ones, where it displaces what waits there. At
index `0` it does not: an entry that waits there stays. -/
def Next (l : Logger) (e : RaftLogEntry) : Prop :=
  e.ind = l.lenCommited ∧ (e.ind = 0 → l.toCommit = [])

/-- An index that the log covers, with another entry that stays there. -/
def Rival (l : Logger) (e : RaftLogEntry) : Prop :=
  e.ind < l.lenUncommited ∧ ¬ l.Next e ∧ ¬ HasEntry l.log e

end Logger

namespace MiddleWare

/-- A node whose process has ended answers nothing. -/
def receive (mw : MiddleWare Ip) (m : ReplicateMsg Ip) : MiddleWare Ip × Option Answer :=
  if mw.running then mw.handleReplicate m.ip m.mean m.term m.entry else (mw, none)

/-- The node after some messages. -/
def receives (mw : MiddleWare Ip) (msgs : List (ReplicateMsg Ip)) : MiddleWare Ip :=
  msgs.foldl (fun mw m => (mw.receive m).1) mw

/-- What an answer with `200` says about the node `mw'` after the message is the case. -/
def TrueAck (mw' : MiddleWare Ip) (m : ReplicateMsg Ip) (a : Option Answer) : Prop :=
  ∀ len commited, a = some ⟨200, some (len, commited)⟩ →
    (m.entry.ind < len → Logger.HasEntry mw'.raftLog.log m.entry) ∧
    (m.mean = .logcommit → commited = true → Logger.HasEntry mw'.raftLog.file m.entry)

/-- A `logappend` with a rival anywhere in the log, a `logcommit` with a rival at its end (the
process ends when it is not at its end, or is displaced by a copy of the entry), and a `logcommit`
of the last index there is on an empty log. -/
def FalseAck (mw : MiddleWare Ip) (m : ReplicateMsg Ip) : Prop :=
  mw.running = true ∧ mw.term ≤ m.term ∧
    match m.mean with
    | .logappend => mw.raftLog.Rival m.entry
    | .logcommit =>
      mw.raftLog.Rival m.entry ∧ m.entry.ind + 1 = mw.raftLog.lenUncommited ∧
          ¬ (m.entry.ind = 0 ∧ mw.raftLog.lenCommited = 1) ∨
        mw.raftLog.lenUncommited = 0 ∧ m.entry.ind = 2 ^ 64 - 1
    | .heartbeat | .other _ => False

/-! ### States of a follower -/

/-- A follower whose log has one entry at most behind the committed ones. -/
structure IsFollower (mw : MiddleWare Ip) : Prop where
  state : mw.state = .SLAVE
  chained : mw.raftLog.Chained
  pending : mw.raftLog.toCommit.length ≤ 1

/-- A message of a past term, or one to a node that has ended. -/
lemma receive_ignored {mw : MiddleWare Ip} (hs : mw.state = .SLAVE) {m : ReplicateMsg Ip}
    (h : ¬ (mw.running = true ∧ mw.term ≤ m.term)) :
    (mw.receive m).1 = mw ∧ ((mw.receive m).2 = none ∨ (mw.receive m).2 = some rejected) := by
  unfold receive
  split
  · next hr =>
    have hlt : m.term < mw.term := by
      by_contra hle
      exact h ⟨hr, not_lt.1 hle⟩
    have hrejected : mw.handleReplicate m.ip m.mean m.term m.entry = (mw, some rejected) := by
      simp only [handleReplicate, hs, raiseTerm_frame, max_eq_left hlt.le, gt_iff_lt, hlt, if_true]
      rw [← hs]
    rw [hrejected]
    exact ⟨rfl, .inr rfl⟩
  · exact ⟨rfl, .inl rfl⟩

lemma receive_taken {mw : MiddleWare Ip} (hs : mw.state = .SLAVE) {m : ReplicateMsg Ip}
    (hr : mw.running = true) (ht : mw.term ≤ m.term) :
    mw.receive m = ({ mw with term := m.term } : MiddleWare Ip).replicateSlave m.mean m.entry := by
  simp [receive, hr, handleReplicate, hs, raiseTerm_frame, max_eq_right ht]

lemma IsFollower.receive {mw : MiddleWare Ip} (h : mw.IsFollower) {m : ReplicateMsg Ip}
    (hop : CarriesOp m.mean m.entry) : (mw.receive m).1.IsFollower := by
  by_cases htaken : mw.running = true ∧ mw.term ≤ m.term
  · rw [receive_taken h.state htaken.1 htaken.2]
    have hcase := replicateSlave_log ({ mw with term := m.term } : MiddleWare Ip) m.mean m.entry
    refine ⟨?_, replicateCase_chained hcase h.chained hop, ?_⟩
    · obtain ⟨_, _, _, hframe⟩ :=
        replicateSlave_frame ({ mw with term := m.term } : MiddleWare Ip) m.mean m.entry
      rw [hframe]
      exact h.state
    · have hpending := h.pending
      cases hcase with
      | keep log => rwa [log]
      | append _ _ log => simp [log, Logger.logOp]
      | commit _ _ _ log => simp [log, Logger.logOp, Logger.logCommit]
      | commitWaiting _ _ _ log =>
        rw [log, Logger.logCommit]
        split
        · exact hpending
        · next x rest hrest =>
          have hlen : (x :: rest).length ≤ 1 := hrest ▸ hpending
          simp only [List.length_cons] at hlen ⊢
          omega
      | exit _ _ log => simp [log]
  · rw [(receive_ignored h.state htaken).1]
    exact h

lemma isFollower_init (selfIp : Ip) (otherIp : List Ip) : (init selfIp otherIp).IsFollower :=
  ⟨rfl, Logger.chained_fresh, by simp [init, Logger.fresh]⟩

lemma IsFollower.receives {mw : MiddleWare Ip} (h : mw.IsFollower) {msgs : List (ReplicateMsg Ip)}
    (hop : ∀ m ∈ msgs, CarriesOp m.mean m.entry) : (mw.receives msgs).IsFollower := by
  induction msgs generalizing mw with
  | nil => exact h
  | cons m msgs ih =>
    exact ih (h.receive (hop m List.mem_cons_self)) fun m' hm' =>
      hop m' (List.mem_cons_of_mem _ hm')

/-! ### One message -/

lemma takesEntry_iff {mw : MiddleWare Ip} {m : ReplicateMsg Ip} (hm : m.FromLog) :
    mw.takesEntry m.entry = true ↔
      mw.raftLog.Next m.entry ∨ m.entry.ind = 0 ∧ mw.raftLog.lenCommited = 1 := by
  have hind := hm.ind
  have hlen : mw.raftLog.lenUncommited = mw.raftLog.lenCommited + mw.raftLog.toCommit.length := rfl
  simp only [takesEntry, hm.prevInd, Logger.pred, Logger.Next, Bool.or_eq_true, Bool.and_eq_true,
    decide_eq_true_eq, ← List.length_eq_zero_iff]
  split <;> omega

/-- What the log of a follower holds when the entry goes behind the committed ones. -/
lemma logOp_next {l : Logger} (hc : l.Chained) (e : RaftLogEntry) :
    l.flushUncommited.logOp e = { l with toCommit := [e.stamp l.file] } := by
  rw [Logger.logOp_eq hc.flushUncommited, Logger.flushUncommited_log]
  rfl

lemma hasEntry_stamp {es : List RaftLogEntry} {e : RaftLogEntry} (hind : e.ind = es.length) :
    Logger.HasEntry (es ++ [e.stamp es]) e :=
  ⟨e.stamp es, by simp [hind], rfl⟩

lemma hasEntry_append {es es' : List RaftLogEntry} {e : RaftLogEntry} (hind : e.ind < es.length) :
    Logger.HasEntry (es ++ es') e ↔ Logger.HasEntry es e := by
  rw [Logger.HasEntry, Logger.HasEntry, List.getElem?_append_left hind]

lemma trueAck_lens {mw : MiddleWare Ip} {m : ReplicateMsg Ip} :
    TrueAck mw m (some mw.lens) ↔
      (m.entry.ind < mw.raftLog.lenUncommited → Logger.HasEntry mw.raftLog.log m.entry) ∧
      (m.mean = .logcommit → mw.raftLog.lenUncommited = mw.raftLog.lenCommited →
        Logger.HasEntry mw.raftLog.file m.entry) := by
  simp [TrueAck, lens]

/-- A `logappend` that appends nothing. -/
lemma rival_of_not_next {l : Logger} {e : RaftLogEntry} (hnext : ¬ l.Next e) :
    (e.ind < l.lenUncommited → Logger.HasEntry l.log e) ↔ ¬ l.Rival e := by
  rw [Logger.Rival, not_and, not_and_not_right]
  exact ⟨fun h hlt _ => h hlt, fun h hlt => h hlt hnext⟩

/-- A first entry that is taken a second time goes to index `1`. -/
lemma rival_first {l : Logger} (hc : l.Chained) {e : RaftLogEntry} (h0 : e.ind = 0)
    (h1 : l.lenCommited = 1) : Logger.HasEntry l.file e ↔ ¬ l.Rival e := by
  have hpos : e.ind < l.file.length := by
    rw [← Logger.lenCommited_eq hc]
    omega
  have hlt : e.ind < l.lenUncommited := by
    rw [Logger.lenUncommited]
    omega
  rw [← rival_of_not_next fun hnext => by have := hnext.1; omega, Logger.log, hasEntry_append hpos]
  exact ⟨fun h _ => h, fun h => h hlt⟩

lemma trueAck_append {mw : MiddleWare Ip} (h : mw.IsFollower) {m : ReplicateMsg Ip}
    (hm : m.FromLog) (hmean : m.mean = .logappend) (hr : mw.running = true)
    (ht : mw.term ≤ m.term) :
    TrueAck (mw.receive m).1 m (mw.receive m).2 ↔ ¬ mw.raftLog.Rival m.entry := by
  have hlen := Logger.lenCommited_eq h.chained
  rw [receive_taken h.state hr ht, hmean, replicateSlave, trueAck_lens, hmean, replicateAppend_eq]
  simp only [reduceCtorEq, false_implies, and_true]
  by_cases htakes : mw.takesEntry m.entry = true
  · rw [if_pos (by exact htakes), logOp_next h.chained]
    have hlen' :
        ({ mw.raftLog with toCommit := [m.entry.stamp mw.raftLog.file] } : Logger).lenUncommited =
        mw.raftLog.lenCommited + 1 := rfl
    rcases (takesEntry_iff hm).1 htakes with hnext | ⟨h0, h1⟩
    · have hhas := hasEntry_stamp (hnext.1.trans hlen)
      exact ⟨fun _ hrival => hrival.2.1 hnext, fun _ _ => hhas⟩
    · rw [← rival_first h.chained h0 h1, hlen']
      have hpos : m.entry.ind < mw.raftLog.file.length := by omega
      exact ⟨fun hack => (hasEntry_append hpos).1 (hack (by omega)),
        fun hhas _ => (hasEntry_append hpos).2 hhas⟩
  · have hnext : ¬ mw.raftLog.Next m.entry :=
      fun hnext => htakes ((takesEntry_iff hm).2 (.inl hnext))
    rw [if_neg (by exact htakes)]
    exact rival_of_not_next hnext

/-- The end of a `logcommit`: the process goes on when the entry is the last one. -/
lemma trueAck_commit {mw : MiddleWare Ip} {m : ReplicateMsg Ip} {l : Logger}
    (happ : mw.replicateAppend m.entry = { mw with raftLog := l }) (hmean : m.mean = .logcommit) :
    TrueAck (mw.replicateSlave m.mean m.entry).1 m (mw.replicateSlave m.mean m.entry).2 ↔
      (Logger.pred l.lenUncommited = m.entry.ind →
        TrueAck { mw with raftLog := l.logCommit } m
          (some { mw with raftLog := l.logCommit }.lens)) := by
  rw [hmean, replicateSlave, happ, replicateCommit]
  by_cases hind : Logger.pred l.lenUncommited = m.entry.ind
  · simp only [hind, ne_eq, not_true_eq_false, if_false, true_implies]
    rw [trueAck_lens, trueAck_lens]
    rfl
  · simp only [hind, ne_eq, not_false_eq_true, if_true, false_implies, iff_true]
    intro len commited hnone
    simp at hnone

lemma logCommit_file {l : Logger} (hpending : l.toCommit.length ≤ 1) :
    l.logCommit.file = l.log := by
  rw [Logger.logCommit, Logger.log]
  split
  · next hnil => rw [hnil, List.append_nil]
  · next x rest hrest =>
    have hlen : (x :: rest).length ≤ 1 := hrest ▸ hpending
    obtain rfl : rest = [] := List.eq_nil_of_length_eq_zero (by simpa using hlen)
    rw [hrest]

/-- Committing an entry that has just been appended. -/
lemma trueAck_commit_next (mw : MiddleWare Ip) {m : ReplicateMsg Ip}
    (hind : m.entry.ind = mw.raftLog.file.length) {l : Logger}
    (hl : l =
      ({ mw.raftLog with toCommit := [m.entry.stamp mw.raftLog.file] } : Logger).logCommit) :
    TrueAck { mw with raftLog := l } m (some { mw with raftLog := l }.lens) := by
  subst hl
  rw [trueAck_lens, Logger.logCommit_log]
  exact ⟨fun _ => hasEntry_stamp hind, fun _ _ => hasEntry_stamp hind⟩

/-- Committing what is at the end of the log. -/
lemma trueAck_commit_last {mw : MiddleWare Ip} (h : mw.IsFollower) {m : ReplicateMsg Ip}
    (hmean : m.mean = .logcommit) :
    TrueAck { mw with raftLog := mw.raftLog.logCommit } m
      (some { mw with raftLog := mw.raftLog.logCommit }.lens) ↔
    Logger.HasEntry mw.raftLog.log m.entry := by
  have hfile := logCommit_file h.pending
  have hlens : mw.raftLog.logCommit.lenUncommited = mw.raftLog.logCommit.lenCommited := by
    rw [Logger.lenUncommited_eq h.chained.logCommit, Logger.lenCommited_eq h.chained.logCommit,
      Logger.logCommit_log, hfile]
  rw [trueAck_lens]
  simp only [hmean, hlens, true_implies, Logger.logCommit_log, hfile]
  exact and_iff_right_of_imp fun hhas _ => hhas

lemma falseAck_commit {mw : MiddleWare Ip} {m : ReplicateMsg Ip} (hmean : m.mean = .logcommit)
    (hr : mw.running = true) (ht : mw.term ≤ m.term) :
    mw.FalseAck m ↔
      mw.raftLog.Rival m.entry ∧ m.entry.ind + 1 = mw.raftLog.lenUncommited ∧
          ¬ (m.entry.ind = 0 ∧ mw.raftLog.lenCommited = 1) ∨
        mw.raftLog.lenUncommited = 0 ∧ m.entry.ind = 2 ^ 64 - 1 := by
  simp only [FalseAck, hmean, hr, ht, true_and]

lemma trueAck_commit_iff {mw : MiddleWare Ip} (h : mw.IsFollower) {m : ReplicateMsg Ip}
    (hm : m.FromLog) (hmean : m.mean = .logcommit) (hr : mw.running = true)
    (ht : mw.term ≤ m.term) :
    TrueAck (mw.receive m).1 m (mw.receive m).2 ↔ ¬ mw.FalseAck m := by
  have hlen := Logger.lenCommited_eq h.chained
  have hle : mw.raftLog.lenUncommited = mw.raftLog.lenCommited + mw.raftLog.toCommit.length := rfl
  rw [receive_taken h.state hr ht, falseAck_commit hmean hr ht]
  have happ := replicateAppend_eq ({ mw with term := m.term } : MiddleWare Ip) m.entry
  by_cases htakes : mw.takesEntry m.entry = true
  · rw [if_pos (by exact htakes), logOp_next h.chained] at happ
    rw [trueAck_commit happ hmean]
    have hlen' :
        ({ mw.raftLog with toCommit := [m.entry.stamp mw.raftLog.file] } : Logger).lenUncommited =
        mw.raftLog.lenCommited + 1 := rfl
    rw [hlen']
    rcases (takesEntry_iff hm).1 htakes with hnext | ⟨h0, h1⟩
    · have hack := trueAck_commit_next { mw with term := m.term } (hnext.1.trans hlen) rfl
      refine ⟨fun _ => ?_, fun _ _ => hack⟩
      rintro (⟨hrival, -⟩ | ⟨h0, hmax⟩)
      · exact hrival.2.1 hnext
      · have := hnext.1
        omega
    · have hpred : Logger.pred (mw.raftLog.lenCommited + 1) ≠ m.entry.ind := by
        rw [h0, h1]
        decide
      refine ⟨fun _ => ?_, fun _ hind => absurd hind hpred⟩
      rintro (⟨-, -, hfirst⟩ | ⟨hzero, -⟩)
      · exact hfirst ⟨h0, h1⟩
      · omega
  · rw [if_neg (by exact htakes)] at happ
    rw [trueAck_commit happ hmean]
    have hnext : ¬ mw.raftLog.Next m.entry :=
      fun hnext => htakes ((takesEntry_iff hm).2 (.inl hnext))
    have hfirst : ¬ (m.entry.ind = 0 ∧ mw.raftLog.lenCommited = 1) :=
      fun hfirst => htakes ((takesEntry_iff hm).2 (.inr hfirst))
    have hsame : ({ mw with term := m.term } : MiddleWare Ip).IsFollower :=
      ⟨h.state, h.chained, h.pending⟩
    have hlast := trueAck_commit_last hsame hmean
    have hnone : mw.raftLog.lenUncommited = 0 → ¬ Logger.HasEntry mw.raftLog.log m.entry := by
      rintro hzero ⟨e, he, -⟩
      rw [Logger.lenUncommited_eq h.chained] at hzero
      simp [List.length_eq_zero_iff.1 hzero] at he
    simp only at hlast
    rw [hlast]
    simp only [Logger.Rival, hnext, hfirst, not_false_eq_true, true_and, and_true, Logger.pred]
    by_cases hhas : Logger.HasEntry mw.raftLog.log m.entry
    · simp only [hhas, implies_true, not_true_eq_false, and_false, false_and, false_or, true_iff,
        not_and]
      exact fun hzero => absurd hhas (hnone hzero)
    · simp only [hhas, not_false_eq_true, and_true, imp_false]
      split <;> omega

lemma trueAck_iff {mw : MiddleWare Ip} (h : mw.IsFollower) {m : ReplicateMsg Ip}
    (hm : m.FromLog) : TrueAck (mw.receive m).1 m (mw.receive m).2 ↔ ¬ mw.FalseAck m := by
  by_cases htaken : mw.running = true ∧ mw.term ≤ m.term
  · rcases hm.mean with hmean | hmean
    · rw [trueAck_append h hm hmean htaken.1 htaken.2]
      simp [FalseAck, hmean, htaken.1, htaken.2]
    · exact trueAck_commit_iff h hm hmean htaken.1 htaken.2
  · refine ⟨fun _ hfalse => htaken ⟨hfalse.1, hfalse.2.1⟩, fun _ len commited hack => ?_⟩
    rcases (receive_ignored h.state htaken).2 with hnone | hrejected
    · simp [hnone] at hack
    · simp [hrejected, rejected] at hack

/-- After any messages that carry entries with an operation, a node that started as a follower
acknowledges a message of a master truly exactly when it is no `FalseAck`. -/
theorem follower_acks_iff (selfIp : Ip) (otherIp : List Ip) {msgs : List (ReplicateMsg Ip)}
    (hop : ∀ m ∈ msgs, CarriesOp m.mean m.entry) {m : ReplicateMsg Ip} (hm : m.FromLog) :
    let mw := (init selfIp otherIp).receives msgs
    TrueAck (mw.receive m).1 m (mw.receive m).2 ↔ ¬ mw.FalseAck m :=
  trueAck_iff ((isFollower_init selfIp otherIp).receives hop) hm

/-- A message of node `1` with a `create` of `key` at the index `ind`. -/
def creates (mean : Mean) (term : Nat) (key : String) (ind : Nat) : ReplicateMsg (Fin 3) :=
  ⟨1, mean, term, ⟨.create, key, "x", "", term, ind, ind - 1, 0⟩⟩

/-- Behind a committed entry the next one is acknowledged truly. -/
theorem follower_acks_next :
    TrueAck (((init (0 : Fin 3) [1, 2]).receives [creates .logcommit 1 "a" 0]).receive
        (creates .logappend 1 "b" 1)).1 (creates .logappend 1 "b" 1)
      (((init (0 : Fin 3) [1, 2]).receives [creates .logcommit 1 "a" 0]).receive
        (creates .logappend 1 "b" 1)).2 := by
  refine (follower_acks_iff 0 [1, 2] ?_ ⟨.inl rfl, by decide, rfl⟩).2 ?_
  · intro m hmem
    obtain rfl := List.mem_singleton.1 hmem
    exact fun _ => by decide
  · rintro ⟨-, -, hrival⟩
    exact hrival.2.1 ⟨by decide, by decide⟩

/-- An entry of an old master waits at index `0`. The one of the next master does not displace it,
and its commit commits the old one. -/
theorem rival_acknowledged :
    let mw := (init (0 : Fin 3) [1, 2]).receives [creates .logappend 1 "a" 0]
    ¬ TrueAck (mw.receive (creates .logcommit 2 "b" 0)).1 (creates .logcommit 2 "b" 0)
      (mw.receive (creates .logcommit 2 "b" 0)).2 := by
  intro mw hack
  have hhas := (hack 1 true (by decide)).2 rfl rfl
  exact absurd hhas (by decide)

end MiddleWare

end TiPI.DB
