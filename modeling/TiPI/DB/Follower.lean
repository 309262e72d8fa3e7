import TiPI.DB.Ballots
import TiPI.DB.LogSteps

/-!
# The store of a follower

A node that never becomes `MASTER` changes its store in `HandleReplicate` only. Whatever the
messages are, the store is the replay of the log file, and one entry at most waits for its commit.
A `logcommit` that commits nothing applies the last entry once more, which changes nothing.
-/

namespace TiPI.DB

variable {Ip : Type}

namespace Kvs

lemma write_write (kvs : Kvs) (key value : String) :
    (kvs.write key value).write key value = kvs.write key value :=
  Function.update_idem _ _ _

/-- Applying an entry a second time changes nothing. -/
lemma apply_apply (kvs : Kvs) (e : RaftLogEntry) : (kvs.apply e).apply e = kvs.apply e := by
  unfold apply
  cases e.op with
  | create => exact write_write kvs e.operand e.value1
  | update => exact write_write kvs e.operand e.value1
  | delete =>
    cases hk : kvs e.operand with
    | none => simp [delete, hk]
    | some value => simp [delete, hk]
  | read => rfl
  | CAS => rfl
  | none => rfl
  | other name => rfl

lemma replay_concat (kvs : Kvs) (es : List RaftLogEntry) (e : RaftLogEntry) :
    kvs.replay (es ++ [e]) = (kvs.replay es).apply e := by
  rw [replay_append]
  rfl

end Kvs

namespace Logger

/-- The store is the replay of the file, and one entry at most is pending. -/
structure Replayed (l : Logger) (kvs : Kvs) : Prop where
  last : l.lastEntry = l.file.getLast?.getD .zero
  store : kvs = Kvs.empty.replay l.file
  pending : l.toCommit.length ≤ 1

variable {l : Logger} {kvs : Kvs}

lemma replayed_fresh : fresh.Replayed .empty := by
  constructor <;> simp [fresh]

lemma Replayed.flushUncommited (h : l.Replayed kvs) : l.flushUncommited.Replayed kvs where
  last := h.last
  store := h.store
  pending := by simp

/-- A follower drops a pending entry before it takes the next one. -/
lemma Replayed.append (h : l.Replayed kvs) (e : RaftLogEntry) :
    (l.flushUncommited.logOp e).Replayed kvs where
  last := by simpa using h.last
  store := by simpa using h.store
  pending := by simp [logOp]

/-- The last entry is in the store already. -/
lemma Replayed.apply_last (h : l.Replayed kvs) : kvs.apply l.lastOp = kvs := by
  rw [lastOp, h.last, h.store]
  rcases List.eq_nil_or_concat l.file with hnil | ⟨es, e, hes⟩
  · simp [hnil, Kvs.apply, RaftLogEntry.zero]
  · rw [hes, List.concat_eq_append, Kvs.replay_concat]
    simpa using Kvs.apply_apply _ e

lemma Replayed.commit (h : l.Replayed kvs) :
    l.logCommit.Replayed (kvs.apply l.logCommit.lastOp) := by
  cases hp : l.toCommit with
  | nil =>
    have hsame : l.logCommit = l := by simp [logCommit, hp]
    rw [hsame, h.apply_last]
    exact h
  | cons m rest =>
    have hnext : l.logCommit = ⟨l.file ++ [m], m, rest⟩ := by simp [logCommit, hp]
    have hrest := h.pending
    rw [hp, List.length_cons] at hrest
    rw [hnext]
    refine ⟨by simp, ?_, by dsimp only; omega⟩
    rw [Kvs.replay_concat, ← h.store]
    rfl

end Logger

namespace MiddleWare

lemma replicateSlave_replayed {mw : MiddleWare Ip} (h : mw.raftLog.Replayed mw.kvs)
    (mean : Mean) (e : RaftLogEntry) :
    (mw.replicateSlave mean e).1.raftLog.Replayed (mw.replicateSlave mean e).1.kvs := by
  have happ : (mw.replicateAppend e).raftLog.Replayed (mw.replicateAppend e).kvs := by
    rw [replicateAppend_eq]
    split
    · exact h.append e
    · exact h
  cases mean with
  | logappend => exact happ
  | logcommit =>
    simp only [replicateSlave]
    cases hc : (mw.replicateAppend e).replicateCommit e with
    | none => exact happ.flushUncommited
    | some mw' =>
      simp only [replicateCommit, Option.ite_none_left_eq_some, Option.some.injEq] at hc
      obtain ⟨-, rfl⟩ := hc
      exact happ.commit
  | heartbeat => exact h
  | other name => exact h

lemma handleReplicate_replayed {mw : MiddleWare Ip} (h : mw.raftLog.Replayed mw.kvs) (ip : Ip)
    (mean : Mean) (t : Nat) (e : RaftLogEntry) :
    (mw.handleReplicate ip mean t e).1.raftLog.Replayed (mw.handleReplicate ip mean t e).1.kvs := by
  unfold handleReplicate
  cases mw.state with
  | MASTER =>
    dsimp only
    split <;> exact h
  | CONDIDATE =>
    dsimp only
    split <;> exact h
  | SLAVE =>
    dsimp only
    rw [raiseTerm_frame]
    split
    · exact h
    · have hraised : ({ mw with term := max mw.term t } : MiddleWare Ip).raftLog.Replayed mw.kvs :=
        h
      exact replicateSlave_replayed hraised mean e

/-- No call of `HandleKvs` is in progress. -/
structure Idle (mw : MiddleWare Ip) : Prop where
  arrived : mw.arrived = []
  waiting : mw.waiting = []

lemma kvsArrive_ne_lock {mw : MiddleWare Ip} (hs : mw.state ≠ .MASTER) (r : Request) (rand : Nat)
    (w : WriteRequest) : mw.kvsArrive r rand ≠ .lock w := by
  unfold kvsArrive
  split
  · simp
  · next hget =>
    have hmethod : r.method = .GET := by
      by_contra hne
      exact hget ⟨hs, hne⟩
    simp only [hmethod, kvsGet]
    split
    · split <;> simp
    · split <;> simp
    · split <;> simp

lemma request_idle {mw : MiddleWare Ip} (h : mw.Idle) (hs : mw.state ≠ .MASTER)
    (method : Method) (key value : String) (rand : Nat) :
    (mw.request method key value rand).mw.Idle := by
  unfold request
  dsimp only
  split
  · exact ⟨h.arrived, h.waiting⟩
  · next harrive => exact absurd harrive (kvsArrive_ne_lock hs _ _ _)
  · exact ⟨h.arrived, h.waiting⟩

lemma collected_idle {mw : MiddleWare Ip} (h : mw.Idle) (s : Session) : (mw.collected s).Idle := by
  unfold collected
  dsimp only
  split
  · exact ⟨h.arrived, by simp [broadcast, dropSession, h.waiting]⟩
  · exact ⟨h.arrived, h.waiting⟩

/-- The store of a follower and the calls on it. -/
structure Follows (mw : MiddleWare Ip) : Prop where
  idle : mw.Idle
  replayed : mw.raftLog.Replayed mw.kvs

lemma follows_init (selfIp : Ip) (otherIp : List Ip) : (init selfIp otherIp).Follows :=
  ⟨⟨rfl, rfl⟩, Logger.replayed_fresh⟩

lemma Follows.act [DecidableEq Ip] {mw : MiddleWare Ip} {na : NodeAct Ip} {e : Effect Ip}
    (h : mw.Follows) (hs : mw.state ≠ .MASTER) (hact : mw.act na = some e) : e.mw.Follows := by
  cases act_cases hact with
  | request method key value rand =>
    obtain ⟨arrived, hmw⟩ := request_frame mw method key value rand
    refine ⟨request_idle h.idle hs method key value rand, ?_⟩
    rw [hmw]
    exact h.replayed
  | kvsBegin r arrived => simp [h.idle.arrived] at arrived
  | kvsWake hd waiting => simp [h.idle.waiting] at waiting
  | loopMaster _ state => exact absurd state hs
  | loopCondidate => exact ⟨⟨h.idle.arrived, h.idle.waiting⟩, h.replayed.flushUncommited⟩
  | loopSlave | consumerTimer | consumerDone | electionStart | electionStop | electionWin
  | beat | resign | producerDone | sessionLost | late =>
    exact ⟨⟨h.idle.arrived, h.idle.waiting⟩, h.replayed⟩
  | sessionSend s =>
    dsimp only
    split
    · exact ⟨⟨h.idle.arrived, h.idle.waiting⟩, h.replayed⟩
    · exact ⟨⟨h.idle.arrived, h.idle.waiting⟩, h.replayed.flushUncommited⟩
  | sessionDone s | sessionKept s =>
    refine ⟨collected_idle h.idle s, ?_⟩
    obtain ⟨sessions, waiting, hmw⟩ := collected_frame mw s
    rw [hmw]
    exact h.replayed
  | replicate src session mean t entry =>
    refine ⟨?_, handleReplicate_replayed h.replayed src mean t entry⟩
    obtain ⟨_, _, _, _, _, _, _, hmw⟩ := handleReplicate_frame mw src mean t entry
    rw [hmw]
    exact ⟨h.idle.arrived, h.idle.waiting⟩
  | response src a s =>
    obtain ⟨sentLen, commitLen, hmw⟩ := collect_frame mw s (sendReplicate src a)
    rw [hmw]
    exact ⟨⟨h.idle.arrived, h.idle.waiting⟩, h.replayed⟩
  | vote src c =>
    simp only [handleVoteRequest]
    split <;> exact ⟨⟨h.idle.arrived, h.idle.waiting⟩, h.replayed⟩
  | voteRsp src t a =>
    obtain ⟨routine, hmw⟩ := electionRsp_frame mw src t a
    rw [hmw]
    exact ⟨⟨h.idle.arrived, h.idle.waiting⟩, h.replayed⟩

end MiddleWare

namespace Solo

variable [DecidableEq Ip]

omit [DecidableEq Ip] in
/-- The node is not `MASTER`. -/
def NotMaster (s : Solo Ip) (_ : NodeAct Ip) : Prop := s.mw.state ≠ .MASTER

instance (s : Solo Ip) (na : NodeAct Ip) : Decidable (s.NotMaster na) :=
  inferInstanceAs (Decidable (_ ≠ _))

/-- Whatever a node that never is `MASTER` receives, its store is the replay of its log file, and
one uncommitted entry at most is pending. -/
theorem follower_store (selfIp : Ip) (otherIp : List Ip) {s : Solo Ip}
    (h : Run step NotMaster (start (.init selfIp otherIp)) s) :
    s.mw.kvs = Kvs.empty.replay s.mw.raftLog.file ∧ s.mw.raftLog.toCommit.length ≤ 1 := by
  have hfollows : s.mw.Follows := by
    refine Run.invariant (P := fun s => s.mw.Follows) h (MiddleWare.follows_init _ _) ?_
    intro s na s' hs hok hstep
    obtain ⟨e, hact, rfl⟩ := step_inv hstep
    exact hs.act hok hact
  exact ⟨hfollows.replayed.store, hfollows.replayed.pending⟩

/-- A replication message of node `1` in term `1` with a `create` of `key`. -/
def replicates (mean : Mean) (key : String) (ind : Nat) : NodeAct (Fin 3) :=
  .recv 1 (.replicate 0 mean 1 ⟨.create, key, "x", "", 1, ind, ind - 1, 1⟩)

/-- An appended entry is displaced by a rival, whose `logcommit` arrives twice; one more entry
stays pending. -/
def rivalry : List (NodeAct (Fin 3)) :=
  [replicates .logcommit "a" 0, replicates .logappend "c" 1, replicates .logcommit "b" 1,
    replicates .logcommit "b" 1, replicates .logappend "d" 2]

theorem follower_store_three : ∃ s : Solo (Fin 3),
    Run step NotMaster (start (.init 0 [1, 2])) s ∧ s.mw.kvs "b" = some "x" ∧
    s.mw.raftLog.toCommit.length = 1 ∧ s.mw.kvs = Kvs.empty.replay s.mw.raftLog.file := by
  obtain ⟨s, hrun, hb, hpending⟩ : ∃ s, Run step NotMaster (start (.init 0 [1, 2])) s ∧
      (s.mw.kvs "b" = some "x" ∧ s.mw.raftLog.toCommit.length = 1) :=
    exists_of_exec rivalry (by decide)
  exact ⟨s, hrun, hb, hpending, (follower_store 0 [1, 2] hrun).1⟩

end Solo

end TiPI.DB
