import TiPI.DB.Frame

/-!
# What the actions of a node do to its log

`act_log` names every way an action can change the Raft log of a node. The guards of the log
properties are conditions on the moment at which a call leaves its wait loop (`leaving`) and on
the commit of an entry that was waiting in a follower (`commitsWaiting`).
-/

namespace TiPI.DB

variable {Ip : Type}

namespace MiddleWare

/-! ### Leaving the wait loop -/

/-- The condition of the wait loop of `HandleKvs` is false. -/
def quorumReached (mw : MiddleWare Ip) (h : Handler) : Bool :=
  (minSentLenQuorum mw.sentLens).any fun len => h.requiredLen ≤ len

/-- The call that leaves its wait loop in an action, and the node at that moment. -/
def leaving (mw : MiddleWare Ip) : NodeAct Ip → Option (MiddleWare Ip × Handler)
  | .kvsBegin r =>
    let mw := { mw with arrived := mw.arrived.erase r }
    if (mw.kvsCheck r).isNone ∧ (mw.kvsLog r).1.quorumReached (mw.kvsLog r).2 then
      some (mw.kvsLog r)
    else none
  | .kvsWake h =>
    let mw := { mw with waiting := mw.waiting.erase h }
    if mw.quorumReached h then some (mw, h) else none
  | _ => none

/-- The entry a call hands to `LogOp` in an action. -/
def logging (mw : MiddleWare Ip) : NodeAct Ip → Option RaftLogEntry
  | .kvsBegin r => if (mw.kvsCheck r).isNone then some (mw.kvsEntry r) else none
  | _ => none

/-- The deletion of a call that has left its wait loop fails: the key is gone by then. -/
def deleteFails (mw : MiddleWare Ip) (h : Handler) : Bool :=
  h.req.method = .DELETE && (mw.kvs.read h.req.key).isNone

/-- The entry that the `LogCommit` of a call takes from `to_commit`. -/
def committing (mw : MiddleWare Ip) (na : NodeAct Ip) : Option RaftLogEntry :=
  (mw.leaving na).bind fun p =>
    if p.1.deleteFails p.2 then none else p.1.raftLog.toCommit.head?

/-- A `logcommit` that appends nothing and commits an entry that was waiting: the entry of the
message, and the one that was waiting. -/
def commitsWaiting (mw : MiddleWare Ip) : NodeAct Ip → Option (RaftLogEntry × RaftLogEntry)
  | .recv _ (.replicate _ .logcommit term e) =>
    if mw.state = .SLAVE ∧ mw.term ≤ term ∧ !mw.takesEntry e ∧
        Logger.pred mw.raftLog.lenUncommited = e.ind then
      mw.raftLog.toCommit.head?.map fun w => (e, w)
    else none
  | _ => none

/-- The entry `HandleReplicate` hands to `LogOp` in an action. -/
def appends (mw : MiddleWare Ip) : NodeAct Ip → Option RaftLogEntry
  | .recv _ (.replicate _ mean t e) =>
    if mw.state = .SLAVE ∧ mw.term ≤ t ∧ (mean = .logappend ∨ mean = .logcommit) ∧
        mw.takesEntry e then
      some e
    else none
  | _ => none

/-- An action ends in `Fatalf`. -/
def fails (mw : MiddleWare Ip) : NodeAct Ip → Bool
  | .sessionSend id => (mw.sessionSend id).any fun p => !p.1.running
  | .recv _ (.replicate _ .logcommit t e) =>
    mw.state = .SLAVE ∧ mw.term ≤ t ∧ !mw.takesEntry e ∧
      Logger.pred mw.raftLog.lenUncommited ≠ e.ind
  | _ => false

/-- A call that has left its wait loop fails to delete and leaves the node as it is, or it commits
and succeeds. -/
lemma kvsCommit_cases (mw : MiddleWare Ip) (h : Handler) :
    (mw.deleteFails h = true ∧ (mw.kvsCommit h.req).1 = mw ∧ (mw.kvsCommit h.req).2.status = 500) ∨
      (mw.deleteFails h = false ∧ (mw.kvsCommit h.req).1.raftLog = mw.raftLog.logCommit ∧
        ((mw.kvsCommit h.req).2.status = 200 ∨ (mw.kvsCommit h.req).2.status = 201)) := by
  unfold kvsCommit deleteFails Kvs.read Kvs.delete
  cases h.req.method with
  | POST => exact .inr ⟨rfl, rfl, .inr rfl⟩
  | PATCH => exact .inr ⟨rfl, rfl, .inl rfl⟩
  | DELETE =>
    cases mw.kvs h.req.key with
    | none => exact .inl ⟨rfl, rfl, rfl⟩
    | some value => exact .inr ⟨rfl, rfl, .inl rfl⟩

lemma kvsCommit_log (mw : MiddleWare Ip) (h : Handler) :
    (mw.kvsCommit h.req).1.raftLog =
      if mw.deleteFails h then mw.raftLog else mw.raftLog.logCommit := by
  rcases mw.kvsCommit_cases h with ⟨hd, hmw, -⟩ | ⟨hd, hlog, -⟩
  · rw [hmw, hd]
    rfl
  · rw [hlog, hd]
    rfl

lemma kvsLoop_left {mw : MiddleWare Ip} {h : Handler} (hq : mw.quorumReached h = true) :
    mw.kvsLoop h = ((mw.kvsCommit h.req).1, .done h (mw.kvsCommit h.req).2) := by
  unfold quorumReached at hq
  unfold kvsLoop
  cases hm : minSentLenQuorum mw.sentLens with
  | none => simp [hm] at hq
  | some len =>
    rw [hm, Option.any_some, decide_eq_true_eq] at hq
    simp [not_lt.mpr hq]

/-- A call that does not leave its loop changes nothing but the lock and the waiters. -/
lemma kvsLoop_stays {mw : MiddleWare Ip} {h : Handler} (hq : mw.quorumReached h = false) :
    (mw.kvsLoop h).1.raftLog = mw.raftLog ∧ (mw.kvsLoop h).1.kvs = mw.kvs ∧
      ∀ id, (mw.kvsLoop h).2.events id = [] := by
  unfold quorumReached at hq
  unfold kvsLoop
  cases hm : minSentLenQuorum mw.sentLens with
  | none => exact ⟨rfl, rfl, fun _ => rfl⟩
  | some len =>
    rw [hm, Option.any_some, decide_eq_false_iff_not, not_le] at hq
    simp only [hq, if_true]
    exact ⟨trivial, trivial, fun _ => rfl⟩

end MiddleWare

/-! ### The cases -/

/-- The log of a follower after a replication message. -/
inductive ReplicateCase (takes : Bool) (l : Logger) (mean : Mean) (e : RaftLogEntry)
    (l' : Logger) : Prop
  | keep (log : l' = l)
  | append (mean : mean = .logappend) (takes : takes = true)
      (log : l' = l.flushUncommited.logOp e)
  | commit (mean : mean = .logcommit) (takes : takes = true)
      (ind : Logger.pred (l.flushUncommited.logOp e).lenUncommited = e.ind)
      (log : l' = (l.flushUncommited.logOp e).logCommit)
  | commitWaiting (mean : mean = .logcommit) (takes : takes = false)
      (ind : Logger.pred l.lenUncommited = e.ind) (log : l' = l.logCommit)
  | exit (mean : mean = .logcommit)
      (ind : Logger.pred (if takes then l.flushUncommited.logOp e else l).lenUncommited ≠ e.ind)
      (log : l' = l.flushUncommited)

namespace MiddleWare

inductive LogCase (mw : MiddleWare Ip) (na : NodeAct Ip) (e : Effect Ip) : Prop
  | same (left : mw.leaving na = none) (log : e.mw.raftLog = mw.raftLog)
  | role (hna : na = .mainLoop) (state : mw.state ≠ .SLAVE)
      (log : e.mw.raftLog = mw.raftLog.flushUncommited)
  | fatal (id : Nat) (hna : na = .sessionSend id) (fails : mw.fails na)
      (log : e.mw.raftLog = mw.raftLog.flushUncommited)
  | logged (x : RaftLogEntry) (logging : mw.logging na = some x) (left : mw.leaving na = none)
      (log : e.mw.raftLog = mw.raftLog.logOp x)
  | left (m : MiddleWare Ip) (h : Handler) (left : mw.leaving na = some (m, h))
      (log : e.mw.raftLog = if m.deleteFails h then m.raftLog else m.raftLog.logCommit)
  | replicate (src : Ip) (session : Nat) (mean : Mean) (t : Nat) (logEntry : RaftLogEntry)
      (hna : na = .recv src (.replicate session mean t logEntry)) (state : mw.state = .SLAVE)
      (term : mw.term ≤ t)
      (case : ReplicateCase (mw.takesEntry logEntry) mw.raftLog mean logEntry e.mw.raftLog)

lemma replicateAppend_eq (mw : MiddleWare Ip) (e : RaftLogEntry) :
    mw.replicateAppend e =
      if mw.takesEntry e then { mw with raftLog := mw.raftLog.flushUncommited.logOp e }
      else mw := by
  have hdrop : (if mw.raftLog.lenUncommited > mw.raftLog.lenCommited then
      mw.raftLog.flushUncommited else mw.raftLog) = mw.raftLog.flushUncommited := by
    split
    · rfl
    · next h =>
      have hnil : mw.raftLog.toCommit = [] := by
        rw [Logger.lenUncommited] at h
        exact List.eq_nil_of_length_eq_zero (by omega)
      rw [Logger.flushUncommited, ← hnil]
  simp only [replicateAppend, hdrop]

lemma replicateSlave_log (mw : MiddleWare Ip) (mean : Mean) (e : RaftLogEntry) :
    ReplicateCase (mw.takesEntry e) mw.raftLog mean e (mw.replicateSlave mean e).1.raftLog := by
  cases mean with
  | logappend =>
    simp only [replicateSlave, replicateAppend_eq]
    cases ht : mw.takesEntry e with
    | true => exact .append rfl rfl rfl
    | false => exact .keep rfl
  | logcommit =>
    simp only [replicateSlave, replicateAppend_eq, replicateCommit]
    cases ht : mw.takesEntry e with
    | true =>
      simp only [if_true]
      split
      · next h =>
        split at h
        · next hne => exact .exit rfl hne (by simp [exit, Logger.flushUncommited, Logger.logOp])
        · simp at h
      · next h =>
        split at h
        · simp at h
        · next heq =>
          obtain rfl := Option.some.inj h
          exact .commit rfl rfl (not_not.mp heq) rfl
    | false =>
      simp only [Bool.false_eq_true, if_false]
      split
      · next h =>
        split at h
        · next hne => exact .exit rfl hne rfl
        · simp at h
      · next h =>
        split at h
        · simp at h
        · next heq =>
          obtain rfl := Option.some.inj h
          exact .commitWaiting rfl rfl (not_not.mp heq) rfl
  | heartbeat => exact .keep rfl
  | other name => exact .keep rfl

@[simp] lemma raiseTerm_raftLog (mw : MiddleWare Ip) (t : Nat) :
    (mw.raiseTerm t).raftLog = mw.raftLog := by rw [raiseTerm_frame]

@[simp] lemma raiseTerm_takesEntry (mw : MiddleWare Ip) (t : Nat) (e : RaftLogEntry) :
    (mw.raiseTerm t).takesEntry e = mw.takesEntry e := by simp [takesEntry]

@[simp] lemma coDone_raftLog (mw : MiddleWare Ip) : mw.coDone.raftLog = mw.raftLog := rfl

lemma handleReplicate_log (mw : MiddleWare Ip) (ip : Ip) (mean : Mean) (t : Nat)
    (e : RaftLogEntry) :
    (mw.handleReplicate ip mean t e).1.raftLog = mw.raftLog ∨
      (mw.state = .SLAVE ∧ mw.term ≤ t ∧
        ReplicateCase (mw.takesEntry e) mw.raftLog mean e
          (mw.handleReplicate ip mean t e).1.raftLog) := by
  unfold handleReplicate
  split
  · left
    split <;> rfl
  · left
    split <;> rfl
  · next hs =>
    dsimp only
    split
    · exact Or.inl (raiseTerm_raftLog mw t)
    · next hle =>
      right
      rw [raiseTerm_frame] at hle
      refine ⟨hs, by simp only at hle; omega, ?_⟩
      have hcase := replicateSlave_log (mw.raiseTerm t) mean e
      rwa [raiseTerm_takesEntry, raiseTerm_raftLog] at hcase

lemma kvsBegin_log {mw : MiddleWare Ip} (r : WriteRequest) (evs : List (Event Ip)) :
    LogCase mw (.kvsBegin r) { mw := (mw.kvsBegin r).1, events := evs } := by
  simp only [kvsBegin]
  cases hc : { mw with arrived := mw.arrived.erase r }.kvsCheck r with
  | some resp => exact .same (by simp [leaving, hc]) rfl
  | none =>
    cases hq : ({ mw with arrived := mw.arrived.erase r }.kvsLog r).1.quorumReached
        ({ mw with arrived := mw.arrived.erase r }.kvsLog r).2 with
    | true =>
      refine .left _ _ (by simp only [leaving, hc, hq]; rfl) ?_
      dsimp only
      rw [kvsLoop_left hq]
      exact kvsCommit_log _ _
    | false =>
      have hc' : mw.kvsCheck r = none := hc
      refine .logged (mw.kvsEntry r) (by simp [logging, hc']) (by simp [leaving, hc, hq]) ?_
      dsimp only
      rw [(kvsLoop_stays hq).1]
      rfl

lemma kvsWake_log {mw : MiddleWare Ip} (h : Handler) (evs : List (Event Ip)) :
    LogCase mw (.kvsWake h) { mw := (mw.kvsWake h).1, events := evs } := by
  simp only [kvsWake]
  cases hq : { mw with waiting := mw.waiting.erase h }.quorumReached h with
  | true =>
    refine .left _ h (by simp only [leaving, hq]; rfl) ?_
    rw [kvsLoop_left hq]
    exact kvsCommit_log _ _
  | false =>
    refine .same (by simp [leaving, hq]) ?_
    rw [(kvsLoop_stays hq).1]

/-! ### Consequences -/

lemma kvsEntry_op (mw : MiddleWare Ip) (r : WriteRequest) : (mw.kvsEntry r).op ≠ .none := by
  unfold kvsEntry
  split <;> simp

lemma logging_op {mw : MiddleWare Ip} {na : NodeAct Ip} {x : RaftLogEntry}
    (h : mw.logging na = some x) : x.op ≠ .none := by
  unfold logging at h
  split at h
  · next r =>
    split at h
    · obtain rfl := Option.some.inj h
      exact kvsEntry_op mw r
    · simp at h
  · simp at h

/-- The log at the moment a call leaves its loop: the call may just have logged its entry. -/
lemma leaving_raftLog {mw m : MiddleWare Ip} {na : NodeAct Ip} {h : Handler}
    (hl : mw.leaving na = some (m, h)) :
    m.raftLog = mw.raftLog ∨
      ∃ x, mw.logging na = some x ∧ m.raftLog = mw.raftLog.logOp x := by
  unfold leaving at hl
  split at hl
  · next r =>
    dsimp only at hl
    split at hl
    · next hc =>
      simp only [Option.some.injEq, kvsLog, Prod.mk.injEq] at hl
      have hc' : (mw.kvsCheck r).isNone := hc.1
      exact Or.inr ⟨mw.kvsEntry r, by simp [logging, hc'], by rw [← hl.1]; rfl⟩
    · simp at hl
  · dsimp only at hl
    split at hl
    · simp only [Option.some.injEq, Prod.mk.injEq] at hl
      exact Or.inl (by rw [← hl.1])
    · simp at hl
  · simp at hl

section

variable {mw : MiddleWare Ip} {na : NodeAct Ip} {e : Effect Ip}

lemma leaving_chained {m : MiddleWare Ip} {h : Handler} (hc : mw.raftLog.Chained)
    (hl : mw.leaving na = some (m, h)) : m.raftLog.Chained := by
  rcases leaving_raftLog hl with hlog | ⟨x, hx, hlog⟩
  · rwa [hlog]
  · rw [hlog]
    exact hc.logOp (logging_op hx)

lemma leaving_file {m : MiddleWare Ip} {h : Handler} (hl : mw.leaving na = some (m, h)) :
    m.raftLog.file = mw.raftLog.file := by
  rcases leaving_raftLog hl with hlog | ⟨x, -, hlog⟩
  · rw [hlog]
  · rw [hlog, Logger.logOp_file]

/-- Messages that append carry an entry with an operation. -/
def CarriesOp (mean : Mean) (entry : RaftLogEntry) : Prop :=
  mean = .logappend ∨ mean = .logcommit → entry.op ≠ .none

lemma replicateCase_chained {takes : Bool} {l l' : Logger} {mean : Mean} {entry : RaftLogEntry}
    (h : ReplicateCase takes l mean entry l') (hc : l.Chained) (hop : CarriesOp mean entry) :
    l'.Chained := by
  cases h with
  | keep log => rwa [log]
  | append hmean _ log => exact log ▸ hc.flushUncommited.logOp (hop (Or.inl hmean))
  | commit hmean _ _ log => exact log ▸ (hc.flushUncommited.logOp (hop (Or.inr hmean))).logCommit
  | commitWaiting _ _ _ log => exact log ▸ hc.logCommit
  | exit _ _ log => exact log ▸ hc.flushUncommited

lemma LogCase.chained (h : LogCase mw na e) (hc : mw.raftLog.Chained)
    (hop : ∀ src session mean t entry,
      na = .recv src (.replicate session mean t entry) → CarriesOp mean entry) :
    e.mw.raftLog.Chained := by
  cases h with
  | same _ log => rwa [log]
  | role _ _ log => exact log ▸ hc.flushUncommited
  | fatal _ _ _ log => exact log ▸ hc.flushUncommited
  | logged x hx _ log => exact log ▸ hc.logOp (logging_op hx)
  | left m hd left log =>
    have hm := leaving_chained hc left
    rw [log]
    split
    · exact hm
    · exact hm.logCommit
  | replicate src session mean t entry hna _ _ case =>
    exact replicateCase_chained case hc (hop src session mean t entry hna)

/-- A `logcommit` message appends its entry behind the committed ones and commits it. -/
def CommitsOwn (mw : MiddleWare Ip) (na : NodeAct Ip) (x : RaftLogEntry) : Prop :=
  ∃ src session t entry, na = .recv src (.replicate session .logcommit t entry) ∧
    x.payload = entry.payload ∧ entry.ind = mw.raftLog.file.length

/-- The file of a node only grows, by one entry at a time. -/
lemma LogCase.file (h : LogCase mw na e) (hc : mw.raftLog.Chained)
    (hop : ∀ src session mean t entry,
      na = .recv src (.replicate session mean t entry) → CarriesOp mean entry) :
    e.mw.raftLog.file = mw.raftLog.file ∨
      ∃ x, e.mw.raftLog.file = mw.raftLog.file ++ [x] ∧
        (mw.committing na = some x ∨ mw.CommitsOwn na x ∨
          ∃ src session t entry, na = .recv src (.replicate session .logcommit t entry) ∧
            mw.commitsWaiting na = some (entry, x)) := by
  cases h with
  | same _ log => exact Or.inl (by rw [log])
  | role _ _ log => exact Or.inl (by rw [log]; rfl)
  | fatal _ _ _ log => exact Or.inl (by rw [log]; rfl)
  | logged x _ _ log => exact Or.inl (by rw [log, Logger.logOp_file])
  | left m hd left log =>
    rw [log, ← leaving_file left]
    split
    · exact Or.inl rfl
    · next hdel =>
      cases htc : m.raftLog.toCommit with
      | nil => exact Or.inl (by simp [Logger.logCommit, htc])
      | cons x rest =>
        refine Or.inr ⟨x, by simp [Logger.logCommit, htc], Or.inl ?_⟩
        simp [committing, left, hdel, htc]
  | replicate src session mean t entry hna hs ht case =>
    have hentry := hop src session mean t entry hna
    cases case with
    | keep log => exact Or.inl (by rw [log])
    | append _ _ log => exact Or.inl (by rw [log, Logger.logOp_file]; rfl)
    | commit hmean _ ind log =>
      subst hmean
      have hfl := hc.flushUncommited
      have hlog := Logger.logOp_eq hfl entry
      refine Or.inr ⟨entry.stamp mw.raftLog.file, ?_, Or.inr (Or.inl
        ⟨src, session, t, entry, hna, rfl, ?_⟩)⟩
      · rw [log, hlog, Logger.flushUncommited_log]
        rfl
      · rw [Logger.lenUncommited_eq (hfl.logOp (hentry (Or.inr rfl))), Logger.logOp_log hfl,
          Logger.flushUncommited_log, List.length_append] at ind
        exact ind.symm
    | commitWaiting hmean htakes ind log =>
      subst hmean
      cases htc : mw.raftLog.toCommit with
      | nil => exact Or.inl (by simp [log, Logger.logCommit, htc])
      | cons x rest =>
        refine Or.inr ⟨x, by simp [log, Logger.logCommit, htc],
          Or.inr (Or.inr ⟨src, session, t, entry, hna, ?_⟩)⟩
        simp [hna, commitsWaiting, hs, ht, htakes, ind, htc]
    | exit _ _ log => exact Or.inl (by rw [log]; rfl)

end

/-- The entry of a message is the one its sender has at that index. -/
lemma sessionMsg_entry {mw : MiddleWare Ip} (hc : mw.raftLog.Chained) {nr : Nat} {peer : Ip}
    {mean : Mean} {entry : RaftLogEntry} (h : mw.sessionMsg nr peer = some (mean, entry)) :
    (mean = .logcommit ∧ mw.raftLog.file[entry.ind]? = some entry) ∨
    (mean = .logappend ∧ mw.raftLog.log[entry.ind]? = some entry) ∨ mean = .heartbeat := by
  have hops : ∀ k : Nat, (mw.raftLog.ops 0)[k]? = some entry →
      mw.raftLog.file[entry.ind]? = some entry := by
    intro k hk
    rw [Logger.ops, if_neg (Nat.not_lt_zero _)] at hk
    have hfile := getElem?_mono (List.takeWhile_prefix _) hk
    rwa [hc.ind (Logger.log_of_file hfile)]
  simp only [sessionMsg] at h
  split at h
  · split at h
    · simp at h
    · simp only [Option.map_eq_some_iff, Prod.mk.injEq] at h
      obtain ⟨log, hk, rfl, rfl⟩ := h
      exact Or.inl ⟨rfl, hops _ hk⟩
  · split at h
    · simp only [Option.map_eq_some_iff, Prod.mk.injEq] at h
      obtain ⟨log, hk, rfl, rfl⟩ := h
      exact Or.inl ⟨rfl, hops _ hk⟩
    · split at h
      · simp only [Option.map_eq_some_iff, Prod.mk.injEq] at h
        obtain ⟨log, hk, rfl, rfl⟩ := h
        have hget : mw.raftLog.log[mw.raftLog.file.length +
            ((mw.sentLen peer).getD 0 - mw.raftLog.lenCommited)]? = some log := by
          rw [Logger.log, List.getElem?_append_right (by omega), Nat.add_sub_cancel_left]
          exact hk
        exact Or.inr (Or.inl ⟨rfl, by rwa [hc.ind hget]⟩)
      · simp only [Option.some.injEq, Prod.mk.injEq] at h
        exact Or.inr (Or.inr h.1.symm)

/-! ### Every action -/

variable [DecidableEq Ip]

lemma act_log {mw : MiddleWare Ip} {na : NodeAct Ip} {e : Effect Ip}
    (h : mw.act na = some e) : LogCase mw na e := by
  cases act_cases h with
  | request method key value rand =>
    obtain ⟨arrived, hmw⟩ := request_frame mw method key value rand
    exact .same rfl (by rw [hmw])
  | kvsBegin r => exact kvsBegin_log r _
  | kvsWake hd => exact kvsWake_log hd _
  | loopMaster _ state => exact .role rfl (by simp [state]) rfl
  | loopCondidate _ state => exact .role rfl (by simp [state]) rfl
  | loopSlave | consumerTimer | consumerDone | electionStart | electionStop | electionWin | beat
  | resign | producerDone | sessionLost | late => exact .same rfl rfl
  | sessionSend s found unsent unlocked =>
    cases halive : (mw.sessionMsgs s mw.otherIp).2 with
    | true => exact .same rfl (by simp [setSession])
    | false =>
      refine .fatal s.id rfl ?_ (by simp [exit])
      simp [fails, sessionSend, found, unsent, unlocked, halive, exit]
  | sessionDone s | sessionKept s =>
    obtain ⟨sessions, waiting, hmw⟩ := collected_frame mw s
    exact .same rfl (by rw [hmw])
  | replicate src session mean t entry =>
    rcases handleReplicate_log mw src mean t entry with hlog | ⟨hs, ht, hcase⟩
    · exact .same rfl hlog
    · exact .replicate src session mean t entry rfl hs ht hcase
  | response src a s =>
    obtain ⟨sentLen, commitLen, hmw⟩ := collect_frame mw s (sendReplicate src a)
    exact .same rfl (by rw [hmw]; rfl)
  | vote src c =>
    obtain ⟨_, _, _, _, _, hmw⟩ := handleVoteRequest_frame mw src c
    exact .same rfl (by rw [hmw])
  | voteRsp src t a =>
    obtain ⟨routine, hmw⟩ := electionRsp_frame mw src t a
    exact .same rfl (by rw [hmw])

/-- What is recorded of a call: an entry is named when the call leaves its wait loop. -/
inductive LeaveCase (mw : MiddleWare Ip) (na : NodeAct Ip) (e : Effect Ip) : Prop
  | stays (left : mw.leaving na = none) (events : ∀ ev ∈ e.events, ev.logged = none)
  | leaves (m : MiddleWare Ip) (h : Handler) (left : mw.leaving na = some (m, h))
      (events : e.events = Section.events h.req.id (.done h (m.kvsCommit h.req).2))

lemma act_leave {mw : MiddleWare Ip} {na : NodeAct Ip} {e : Effect Ip}
    (h : mw.act na = some e) : LeaveCase mw na e := by
  cases act_cases h with
  | request method key value rand =>
    refine .stays rfl ?_
    simp only [request]
    split <;> simp [Event.logged]
  | kvsBegin r =>
    simp only [kvsBegin]
    cases hc : { mw with arrived := mw.arrived.erase r }.kvsCheck r with
    | some resp => exact .stays (by simp [leaving, hc]) (by simp [Section.events, Event.logged])
    | none =>
      cases hq : ({ mw with arrived := mw.arrived.erase r }.kvsLog r).1.quorumReached
          ({ mw with arrived := mw.arrived.erase r }.kvsLog r).2 with
      | true =>
        refine .leaves _ _ (by simp only [leaving, hc, hq]; rfl) ?_
        dsimp only
        rw [kvsLoop_left hq]
        rfl
      | false =>
        refine .stays (by simp [leaving, hc, hq]) ?_
        simp [(kvsLoop_stays hq).2.2 r.id]
  | kvsWake hd =>
    simp only [kvsWake]
    cases hq : { mw with waiting := mw.waiting.erase hd }.quorumReached hd with
    | true =>
      refine .leaves _ hd (by simp only [leaving, hq]; rfl) ?_
      rw [kvsLoop_left hq]
    | false =>
      refine .stays (by simp [leaving, hq]) ?_
      simp [(kvsLoop_stays hq).2.2 hd.req.id]
  | vote src c =>
    refine .stays rfl ?_
    intro ev hev
    dsimp only at hev
    split at hev
    · obtain rfl := List.mem_singleton.mp hev
      rfl
    · simp at hev
  | _ => exact .stays rfl (by simp [Event.logged])

/-- Replication messages are sent by sessions alone. -/
lemma act_sent {mw : MiddleWare Ip} {na : NodeAct Ip} {e : Effect Ip} (h : mw.act na = some e)
    {dst : Ip} {session : Nat} {mean : Mean} {t : Nat} {entry : RaftLogEntry}
    (hp : (dst, .replicate session mean t entry) ∈ e.sent) :
    ∃ nr, mw.sessionMsg nr dst = some (mean, entry) := by
  cases act_cases h with
  | request method key value rand => simp [request_sent] at hp
  | sessionSend s =>
    obtain ⟨mean', log, heq, hmsg⟩ := sessionMsgs_replicate mw s mw.otherIp _ hp
    simp only [Msg.replicate.injEq] at heq
    obtain ⟨-, rfl, -, rfl⟩ := heq
    exact ⟨s.nr, hmsg⟩
  | _ => simp at hp

end MiddleWare

end TiPI.DB
