import TiPI.DB.Follower
import TiPI.DB.Quorum
import Mathlib.Data.List.TakeWhile

/-!
# Master and follower in one term

What a follower makes of a replication message of its term, and what a session of the master sends.
Both have a `Fatalf`: a follower when the log does not end at the index of a `logcommit`, the
master when it cannot read all of its file back.
-/

namespace TiPI.DB

variable {Ip : Type}

namespace MiddleWare

/-! ### A message at a follower -/

/-- The log a `logcommit` has in front of its check. -/
lemma replicateAppend_raftLog (mw : MiddleWare Ip) (e : RaftLogEntry) :
    (mw.replicateAppend e).raftLog =
      if mw.takesEntry e then mw.raftLog.flushUncommited.logOp e else mw.raftLog := by
  rw [replicateAppend_eq]
  split <;> rfl

/-- A follower ends in the `Fatalf` of a `logcommit` alone. -/
lemma replicateSlave_running {mw : MiddleWare Ip} (h : mw.running = true) (mean : Mean)
    (e : RaftLogEntry) :
    (mw.replicateSlave mean e).1.running = true ↔
      (mean = .logcommit → Logger.pred (mw.replicateAppend e).raftLog.lenUncommited = e.ind) := by
  obtain ⟨raftLog, happ⟩ := replicateAppend_frame mw e
  have hrun : (mw.replicateAppend e).running = true := by rw [happ]; exact h
  cases mean with
  | logcommit =>
    simp only [replicateSlave, forall_const]
    cases hc : (mw.replicateAppend e).replicateCommit e with
    | none =>
      simp only [replicateCommit, ite_not] at hc
      simpa [exit] using hc
    | some mw' =>
      simp only [replicateCommit, Option.ite_none_left_eq_some, not_not, Option.some.injEq] at hc
      obtain ⟨hind, rfl⟩ := hc
      simpa [applyToKvs, hrun] using hind
  | logappend => simpa [replicateSlave] using hrun
  | heartbeat => simpa [replicateSlave] using h
  | other name => simpa [replicateSlave] using h

/-- The `logcommit` is for the next entry of the follower, behind one pending entry at most if its
file is empty; or it repeats the last entry, which is not the first one, while nothing is
pending. -/
def FitsLog (mw : MiddleWare Ip) (e : RaftLogEntry) : Prop :=
  (e.ind = mw.raftLog.file.length ∧ (e.ind = 0 → mw.raftLog.toCommit.length ≤ 1)) ∨
    (0 < e.ind ∧ e.ind + 1 = mw.raftLog.file.length ∧ mw.raftLog.toCommit.length = 0)

instance (mw : MiddleWare Ip) (e : RaftLogEntry) : Decidable (mw.FitsLog e) :=
  inferInstanceAs (Decidable (_ ∨ _))

/-- A follower that is not behind the entry passes the check exactly when the entry fits. -/
lemma logcommit_passes_iff {mw : MiddleWare Ip} {e : RaftLogEntry} (hc : mw.raftLog.Chained)
    (hop : e.op ≠ .none) (hprev : e.prevInd = e.ind - 1)
    (hind : e.ind ≤ mw.raftLog.file.length) :
    Logger.pred (mw.replicateAppend e).raftLog.lenUncommited = e.ind ↔ mw.FitsLog e := by
  have hlog : mw.raftLog.log.length = mw.raftLog.file.length + mw.raftLog.toCommit.length := by
    rw [Logger.log, List.length_append]
  have htakes : mw.takesEntry e = true ↔
      (e.ind = 0 ∧ mw.raftLog.file.length + mw.raftLog.toCommit.length = 0) ∨
        e.ind - 1 = Logger.pred mw.raftLog.file.length := by
    simp [takesEntry, Logger.lenUncommited_eq hc, Logger.lenCommited_eq hc, hlog, hprev]
  rw [replicateAppend_raftLog, FitsLog]
  by_cases ht : mw.takesEntry e = true
  · rw [if_pos ht, Logger.lenUncommited_eq (hc.flushUncommited.logOp hop),
      Logger.logOp_log hc.flushUncommited, Logger.flushUncommited_log, List.length_append,
      List.length_singleton]
    rw [htakes] at ht
    simp only [Logger.pred] at ht ⊢
    split at ht <;> simp <;> omega
  · rw [if_neg ht, Logger.lenUncommited_eq hc, hlog]
    rw [htakes] at ht
    simp only [Logger.pred] at ht ⊢
    split at ht <;> split <;> omega

/-- A slave of the sender's term or an earlier one hands the message to the switch over `mean`. -/
lemma handleReplicate_slave {mw : MiddleWare Ip} (hs : mw.state = .SLAVE) (ip : Ip) (mean : Mean)
    {t : Nat} (ht : mw.term ≤ t) (e : RaftLogEntry) :
    mw.handleReplicate ip mean t e =
      ({ mw with term := max mw.term t } : MiddleWare Ip).replicateSlave mean e := by
  have hmax : ¬ max mw.term t > t := by omega
  simp only [handleReplicate, hs, raiseTerm_frame]
  rw [if_neg hmax]

/-- The answer of a slave has the lengths of the log that it leaves behind. -/
lemma replicateSlave_answer {mw : MiddleWare Ip} {mean : Mean} {e : RaftLogEntry} {a : Answer}
    (h : (mw.replicateSlave mean e).2 = some a) :
    a = rejected ∨ a = (mw.replicateSlave mean e).1.lens := by
  cases mean with
  | logappend => exact Or.inr (Option.some.inj h).symm
  | logcommit =>
    simp only [replicateSlave] at h ⊢
    split at h
    · simp at h
    · exact Or.inr (Option.some.inj h).symm
  | heartbeat => exact Or.inr (Option.some.inj h).symm
  | other name => exact Or.inl (Option.some.inj h).symm

/-- A slave reports its whole file when nothing is pending. -/
lemma lens_acked {mw : MiddleWare Ip} (hc : mw.raftLog.Chained) {len : Nat}
    (h : mw.lens.body = some (len, true)) : len = mw.raftLog.file.length := by
  simp only [lens, Option.some.injEq, Prod.mk.injEq, beq_iff_eq] at h
  obtain ⟨rfl, hsame⟩ := h
  rw [hsame, Logger.lenCommited_eq hc]

/-! ### A session of the master -/

/-- No value of `CommitLen` is above that of `SentLen`. -/
def LensOrdered (mw : MiddleWare Ip) : Prop :=
  ∀ p, (mw.commitLen p).getD 0 ≤ (mw.sentLen p).getD 0

/-- The entry of a `logcommit` is the one behind those the peer has confirmed. -/
lemma sessionMsg_commit {mw : MiddleWare Ip} (hc : mw.raftLog.Chained) (hl : mw.LensOrdered)
    {nr : Nat} {peer : Ip} {entry : RaftLogEntry}
    (h : mw.sessionMsg nr peer = some (.logcommit, entry)) :
    entry.ind = (mw.commitLen peer).getD 0 ∧ entry.prevInd = entry.ind - 1 := by
  simp only [sessionMsg] at h
  split at h
  · split at h
    · simp at h
    · simp only [Option.map_eq_some_iff, Prod.mk.injEq, true_and, exists_eq_right] at h
      rw [Logger.ops, if_neg (Nat.not_lt_zero _)] at h
      have hget := Logger.log_of_file (getElem?_mono (List.takeWhile_prefix _) h)
      refine ⟨hc.ind hget, ?_⟩
      rw [hc.stamped _ _ hget]
      rfl
  · next hcommit =>
    split at h
    · next hsent => exact absurd ⟨(hl peer).trans_lt hsent.1, hsent.2⟩ hcommit
    · split at h
      · simp at h
      · simp at h

/-- The file can be read back: a scanner of the default buffer gets through all of its lines. -/
def Readable (mw : MiddleWare Ip) : Prop :=
  ∀ e ∈ mw.raftLog.file, e.lineLen < maxScanTokenSize

instance (mw : MiddleWare Ip) : Decidable mw.Readable :=
  inferInstanceAs (Decidable (∀ e ∈ _, _))

lemma readable_iff (mw : MiddleWare Ip) :
    mw.Readable ↔ (mw.raftLog.ops 0).length = mw.raftLog.file.length := by
  rw [Logger.ops, if_neg (Nat.not_lt_zero _)]
  constructor
  · intro h
    rw [List.takeWhile_eq_self_iff.mpr]
    simpa [Readable] using h
  · intro h
    have hself := List.takeWhile_eq_self_iff.mp ((List.takeWhile_prefix _).eq_of_length h)
    simpa [Readable] using hself

/-- A session gets its message for a peer unless it has commits for the peer and cannot read the
file back. -/
lemma sessionMsg_isSome {mw : MiddleWare Ip} (hc : mw.raftLog.Chained) (hl : mw.LensOrdered)
    (nr : Nat) (peer : Ip) :
    (mw.sessionMsg nr peer).isSome = true ↔
      ((mw.commitLen peer).getD 0 < mw.raftLog.lenCommited ∧ nr ≠ 0 → mw.Readable) := by
  have hlen := Logger.lenCommited_eq hc
  have hordered := hl peer
  simp only [sessionMsg]
  split
  · next hcommit =>
    rw [readable_iff, ← hlen]
    split
    · next hops => exact iff_of_false (by simp) fun h => hops (h hcommit)
    · next hops =>
      have hlt : (mw.commitLen peer).getD 0 < (mw.raftLog.ops 0).length := by omega
      exact iff_of_true (by simp [List.getElem?_eq_getElem hlt]) fun _ => not_not.mp hops
  · next hcommit =>
    refine iff_of_true ?_ fun h => absurd h hcommit
    split
    · next hsent => exact absurd ⟨hordered.trans_lt hsent.1, hsent.2⟩ hcommit
    · next hsent =>
      split
      · next hpending =>
        have hge : mw.raftLog.lenCommited ≤ (mw.sentLen peer).getD 0 :=
          not_lt.mp fun hlt => hsent ⟨hlt, hpending.2⟩
        have hlt : (mw.sentLen peer).getD 0 - mw.raftLog.lenCommited <
            mw.raftLog.uncommitedOps.length := by
          have hsum := hpending.1
          rw [Logger.lenUncommited] at hsum
          simp only [Logger.uncommitedOps]
          omega
        simp [List.getElem?_eq_getElem hlt]
      · rfl

lemma sessionMsg_carriesOp {mw : MiddleWare Ip} (hc : mw.raftLog.Chained) {nr : Nat} {peer : Ip}
    {mean : Mean} {entry : RaftLogEntry} (h : mw.sessionMsg nr peer = some (mean, entry)) :
    CarriesOp mean entry := by
  rcases sessionMsg_entry hc h with ⟨-, hget⟩ | ⟨-, hget⟩ | rfl
  · exact fun _ => hc.op _ (List.mem_of_getElem? (Logger.log_of_file hget))
  · exact fun _ => hc.op _ (List.mem_of_getElem? hget)
  · simp [CarriesOp]

/-- A session sends to its peers. -/
lemma sessionMsgs_dst (mw : MiddleWare Ip) (s : Session) (peers : List Ip) :
    ∀ p ∈ (mw.sessionMsgs s peers).1, p.1 ∈ peers := by
  induction peers with
  | nil => simp [sessionMsgs]
  | cons peer peers ih =>
    simp only [sessionMsgs]
    split
    · simp
    · intro p hp
      rcases List.mem_cons.mp hp with rfl | hp
      · exact List.mem_cons_self
      · exact List.mem_cons_of_mem _ (ih p hp)

lemma sessionMsgs_alive (mw : MiddleWare Ip) (s : Session) (peers : List Ip) :
    (mw.sessionMsgs s peers).2 = true ↔ ∀ p ∈ peers, (mw.sessionMsg s.nr p).isSome = true := by
  induction peers with
  | nil => simp [sessionMsgs]
  | cons peer peers ih =>
    simp only [sessionMsgs, List.forall_mem_cons]
    split
    · next hnone => simp [hnone]
    · next hmsg => simp [hmsg, ih]

/-- Some peer lacks entries of the file, as far as the master knows. -/
def Behind (mw : MiddleWare Ip) : Prop :=
  ∃ p ∈ mw.otherIp, (mw.commitLen p).getD 0 < mw.raftLog.lenCommited

instance (mw : MiddleWare Ip) : Decidable mw.Behind :=
  inferInstanceAs (Decidable (∃ p ∈ _, _))

/-- A session goes through when it has no commits to send, or can read the file back. -/
lemma sessionMsgs_alive_iff {mw : MiddleWare Ip} (hc : mw.raftLog.Chained) (hl : mw.LensOrdered)
    (s : Session) :
    (mw.sessionMsgs s mw.otherIp).2 = true ↔ (s.nr ≠ 0 → mw.Behind → mw.Readable) := by
  rw [sessionMsgs_alive]
  constructor
  · rintro h hnr ⟨p, hp, hlt⟩
    exact (sessionMsg_isSome hc hl s.nr p).mp (h p hp) ⟨hlt, hnr⟩
  · intro h p hp
    exact (sessionMsg_isSome hc hl s.nr p).mpr fun hlt => h hlt.2 ⟨p, hp, hlt.1⟩

/-! ### What the answers say -/

/-- A positive response has the length of a positive answer. -/
lemma ok_mem_sendReplicate {peer p : Ip} {a : Answer} {l : Nat}
    (h : .ok p l true ∈ sendReplicate peer a) : p = peer ∧ a.body = some (l, true) := by
  unfold sendReplicate at h
  cases hb : a.body with
  | none => simp [hb] at h
  | some body =>
    obtain ⟨len, ack⟩ := body
    simp only [hb, List.mem_append, List.mem_ite_nil_right, List.mem_singleton, reduceCtorEq,
      Rsp.ok.injEq, and_false, false_or] at h
    obtain ⟨rfl, rfl, rfl⟩ := h
    exact ⟨rfl, rfl⟩

variable [DecidableEq Ip]

/-- A value of `SentLen` or `CommitLen` after a response. -/
lemma getD_raise (lens : Ip → Option Nat) (ip p : Ip) (len : Nat) :
    (Function.update lens ip (some (max len ((lens ip).getD 0))) p).getD 0 =
      if p = ip then max len ((lens p).getD 0) else (lens p).getD 0 := by
  split
  · next hip => rw [hip, Function.update_self, Option.getD_some]
  · next hip => rw [Function.update_of_ne hip]

lemma collectOk_lens {mw : MiddleWare Ip} (h : mw.LensOrdered) (s : Session) (ip : Ip)
    (len : Nat) (ans : Bool) : (mw.collectOk s ip len ans).1.LensOrdered := by
  intro p
  have hp := h p
  simp only [collectOk]
  split
  · dsimp only
    rw [getD_raise]
    split
    · exact hp.trans (le_max_right _ _)
    · exact hp
  · split
    · dsimp only
      rw [getD_raise, getD_raise]
      split
      · exact max_le_max le_rfl hp
      · exact hp
    · exact hp

lemma collect_lens {mw : MiddleWare Ip} (h : mw.LensOrdered) (s : Session)
    (rsps : List (Rsp Ip)) : (mw.collect s rsps).1.LensOrdered := by
  induction rsps generalizing mw s with
  | nil => exact h
  | cons rsp rsps ih =>
    cases rsp with
    | err => exact ih h s
    | ok ip len ans =>
      simp only [collect]
      split
      · exact ih (collectOk_lens h s ip len ans) _
      · exact h

/-- A bound on `CommitLen` that the positive responses meet. -/
lemma collect_commitLen {mw : MiddleWare Ip} {bound : Ip → Nat}
    (h : ∀ p, (mw.commitLen p).getD 0 ≤ bound p) (s : Session) (rsps : List (Rsp Ip))
    (hrsps : ∀ p l, .ok p l true ∈ rsps → l ≤ bound p) (p : Ip) :
    ((mw.collect s rsps).1.commitLen p).getD 0 ≤ bound p := by
  induction rsps generalizing mw s with
  | nil => exact h p
  | cons rsp rsps ih =>
    have hrest : ∀ p l, .ok p l true ∈ rsps → l ≤ bound p :=
      fun p l hmem => hrsps p l (List.mem_cons_of_mem _ hmem)
    cases rsp with
    | err => exact ih h s hrest
    | ok ip len ans =>
      simp only [collect]
      split
      · refine ih ?_ _ hrest
        intro q
        simp only [collectOk]
        split
        · exact h q
        · split
          · next hans =>
            obtain ⟨rfl, -⟩ := hans
            dsimp only
            rw [getD_raise]
            split
            · next hip =>
              subst hip
              exact max_le (hrsps q len List.mem_cons_self) (h q)
            · exact h q
          · exact h q
      · exact h p

end MiddleWare

end TiPI.DB
