import TiPI.DB.Election
import TiPI.DB.LogSteps
import Mathlib.Data.Fintype.Basic

/-!
# Agreement of the committed logs

A handler commits on its master without a look at the other nodes, and a follower commits what
waits first in its buffer. The committed logs agree as long as no master commits that is behind
another node's committed log, and no follower commits another entry than the one it was sent.
-/

namespace TiPI.DB

namespace Cluster

variable {Ip : Type}

/-- The committed entries of each node. -/
def files (s : Cluster Ip) (i : Ip) : List RaftLogEntry := (s.node i).raftLog.file

/-- The entry that waits first has the index the committed log will give it. -/
lemma ind_of_commitsWaiting {mw : MiddleWare Ip} {na : NodeAct Ip} (hc : mw.raftLog.Chained)
    {x y : RaftLogEntry}
    (hw : mw.commitsWaiting na = some (x, y)) : y.ind = mw.raftLog.file.length := by
  unfold MiddleWare.commitsWaiting at hw
  split at hw
  · split at hw
    · obtain ⟨z, hz, hzy⟩ := Option.map_eq_some_iff.mp hw
      obtain rfl : z = y := (Prod.mk.inj hzy).2
      refine hc.ind ?_
      rw [Logger.log, List.getElem?_append_right le_rfl, Nat.sub_self, ← List.head?_eq_getElem?]
      exact hz
    · simp at hw
  · simp at hw

variable [DecidableEq Ip]

lemma files_after (s : Cluster Ip) (net : List (Packet Ip)) (i : Ip) (e : Effect Ip) :
    ({ s with net := net }.after i e).files =
      Function.update s.files i e.mw.raftLog.file := by
  funext j
  by_cases hj : j = i
  · subst hj
    simp [files]
  · simp [files, after_node_ne _ _ hj, hj]

/-- No master commits that is behind another node, and a follower that commits a waiting entry
commits the one of the message. -/
structure CommitSafe (s : Cluster Ip) (i : Ip) (na : NodeAct Ip) : Prop where
  longest : (s.node i).committing na ≠ none →
    ∀ j, (s.node j).raftLog.lenCommited ≤ (s.node i).raftLog.lenCommited
  same : ∀ p ∈ (s.node i).commitsWaiting na, p.2.payload = p.1.payload ∧ p.2.ind = p.1.ind

instance [Fintype Ip] (s : Cluster Ip) (i : Ip) (na : NodeAct Ip) :
    Decidable (s.CommitSafe i na) :=
  decidable_of_iff
    (((s.node i).committing na ≠ none →
      ∀ j, (s.node j).raftLog.lenCommited ≤ (s.node i).raftLog.lenCommited) ∧
      ∀ p ∈ (s.node i).commitsWaiting na, p.2.payload = p.1.payload ∧ p.2.ind = p.1.ind)
    ⟨fun h => ⟨h.1, h.2⟩, fun h => ⟨h.1, h.2⟩⟩

/-- What a replication packet may carry: a `logcommit` has an entry its sender has committed. -/
def Genuine (s : Cluster Ip) (src : Ip) (mean : Mean) (e : RaftLogEntry) : Prop :=
  MiddleWare.CarriesOp mean e ∧ (mean = .logcommit → (s.files src)[e.ind]? = some e)

structure AgreeInv (s : Cluster Ip) : Prop where
  chained : ∀ j, (s.node j).raftLog.Chained
  agree : Agree RaftLogEntry.payload s.files
  packets : ∀ src dst session mean t e,
    ⟨src, dst, .replicate session mean t e⟩ ∈ s.net → s.Genuine src mean e

lemma agreeInv_init (n : Nat) : (init n).AgreeInv where
  chained := fun _ => Logger.chained_fresh
  agree := by
    intro i j k a b ha
    simp [files, init, MiddleWare.init, Logger.fresh] at ha
  packets := by simp [init]

variable {s : Cluster Ip}

section Step

variable {i : Ip} {na : NodeAct Ip} {net : List (Packet Ip)} {e : Effect Ip}

omit [DecidableEq Ip] in
lemma AgreeInv.carriesOp (h : s.AgreeInv)
    (hrecv : ∀ src msg, na = .recv src msg → ⟨src, i, msg⟩ ∈ s.net) (src : Ip) (session : Nat)
    (mean : Mean) (t : Nat) (entry : RaftLogEntry)
    (hna : na = .recv src (.replicate session mean t entry)) : MiddleWare.CarriesOp mean entry :=
  (h.packets _ _ _ _ _ _ (hrecv _ _ hna)).1

omit [DecidableEq Ip] in
/-- An entry a node commits fits behind its committed log. -/
lemma AgreeInv.fits (h : s.AgreeInv) (hok : s.CommitSafe i na)
    (hrecv : ∀ src msg, na = .recv src msg → ⟨src, i, msg⟩ ∈ s.net) {x : RaftLogEntry}
    (hx : (s.node i).committing na = some x ∨ (s.node i).CommitsOwn na x ∨
      ∃ src session t entry, na = .recv src (.replicate session .logcommit t entry) ∧
        (s.node i).commitsWaiting na = some (entry, x)) :
    Fits RaftLogEntry.payload s.files i x := by
  rcases hx with hcom | ⟨src, session, t, entry, hna, hpay, hind⟩ |
    ⟨src, session, t, entry, hna, hw⟩
  · refine Fits.of_longest fun j => ?_
    have hle := hok.longest (by simp [hcom]) j
    rwa [Logger.lenCommited_eq (h.chained j), Logger.lenCommited_eq (h.chained i)] at hle
  · have hsrc := (h.packets _ _ _ _ _ _ (hrecv _ _ hna)).2 rfl
    rw [hind] at hsrc
    exact Fits.of_copy h.agree hsrc hpay
  · have hsrc := (h.packets _ _ _ _ _ _ (hrecv _ _ hna)).2 rfl
    obtain ⟨hpay, hind⟩ := hok.same (entry, x) (by simp [hw])
    rw [← hind, ind_of_commitsWaiting (h.chained i) hw] at hsrc
    exact Fits.of_copy h.agree hsrc hpay

/-- Committed entries stay. -/
lemma AgreeInv.files_grow (h : s.AgreeInv) (hact : (s.node i).act na = some e)
    (hrecv : ∀ src msg, na = .recv src msg → ⟨src, i, msg⟩ ∈ s.net) (net : List (Packet Ip))
    (j : Ip) : s.files j <+: ({ s with net := net }.after i e).files j := by
  rw [files_after]
  by_cases hj : j = i
  · subst hj
    rw [Function.update_self]
    rcases (MiddleWare.act_log hact).file (h.chained j) (h.carriesOp hrecv) with hf | ⟨x, hf, -⟩
    · exact hf ▸ List.prefix_rfl
    · exact hf ▸ List.prefix_append _ _
  · rw [Function.update_of_ne hj]

lemma AgreeInv.after (h : s.AgreeInv) (hok : s.CommitSafe i na)
    (hact : (s.node i).act na = some e) (hnet : net ⊆ s.net)
    (hrecv : ∀ src msg, na = .recv src msg → ⟨src, i, msg⟩ ∈ s.net) :
    ({ s with net := net }.after i e).AgreeInv := by
  have hcase := MiddleWare.act_log hact
  have hfile := hcase.file (h.chained i) (h.carriesOp hrecv)
  have hgrow := h.files_grow hact hrecv net
  refine ⟨?_, ?_, ?_⟩
  · intro j
    by_cases hj : j = i
    · subst hj
      rw [after_node_self]
      exact hcase.chained (h.chained j) (h.carriesOp hrecv)
    · rw [after_node_ne _ _ hj]
      exact h.chained j
  · rw [files_after]
    rcases hfile with hf | ⟨x, hf, hx⟩
    · rw [hf]
      exact h.agree.cut List.prefix_rfl
    · rw [hf]
      exact h.agree.extend (h.fits hok hrecv hx)
  · intro src dst session mean t entry hp
    rcases mem_after_net.mp hp with hold | ⟨rfl, hnew⟩
    · obtain ⟨hop, hcom⟩ := h.packets _ _ _ _ _ _ (hnet hold)
      exact ⟨hop, fun hm => getElem?_mono (hgrow src) (hcom hm)⟩
    · obtain ⟨nr, hmsg⟩ := MiddleWare.act_sent hact hnew
      rcases MiddleWare.sessionMsg_entry (h.chained src) hmsg with
        ⟨rfl, hget⟩ | ⟨rfl, hget⟩ | rfl
      · refine ⟨fun _ => ?_, fun _ => getElem?_mono (hgrow src) hget⟩
        exact (h.chained src).op _ (List.mem_of_getElem? (Logger.log_of_file hget))
      · exact ⟨fun _ => (h.chained src).op _ (List.mem_of_getElem? hget), by simp⟩
      · exact ⟨by simp [MiddleWare.CarriesOp], by simp⟩

end Step

omit [DecidableEq Ip] in
/-- Index and neighbours fix the remaining fields: agreeing logs hold the very same entries. -/
lemma AgreeInv.entry_eq (h : s.AgreeInv) {i j : Ip} {k : Nat} {a b : RaftLogEntry}
    (ha : (s.files i)[k]? = some a) (hb : (s.files j)[k]? = some b) : a = b := by
  have hfile : ∀ j' c, (s.files j')[k]? = some c → ∀ i' ≤ k, ∀ x,
      (s.node j').raftLog.log[i']? = some x → (s.files j')[i']? = some x := by
    intro j' c hc i' hi' x hx
    have hlt : i' < (s.node j').raftLog.file.length :=
      lt_of_le_of_lt hi' (List.getElem?_eq_some_iff.mp hc).1
    rwa [Logger.log, List.getElem?_append_left hlt] at hx
  exact (h.chained i).entry_eq (h.chained j) (Logger.log_of_file ha) (Logger.log_of_file hb)
    fun i' hi' x y hx hy => h.agree i j i' x y (hfile i a ha i' hi' x hx) (hfile j b hb i' hi' y hy)

end Cluster

/-! ### Clusters of any size -/

namespace Cluster

variable {n : Nat}

lemma agreeInv_run {s : Cluster (Fin (n + 1))} (h : Run step (Lift CommitSafe) (init n) s) :
    s.AgreeInv :=
  invariant h (agreeInv_init n) fun _ _ _ _ _ hs hok hact hnet hrecv =>
    hs.after hok hact hnet hrecv

/-- Two nodes that have committed an entry at one index have committed the same one, if masters
commit only with the longest committed log and followers only what they were sent. -/
theorem state_machine_agreement {s : Cluster (Fin (n + 1))}
    (h : Run step (Lift CommitSafe) (init n) s) {i j : Fin (n + 1)} {a b : RaftLogEntry}
    (ha : a ∈ (s.node i).raftLog.file) (hb : b ∈ (s.node j).raftLog.file)
    (hind : a.ind = b.ind) : a.payload = b.payload := by
  have hinv := agreeInv_run h
  obtain ⟨k, hk⟩ := List.mem_iff_getElem?.mp ha
  obtain ⟨k', hk'⟩ := List.mem_iff_getElem?.mp hb
  obtain rfl : k = k' := by
    rw [← (hinv.chained i).ind (Logger.log_of_file hk), hind,
      (hinv.chained j).ind (Logger.log_of_file hk')]
  exact hinv.agree i j k a b hk hk'

/-! ### Runs -/

/-- The next heartbeat session of node `i`, its number `id`. -/
def beats (i : Fin (n + 1)) (id : Nat) : List (Action (Fin (n + 1))) :=
  [.act i .producerTimer, .act i (.sessionSend id)]

/-- A client's first `POST` at node `i`, up to the wait. -/
def posts (i : Fin (n + 1)) (key value : String) : List (Action (Fin (n + 1))) :=
  [.act i (.request .POST key value 0), .act i (.kvsBegin ⟨0, .POST, key, value⟩)]

/-- The entry of `POST key?value=value` at index `0`. -/
def firstEntry (key value : String) (term : Nat) : RaftLogEntry :=
  ⟨.create, key, value, "", term, 0, 0, 0⟩

/-- The first `POST` of node `i` is woken. -/
def wake (i : Fin (n + 1)) (key value : String) (term : Nat) : Action (Fin (n + 1)) :=
  .act i (.kvsWake ⟨⟨0, .POST, key, value⟩, firstEntry key value term, 1, true⟩)

/-- Node `0` is elected, and node `2` has confirmed the entry of a write that waits. -/
def confirmed : List (Action (Fin 3)) :=
  soundElection ++ [.act 0 .mainLoop] ++ beats (0 : Fin 3) 0 ++ [.deliver 2, .deliver 2] ++
    posts (0 : Fin 3) "k" "x" ++ beats (0 : Fin 3) 1 ++
    [.deliver 3, .deliver 3, .act 0 (.sessionTimer 1)]

/-- The write is answered. -/
def acknowledged : List (Action (Fin 3)) := confirmed ++ [wake (0 : Fin 3) "k" "x" 1]

/-- The write is committed on node `2`, too. -/
def replicated : List (Action (Fin 3)) := acknowledged ++ beats (0 : Fin 3) 2 ++ [.deliver 4]

theorem state_machine_agreement_three : ∃ s : Cluster (Fin 3), ∃ a b : RaftLogEntry,
    Run step (Lift CommitSafe) (init 2) s ∧ a ∈ (s.node 0).raftLog.file ∧
      b ∈ (s.node 2).raftLog.file ∧ a.ind = b.ind ∧ a.payload = b.payload := by
  obtain ⟨s, hrun, ha, hb⟩ : ∃ s, Run step (Lift CommitSafe) (init 2) s ∧
      (firstEntry "k" "x" 1 ∈ (s.node (0 : Fin 3)).raftLog.file ∧
        firstEntry "k" "x" 1 ∈ (s.node 2).raftLog.file) :=
    exists_of_exec replicated (by decide)
  exact ⟨s, _, _, hrun, ha, hb, rfl, state_machine_agreement hrun ha hb rfl⟩

/-- Node `0` loses its mastership with a write `y` pending. Node `1` takes its answer about `y`
for one about the write `x`, commits `x`, and makes node `0` commit `y`. -/
def foreignCommit : List (Action (Fin 3)) :=
  soundElection ++ [.act 0 .mainLoop] ++ beats (0 : Fin 3) 0 ++ [.deliver 2, .deliver 2] ++
    posts (0 : Fin 3) "k" "y" ++ stands (1 : Fin 3) ++
    [.deliver 3, .deliver 3, .act 1 .electionWin, .act 1 .mainLoop] ++ beats (1 : Fin 3) 0 ++
    [.deliver 3, .deliver 3, .deliver 4] ++ posts (1 : Fin 3) "k" "x" ++ beats (1 : Fin 3) 1 ++
    [.deliver 4, .deliver 5, .act (1 : Fin 3) (.sessionTimer 1), wake (1 : Fin 3) "k" "x" 2] ++
    beats (1 : Fin 3) 2 ++ [.deliver 5]

theorem diverging_logs : ∃ (s : Cluster (Fin 3)) (a b : RaftLogEntry),
    Reach step (init 2) s ∧ a ∈ (s.node 0).raftLog.file ∧ b ∈ (s.node 1).raftLog.file ∧
      a.ind = b.ind ∧ a.payload ≠ b.payload := by
  obtain ⟨s, hrun, ha, hb⟩ : ∃ s, Reach step (init 2) s ∧
      (firstEntry "k" "y" 1 ∈ (s.node (0 : Fin 3)).raftLog.file ∧
        firstEntry "k" "x" 2 ∈ (s.node 1).raftLog.file) :=
    exists_of_exec foreignCommit (by decide)
  exact ⟨s, _, _, hrun, ha, hb, rfl, by decide⟩

end Cluster

end TiPI.DB
