import TiPI.DB.Calls

/-!
# The store of a master

A node on its own: its peers and clients may send anything at any time. On a node that stays
`MASTER` every call changes the store by its own request and commits what is first in
`to_commit`. Store and log stay together if that is the entry of the call.
-/

namespace TiPI.DB

variable {Ip : Type}

/-- Only operation, operand and first value reach the store. -/
lemma Kvs.apply_payload (kvs : Kvs) {e e' : RaftLogEntry} (h : e.payload = e'.payload) :
    kvs.apply e = kvs.apply e' := by
  simp only [RaftLogEntry.payload, Prod.mk.injEq] at h
  obtain ⟨hop, hoperand, hvalue, -, -⟩ := h
  simp only [apply, hop, hoperand, hvalue]

namespace MiddleWare

/-- The change a call makes in the store is the one its entry describes. -/
lemma kvsCommit_kvs (mw m : MiddleWare Ip) (r : WriteRequest) :
    (mw.kvsCommit r).1.kvs = mw.kvs.apply (m.kvsEntry r) := by
  unfold kvsCommit kvsEntry
  cases r.method with
  | POST => rfl
  | PATCH => rfl
  | DELETE =>
    cases hd : mw.kvs.delete r.key with
    | none => simp [Kvs.apply, hd]
    | some kvs => simp [Kvs.apply, hd]

lemma deleteFails_kvs {mw : MiddleWare Ip} {h : Handler} (hd : mw.deleteFails h = true) :
    (mw.kvsCommit h.req).1.kvs = mw.kvs := by
  rcases mw.kvsCommit_cases h with ⟨-, hmw, -⟩ | ⟨hno, -⟩
  · rw [hmw]
  · rw [hno] at hd
    cases hd

lemma logOp_toCommit (l : Logger) (msg : RaftLogEntry) :
    ∃ x, (l.logOp msg).toCommit = l.toCommit ++ [x] ∧ x.payload = msg.payload := by
  unfold Logger.logOp
  cases l.toCommit.getLast? with
  | some last => exact ⟨_, rfl, rfl⟩
  | none =>
    dsimp only
    split <;> exact ⟨_, rfl, rfl⟩

/-- The entry of a call carries what its request asks for. -/
def Genuine (Ip : Type) (h : Handler) : Prop :=
  ∃ mw : MiddleWare Ip, h.entry.payload = (mw.kvsEntry h.req).payload

lemma kvsLog_genuine (mw : MiddleWare Ip) (r : WriteRequest) : Genuine Ip (mw.kvsLog r).2 := by
  obtain ⟨x, hx, hpay⟩ := logOp_toCommit mw.raftLog (mw.kvsEntry r)
  refine ⟨mw, ?_⟩
  simp only [kvsLog, hx]
  simpa using hpay

variable {mw : MiddleWare Ip} {na : NodeAct Ip} {e : Effect Ip}

lemma CallCase.kvs (h : CallCase mw na e) (hs : mw.state = .MASTER) :
    (mw.leaving na = none ∧ e.mw.kvs = mw.kvs) ∨
      ∃ m hd, mw.leaving na = some (m, hd) ∧ m.kvs = mw.kvs ∧
        e.mw.kvs = (m.kvsCommit hd.req).1.kvs := by
  have hserved : Served mw na e → (mw.leaving na = none ∧ e.mw.kvs = mw.kvs) ∨
      ∃ m hd, mw.leaving na = some (m, hd) ∧ m.kvs = mw.kvs ∧
        e.mw.kvs = (m.kvsCommit hd.req).1.kvs := by
    intro hserved
    cases hserved with
    | refused _ _ _ left kvs => exact Or.inl ⟨left, kvs⟩
    | stays left kvs => exact Or.inl ⟨left, kvs⟩
    | leaves m hd left before kvs => exact Or.inr ⟨m, hd, left, before, kvs⟩
  cases h with
  | request method key value rand hna effect =>
    obtain ⟨arrived, hmw⟩ := request_frame mw method key value rand
    exact Or.inl ⟨by rw [hna]; rfl, by rw [effect, hmw]⟩
  | begins r hna harr effect => exact hserved (hna ▸ effect ▸ kvsBegin_served harr)
  | wakes hd hna hwait effect => exact hserved (hna ▸ effect ▸ kvsWake_served hwait)
  | other quiet left => exact Or.inl ⟨left, quiet.kvs hs⟩

/-- A master's file changes when a call commits, and by what is first in `to_commit`. -/
lemma LogCase.file_master (h : LogCase mw na e) (hs : mw.state = .MASTER) :
    (mw.leaving na = none ∧ e.mw.raftLog.file = mw.raftLog.file) ∨
      ∃ m hd, mw.leaving na = some (m, hd) ∧ e.mw.raftLog.file =
        if m.deleteFails hd then mw.raftLog.file
        else mw.raftLog.file ++ m.raftLog.toCommit.head?.toList := by
  cases h with
  | same left log => exact Or.inl ⟨left, by rw [log]⟩
  | role hna _ log => exact Or.inl ⟨by rw [hna]; rfl, by rw [log]; rfl⟩
  | fatal id hna _ log => exact Or.inl ⟨by rw [hna]; rfl, by rw [log]; rfl⟩
  | logged x _ left log => exact Or.inl ⟨left, by rw [log, Logger.logOp_file]⟩
  | left m hd left log =>
    refine Or.inr ⟨m, hd, left, ?_⟩
    rw [log, ← leaving_file left]
    split
    · rfl
    · unfold Logger.logCommit
      cases m.raftLog.toCommit with
      | nil => simp
      | cons x rest => rfl
  | replicate _ _ _ _ _ _ state => simp [hs] at state

end MiddleWare

/-! ### Runs of one node -/

structure Solo (Ip : Type) where
  mw : MiddleWare Ip
  /-- the events so far, oldest first -/
  trace : List (Event Ip)

namespace Solo

def start (mw : MiddleWare Ip) : Solo Ip := ⟨mw, []⟩

variable [DecidableEq Ip]

def step (s : Solo Ip) (na : NodeAct Ip) : Option (Solo Ip) :=
  (s.mw.act na).map fun e => ⟨e.mw, s.trace ++ e.events⟩

omit [DecidableEq Ip] in
/-- The node is `MASTER`. -/
def Master (s : Solo Ip) (_ : NodeAct Ip) : Prop := s.mw.state = .MASTER

instance (s : Solo Ip) (na : NodeAct Ip) : Decidable (s.Master na) :=
  inferInstanceAs (Decidable (_ = _))

omit [DecidableEq Ip] in
/-- A call that leaves its loop on a master, and whose deletion does not fail, finds its own entry
first in `to_commit`. -/
structure OwnFirst (s : Solo Ip) (na : NodeAct Ip) : Prop where
  master : s.Master na
  own : ∀ p ∈ s.mw.leaving na, p.1.deleteFails p.2 = false →
    p.1.raftLog.toCommit.head? = some p.2.entry

instance (s : Solo Ip) (na : NodeAct Ip) : Decidable (s.OwnFirst na) :=
  decidable_of_iff
    (s.Master na ∧ ∀ p ∈ s.mw.leaving na, p.1.deleteFails p.2 = false →
      p.1.raftLog.toCommit.head? = some p.2.entry)
    ⟨fun h => ⟨h.1, h.2⟩, fun h => ⟨h.master, h.own⟩⟩

/-- The store has what was committed since the start. -/
structure StoreInv (mw₀ : MiddleWare Ip) (s : Solo Ip) : Prop where
  store : ∃ es, s.mw.raftLog.file = mw₀.raftLog.file ++ es ∧ s.mw.kvs = mw₀.kvs.replay es
  waiting : ∀ h ∈ s.mw.waiting, MiddleWare.Genuine Ip h

lemma StoreInv.after {mw₀ : MiddleWare Ip} {s : Solo Ip} {na : NodeAct Ip} {e : Effect Ip}
    (h : StoreInv mw₀ s) (hok : s.OwnFirst na) (hact : s.mw.act na = some e) :
    StoreInv mw₀ ⟨e.mw, s.trace ++ e.events⟩ := by
  have hcalls := MiddleWare.act_calls hact
  have hgenuine : ∀ hd hd' : Handler, MiddleWare.Handler.Same hd' hd →
      MiddleWare.Genuine Ip hd' → MiddleWare.Genuine Ip hd := by
    rintro hd hd' ⟨hreq, hentry, -⟩ ⟨m, hm⟩
    exact ⟨m, by rw [← hentry, ← hreq, hm]⟩
  obtain ⟨es, hfile, hkvs⟩ := h.store
  refine ⟨?_, ?_⟩
  · rcases (MiddleWare.act_log hact).file_master hok.master with
      ⟨hleft, hfile'⟩ | ⟨m, hd, hleft, hfile'⟩ <;>
    rcases hcalls.kvs hok.master with ⟨hleft', hkvs'⟩ | ⟨m', hd', hleft', hbefore, hkvs'⟩
    · exact ⟨es, hfile'.trans hfile, hkvs'.trans hkvs⟩
    · simp [hleft] at hleft'
    · simp [hleft] at hleft'
    · obtain ⟨rfl, rfl⟩ : m = m' ∧ hd = hd' := by simpa [hleft] using hleft'
      cases hdel : m.deleteFails hd with
      | true =>
        rw [hdel, if_pos rfl] at hfile'
        rw [MiddleWare.deleteFails_kvs hdel, hbefore] at hkvs'
        exact ⟨es, hfile'.trans hfile, hkvs'.trans hkvs⟩
      | false =>
        obtain ⟨m₀, hm₀⟩ : MiddleWare.Genuine Ip hd := by
          obtain ⟨-, ⟨hmem, -, -⟩ | ⟨r, -, -, -, rfl, -⟩⟩ := hcalls.leaving hleft
          · exact h.waiting hd hmem
          · exact MiddleWare.kvsLog_genuine s.mw r
        rw [hdel, hok.own (m, hd) hleft hdel] at hfile'
        refine ⟨es ++ [hd.entry], ?_, ?_⟩
        · dsimp only
          rw [hfile', hfile]
          simp
        · dsimp only
          rw [hkvs', MiddleWare.kvsCommit_kvs m m₀, ← Kvs.apply_payload _ hm₀, hbefore, hkvs,
            Kvs.replay_append]
          rfl
  · intro hd hmem
    rcases hcalls.mem_waiting hmem with ⟨hd', hmem', hsame⟩ | ⟨r, -, -, -, rfl⟩
    · exact hgenuine hd hd' hsame (h.waiting hd' hmem')
    · exact MiddleWare.kvsLog_genuine s.mw r

/-- On a master whose calls find their own entries first, the store is the initial one after the
entries committed since. -/
theorem store_eq_log {mw : MiddleWare Ip} (hw : mw.waiting = []) {s : Solo Ip}
    (h : Run step OwnFirst (start mw) s) :
    s.mw.kvs = mw.kvs.replay (s.mw.raftLog.file.drop mw.raftLog.file.length) := by
  have hinv : StoreInv mw s := by
    refine Run.invariant h ⟨⟨[], by simp [start], rfl⟩, by simp [start, hw]⟩ ?_
    intro s na s' hs hok hstep
    obtain ⟨e, hact, rfl⟩ := Option.map_eq_some_iff.mp hstep
    exact hs.after hok hact
  obtain ⟨es, hfile, hkvs⟩ := hinv.store
  rw [hfile, List.drop_left, hkvs]

/-! ### Runs -/

/-- Node `0` of three has just stored `MASTER`. -/
def elected : MiddleWare (Fin 3) := { MiddleWare.init 0 [1, 2] with term := 1, state := .MASTER }

/-- Peer `i` answers heartbeat session `id` with its lengths. -/
def answers (i : Fin 3) (id len : Nat) (ack : Bool) : NodeAct (Fin 3) :=
  .recv i (.replicateRsp id ⟨200, some (len, ack)⟩)

/-- Peer `2` has answered the first heartbeat. -/
def firstBeat : List (NodeAct (Fin 3)) :=
  [.mainLoop, .producerTimer, .sessionSend 0, answers 2 0 0 true]

/-- Request `id` is a `POST` that comes in and runs its first critical section. -/
def posts (id : Nat) (key value : String) : List (NodeAct (Fin 3)) :=
  [.request .POST key value 0, .kvsBegin ⟨id, .POST, key, value⟩]

/-- Session `id` sends, gets one answer and wakes the waiting calls. -/
def beat (i : Fin 3) (id len : Nat) (ack : Bool) : List (NodeAct (Fin 3)) :=
  [.producerTimer, .sessionSend id, answers i id len ack, .sessionTimer id]

/-- The `POST` with entry number `ind` is woken. -/
def wake (id : Nat) (key value : String) (ind prevTerm : Nat) : NodeAct (Fin 3) :=
  .kvsWake ⟨⟨id, .POST, key, value⟩, ⟨.create, key, value, "", 1, ind, ind - 1, prevTerm⟩,
    ind + 1, true⟩

def onePost : List (NodeAct (Fin 3)) :=
  firstBeat ++ posts 0 "k" "x" ++ beat 2 1 1 false ++ [wake 0 "k" "x" 0 0]

theorem store_eq_log_post : ∃ s : Solo (Fin 3), Run step OwnFirst (start elected) s ∧
    s.mw.kvs "k" = some "x" ∧ s.mw.kvs = elected.kvs.replay s.mw.raftLog.file := by
  obtain ⟨s, hrun, hk⟩ : ∃ s, Run step OwnFirst (start elected) s ∧ s.mw.kvs "k" = some "x" :=
    exists_of_exec onePost (by decide)
  exact ⟨s, hrun, hk, store_eq_log rfl hrun⟩

/-- Two calls wait. Peer `1`, a former master with two entries of its own in its buffer, answers
with length `2`, and the call with the second entry is woken first. -/
def wrongOrder : List (NodeAct (Fin 3)) :=
  firstBeat ++ posts 0 "a" "x" ++ posts 1 "b" "y" ++ beat 1 1 2 false ++ [wake 1 "b" "y" 1 1]

/-- The store has the write of one call, the log the one of another. -/
theorem store_ne_log : ∃ s : Solo (Fin 3), Run step Master (start elected) s ∧
    s.mw.locked = false ∧
    s.mw.kvs ≠ elected.kvs.replay (s.mw.raftLog.file.drop elected.raftLog.file.length) := by
  obtain ⟨s, hrun, hlock, hb, hlog⟩ : ∃ s, Run step Master (start elected) s ∧
      (s.mw.locked = false ∧ s.mw.kvs "b" = some "y" ∧
        elected.kvs.replay (s.mw.raftLog.file.drop elected.raftLog.file.length) "b" = none) :=
    exists_of_exec wrongOrder (by decide)
  refine ⟨s, hrun, hlock, fun heq => ?_⟩
  rw [heq, hlog] at hb
  exact absurd hb (by simp)

end Solo

end TiPI.DB
