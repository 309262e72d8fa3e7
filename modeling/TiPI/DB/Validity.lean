import TiPI.DB.Agreement
import TiPI.DB.Follower
import TiPI.DB.Linearizability

/-!
# Where entries and values come from

Logs diverge and acknowledged writes get lost, but nothing is made up: an entry of a log or of a
packet is what a client has asked an elected master for, and so is a value of a store or of an
answer. What a node has committed it keeps, in all runs.
-/

namespace TiPI.DB

variable {Ip : Type}

/-- The request asks for the entry. -/
def Request.Asks (r : Request) (x : RaftLogEntry) : Prop :=
  match r.method with
  | .POST => x.op = .create ∧ x.operand = r.key ∧ x.value1 = r.value
  | .PATCH => x.op = .update ∧ x.operand = r.key ∧ x.value1 = r.value
  | .DELETE => x.op = .delete ∧ x.operand = r.key
  | .GET | .other _ => False

/-- The request gives the key the value. -/
def Request.Writes (r : Request) (key value : String) : Prop :=
  (r.method = .POST ∨ r.method = .PATCH) ∧ r.key = key ∧ r.value = value

lemma Request.Asks.of_payload {r : Request} {x y : RaftLogEntry} (h : r.Asks x)
    (hpay : y.payload = x.payload) : r.Asks y := by
  simp only [RaftLogEntry.payload, Prod.mk.injEq] at hpay
  obtain ⟨hop, hoperand, hvalue, -⟩ := hpay
  unfold Asks at h ⊢
  rwa [hop, hoperand, hvalue]

lemma Request.Asks.op {r : Request} {x : RaftLogEntry} (h : r.Asks x) : x.op ≠ .none := by
  unfold Asks at h
  split at h
  · simp [h.1]
  · simp [h.1]
  · simp [h.1]
  · exact h.elim
  · exact h.elim

/-- The entry sets the key to the value. -/
def RaftLogEntry.Sets (x : RaftLogEntry) (key value : String) : Prop :=
  (x.op = .create ∨ x.op = .update) ∧ x.operand = key ∧ x.value1 = value

lemma Request.Asks.writes {r : Request} {x : RaftLogEntry} {key value : String} (h : r.Asks x)
    (hsets : x.Sets key value) : r.Writes key value := by
  obtain ⟨hop, rfl, rfl⟩ := hsets
  unfold Asks at h
  split at h
  · next hm => exact ⟨.inl hm, h.2.1.symm, h.2.2.symm⟩
  · next hm => exact ⟨.inr hm, h.2.1.symm, h.2.2.symm⟩
  · rw [h.1] at hop
    simp at hop
  · exact h.elim
  · exact h.elim

lemma Kvs.apply_eq_some {kvs : Kvs} {x : RaftLogEntry} {key value : String}
    (h : kvs.apply x key = some value) : kvs key = some value ∨ x.Sets key value := by
  have hwrite : kvs.write x.operand x.value1 key = some value →
      kvs key = some value ∨ (x.operand = key ∧ x.value1 = value) := by
    unfold Kvs.write
    by_cases hk : key = x.operand
    · subst hk
      rw [Function.update_self]
      exact fun heq => .inr ⟨rfl, Option.some.inj heq⟩
    · rw [Function.update_of_ne hk]
      exact .inl
  unfold Kvs.apply at h
  cases hop : x.op with
  | create =>
    rw [hop] at h
    exact (hwrite h).imp_right fun hset => ⟨.inl hop, hset⟩
  | update =>
    rw [hop] at h
    exact (hwrite h).imp_right fun hset => ⟨.inr hop, hset⟩
  | delete =>
    rw [hop] at h
    left
    unfold Kvs.delete at h
    cases hold : kvs x.operand with
    | none => simpa [hold] using h
    | some old =>
      rw [hold] at h
      by_cases hk : key = x.operand
      · simp [hk] at h
      · simpa [Function.update_of_ne hk] using h
  | _ =>
    rw [hop] at h
    exact .inl h

namespace MiddleWare

/-! ### What an action adds -/

variable {mw : MiddleWare Ip} {na : NodeAct Ip} {e : Effect Ip}

lemma kvsEntry_asks (mw : MiddleWare Ip) (w : WriteRequest) :
    w.toRequest.Asks (mw.kvsEntry w) ∧ (mw.kvsEntry w).term = mw.term := by
  unfold kvsEntry Request.Asks WriteRequest.toRequest
  cases w.method with
  | POST => exact ⟨⟨rfl, rfl, rfl⟩, rfl⟩
  | PATCH => exact ⟨⟨rfl, rfl, rfl⟩, rfl⟩
  | DELETE => exact ⟨⟨rfl, rfl⟩, rfl⟩

lemma payload_of_mem_logOp {l : Logger} (hc : l.Chained) {x y : RaftLogEntry}
    (hx : x ∈ (l.logOp y).log) :
    x ∈ l.log ∨ x.payload = y.payload := by
  rw [Logger.logOp_log hc, List.mem_append, List.mem_singleton] at hx
  rcases hx with hx | rfl
  · exact .inl hx
  · exact .inr rfl

lemma mem_flushUncommited {l : Logger} {x : RaftLogEntry} (hx : x ∈ l.flushUncommited.log) :
    x ∈ l.log := by
  rw [Logger.flushUncommited_log] at hx
  exact l.file_prefix_log.subset hx

/-- An entry of the log was there, or a call has just logged it, or a message has brought it. -/
lemma LogCase.mem_log (h : LogCase mw na e) (hc : mw.raftLog.Chained) {x : RaftLogEntry}
    (hx : x ∈ e.mw.raftLog.log) :
    x ∈ mw.raftLog.log ∨ (∃ y, mw.logging na = some y ∧ x.payload = y.payload) ∨
      ∃ src session mean t y, na = .recv src (.replicate session mean t y) ∧
        (mean = .logappend ∨ mean = .logcommit) ∧ mw.state = .SLAVE ∧ mw.term ≤ t ∧
        x.payload = y.payload := by
  cases h with
  | same _ log =>
    rw [log] at hx
    exact .inl hx
  | role _ _ log | fatal _ _ _ log =>
    rw [log] at hx
    exact .inl (mem_flushUncommited hx)
  | logged y logging _ log =>
    rw [log] at hx
    exact (payload_of_mem_logOp hc hx).imp_right fun hpay => .inl ⟨y, logging, hpay⟩
  | left m hd left log =>
    have hm : x ∈ m.raftLog.log := by
      rw [log] at hx
      split at hx
      · exact hx
      · rwa [Logger.logCommit_log] at hx
    rcases leaving_raftLog left with hlog | ⟨y, hy, hlog⟩
    · exact .inl (hlog ▸ hm)
    · rw [hlog] at hm
      exact (payload_of_mem_logOp hc hm).imp_right fun hpay => .inl ⟨y, hy, hpay⟩
  | replicate src session mean t y hna hs ht case =>
    have hnew : (mean = .logappend ∨ mean = .logcommit) →
        x ∈ (mw.raftLog.flushUncommited.logOp y).log → x ∈ mw.raftLog.log ∨
        (∃ y, mw.logging na = some y ∧ x.payload = y.payload) ∨
        ∃ src session mean t y, na = .recv src (.replicate session mean t y) ∧
          (mean = .logappend ∨ mean = .logcommit) ∧ mw.state = .SLAVE ∧ mw.term ≤ t ∧
          x.payload = y.payload := by
      intro hmean hx
      rcases payload_of_mem_logOp hc.flushUncommited hx with hold | hpay
      · exact .inl (mem_flushUncommited hold)
      · exact .inr (.inr ⟨src, session, mean, t, y, hna, hmean, hs, ht, hpay⟩)
    cases case with
    | keep log => exact .inl (log ▸ hx)
    | append hmean _ log => exact hnew (.inl hmean) (log ▸ hx)
    | commit hmean _ _ log =>
      rw [log, Logger.logCommit_log] at hx
      exact hnew (.inr hmean) hx
    | commitWaiting _ _ _ log =>
      rw [log, Logger.logCommit_log] at hx
      exact .inl hx
    | exit _ _ log =>
      rw [log] at hx
      exact .inl (mem_flushUncommited hx)

/-- The entry a call logs is the one its request asks for, in the term of the node. -/
lemma logging_asks {x : RaftLogEntry} (h : mw.logging na = some x) :
    ∃ w, na = .kvsBegin w ∧ w.toRequest.Asks x ∧ x.term = mw.term := by
  unfold logging at h
  split at h
  · next w =>
    obtain ⟨-, hx⟩ := Option.ite_none_right_eq_some.1 h
    obtain rfl := Option.some.inj hx
    exact ⟨w, rfl, mw.kvsEntry_asks w⟩
  · simp at h

/-- A value in the store a call leaves behind is an old one or its own. -/
lemma kvsCommit_store {w : WriteRequest} {key value : String}
    (h : (mw.kvsCommit w).1.kvs key = some value) :
    mw.kvs key = some value ∨ w.toRequest.Writes key value := by
  have happly : (mw.kvsCommit w).1.kvs = mw.kvs.apply (mw.kvsEntry w) := by
    unfold kvsCommit Kvs.apply kvsEntry
    cases w.method with
    | POST => rfl
    | PATCH => rfl
    | DELETE =>
      dsimp only
      cases mw.kvs.delete w.key <;> rfl
  rw [happly] at h
  exact (Kvs.apply_eq_some h).imp_right (mw.kvsEntry_asks w).1.writes

/-- A value a call answers with behind its loop is its own. -/
lemma kvsCommit_body {w : WriteRequest} {key value : String}
    (h : (mw.kvsCommit w).2.body = .json key (some value)) : w.toRequest.Writes key value := by
  unfold kvsCommit at h
  split at h
  · next hm =>
    simp only [Body.json.injEq, Option.some.injEq] at h
    exact ⟨.inl (by rw [WriteRequest.toRequest, hm]; rfl), h.1, h.2⟩
  · next hm =>
    simp only [Body.json.injEq, Option.some.injEq] at h
    exact ⟨.inr (by rw [WriteRequest.toRequest, hm]; rfl), h.1, h.2⟩
  · split at h <;> simp at h

/-- A value in the store of a slave is an old one, or that of the entry it committed last. -/
lemma replicateSlave_store {mean : Mean} {x : RaftLogEntry} {key value : String}
    (h : (mw.replicateSlave mean x).1.kvs key = some value) : mw.kvs key = some value ∨
      (mw.replicateSlave mean x).1.raftLog.lastOp.Sets key value := by
  have happ : (mw.replicateAppend x).kvs = mw.kvs := by
    obtain ⟨raftLog, hmw⟩ := replicateAppend_frame mw x
    rw [hmw]
  cases mean with
  | logappend =>
    simp only [replicateSlave, happ] at h
    exact .inl h
  | logcommit =>
    simp only [replicateSlave, replicateCommit] at h ⊢
    split at h
    · simp only [exit, happ] at h
      exact .inl h
    · next mw' hmw' =>
      dsimp only
      obtain ⟨-, hsome⟩ := Option.ite_none_left_eq_some.1 hmw'
      obtain rfl := Option.some.inj hsome
      rw [← happ]
      exact Kvs.apply_eq_some h
  | heartbeat => exact .inl h
  | other name => exact .inl h

lemma handleReplicate_store {ip : Ip} {mean : Mean} {t : Nat} {x : RaftLogEntry}
    {key value : String} (h : (mw.handleReplicate ip mean t x).1.kvs key = some value) :
    mw.kvs key = some value ∨
      (mw.handleReplicate ip mean t x).1.raftLog.lastOp.Sets key value := by
  unfold handleReplicate at h ⊢
  cases hs : mw.state with
  | MASTER =>
    simp only [hs] at h
    split at h <;> exact .inl h
  | CONDIDATE =>
    simp only [hs] at h
    split at h <;> exact .inl h
  | SLAVE =>
    have hraise : (mw.raiseTerm t).kvs = mw.kvs := by rw [raiseTerm_frame]
    simp only [hs] at h ⊢
    split at h
    · rw [hraise] at h
      exact .inl h
    · next hle =>
      rw [if_neg hle, ← hraise]
      exact replicateSlave_store h

/-- A slave takes over the term of a message that is not behind. -/
lemma le_handleReplicate_term (hs : mw.state = .SLAVE) (ip : Ip) (mean : Mean) (t : Nat)
    (x : RaftLogEntry) : t ≤ (mw.handleReplicate ip mean t x).1.term := by
  have hraise : t ≤ (mw.raiseTerm t).term := by
    rw [raiseTerm_frame]
    exact le_max_right ..
  unfold handleReplicate
  simp only [hs]
  split
  · exact hraise
  · obtain ⟨_, _, _, hmw⟩ := replicateSlave_frame (mw.raiseTerm t) mean x
    rwa [hmw]

lemma kvsCheck_body {w : WriteRequest} {resp : Response Ip} {key value : String}
    (h : mw.kvsCheck w = some resp) : resp.body ≠ .json key (some value) := by
  unfold kvsCheck at h
  split at h <;> simp at h <;> simp [← h]

lemma kvsArrive_body {r : Request} {rand : Nat} {resp : Response Ip} {key value : String}
    (h : mw.kvsArrive r rand = .answered resp) (hbody : resp.body = .json key (some value)) :
    mw.kvs key = some value := by
  unfold kvsArrive at h
  split at h
  · obtain rfl := Arrival.answered.inj h
    simp at hbody
  · cases hm : r.method with
    | GET =>
      simp only [hm, kvsGet] at h
      split at h
      · split at h
        · obtain rfl := Arrival.answered.inj h
          simp at hbody
        · simp at h
      all_goals
        split at h
        · obtain rfl := Arrival.answered.inj h
          simp at hbody
        · next hread =>
          obtain rfl := Arrival.answered.inj h
          simp only [Body.json.injEq, Option.some.injEq] at hbody
          obtain ⟨rfl, rfl⟩ := hbody
          exact hread
    | POST | PATCH =>
      simp only [hm] at h
      split at h
      · obtain rfl := Arrival.answered.inj h
        simp at hbody
      · simp at h
    | DELETE => simp [hm] at h
    | other name =>
      simp only [hm] at h
      obtain rfl := Arrival.answered.inj h
      simp at hbody

/-- Where a value in the store comes from, after a step of a call. -/
lemma Served.store (h : Served mw na e) {key value : String} (hv : e.mw.kvs key = some value) :
    mw.kvs key = some value ∨ ∃ w ∈ mw.openCalls, w.toRequest.Writes key value := by
  cases h with
  | refused _ _ _ _ kvs | stays _ kvs => exact .inl (kvs ▸ hv)
  | leaves m hd _ before kvs opened =>
    rw [kvs] at hv
    rcases kvsCommit_store hv with hold | hnew
    · exact .inl (before ▸ hold)
    · exact .inr ⟨hd.req, opened.subset List.mem_cons_self, hnew⟩

lemma Served.answer (h : Served mw na e) {id : Nat} {resp : Response Ip}
    {logged : Option RaftLogEntry} {key value : String} (hev : .answered id resp logged ∈ e.events)
    (hbody : resp.body = .json key (some value)) :
    ∃ w ∈ mw.openCalls, w.toRequest.Writes key value := by
  cases h with
  | refused w resp' check _ _ _ events =>
    rw [events, List.mem_singleton, Event.answered.injEq] at hev
    exact absurd (hev.2.1 ▸ hbody) (kvsCheck_body check)
  | stays _ _ _ events => simp [events] at hev
  | leaves m hd _ _ _ opened events =>
    simp only [events, Section.events, List.mem_cons, Event.answered.injEq, reduceCtorEq,
      List.not_mem_nil, or_false, false_or] at hev
    obtain ⟨-, rfl, -⟩ := hev
    exact ⟨hd.req, opened.subset List.mem_cons_self, kvsCommit_body hbody⟩

lemma Served.subset (h : Served mw na e) : e.mw.openCalls ⊆ mw.openCalls := by
  cases h with
  | refused _ _ _ _ _ opened | leaves _ _ _ _ _ opened =>
    exact fun w hw => opened.subset (List.mem_cons_of_mem _ hw)
  | stays _ _ opened => exact opened.subset

lemma Quiet.openCalls (h : mw.Quiet e) : e.mw.openCalls = mw.openCalls := by
  have hreq : e.mw.waiting.map (·.req) = mw.waiting.map (·.req) := by
    rcases h.waiting with heq | heq
    · rw [heq]
    · rw [heq]
      simp [broadcast]
  rw [MiddleWare.openCalls, MiddleWare.openCalls, h.arrived, hreq]

/-- A call is open before, or a master has just been asked for it. -/
lemma CallCase.mem_openCalls (h : CallCase mw na e) {w : WriteRequest} (hw : w ∈ e.mw.openCalls) :
    w ∈ mw.openCalls ∨ (mw.state = .MASTER ∧ .invoked w.toRequest ∈ e.events) := by
  cases h with
  | request method key value rand _ effect =>
    rw [effect] at hw ⊢
    simp only [MiddleWare.request] at hw ⊢
    cases harr : { mw with nextRequest := mw.nextRequest + 1 }.kvsArrive
        ⟨mw.nextRequest, method, key, value⟩ rand with
    | answered resp =>
      rw [harr] at hw
      exact .inl hw
    | lock w' =>
      rw [harr] at hw
      simp only [MiddleWare.openCalls, List.mem_append, List.mem_singleton] at hw ⊢
      rcases hw with (hold | rfl) | hold
      · exact .inl (.inl hold)
      · right
        refine ⟨?_, by simp [(kvsArrive_lock harr).1]⟩
        by_contra hs
        exact kvsArrive_ne_lock hs _ _ _ harr
      · exact .inl (.inr hold)
    | panicked =>
      rw [harr] at hw
      exact .inl hw
  | begins r hna harr effect =>
    have hserved : Served mw na e := hna ▸ effect ▸ kvsBegin_served harr
    exact .inl (hserved.subset hw)
  | wakes hd hna hwait effect =>
    have hserved : Served mw na e := hna ▸ effect ▸ kvsWake_served hwait
    exact .inl (hserved.subset hw)
  | other quiet => exact .inl (quiet.openCalls ▸ hw)

variable [DecidableEq Ip]

/-- A value in the store is an old one, that of a call, or that of the entry committed last. -/
lemma act_store (h : mw.act na = some e) {key value : String} (hv : e.mw.kvs key = some value) :
    mw.kvs key = some value ∨ (∃ w ∈ mw.openCalls, w.toRequest.Writes key value) ∨
      e.mw.raftLog.lastOp.Sets key value := by
  cases act_cases h with
  | request method k v rand =>
    obtain ⟨arrived, hmw⟩ := request_frame mw method k v rand
    rw [hmw] at hv
    exact .inl hv
  | kvsBegin w arrived => exact ((kvsBegin_served arrived).store hv).imp_right .inl
  | kvsWake hd waiting => exact ((kvsWake_served waiting).store hv).imp_right .inl
  | replicate src session mean t x => exact (handleReplicate_store hv).imp_right .inr
  | sessionSend s =>
    dsimp only at hv
    split at hv <;> exact .inl hv
  | sessionDone s | sessionKept s =>
    obtain ⟨_, _, hmw⟩ := collected_frame mw s
    rw [hmw] at hv
    exact .inl hv
  | response src a s =>
    obtain ⟨_, _, hmw⟩ := collect_frame mw s (sendReplicate src a)
    rw [hmw] at hv
    exact .inl hv
  | vote src c =>
    obtain ⟨_, _, _, _, _, hmw⟩ := handleVoteRequest_frame mw src c
    rw [hmw] at hv
    exact .inl hv
  | voteRsp src t a =>
    obtain ⟨_, hmw⟩ := electionRsp_frame mw src t a
    rw [hmw] at hv
    exact .inl hv
  | _ => exact .inl hv

/-- A value in an answer is one of the store, or that of the call. -/
lemma act_answer (h : mw.act na = some e) {id : Nat} {resp : Response Ip}
    {logged : Option RaftLogEntry} {key value : String} (hev : .answered id resp logged ∈ e.events)
    (hbody : resp.body = .json key (some value)) :
    mw.kvs key = some value ∨ ∃ w ∈ mw.openCalls, w.toRequest.Writes key value := by
  cases act_calls h with
  | request method k v rand _ effect =>
    rw [effect] at hev
    simp only [MiddleWare.request] at hev
    split at hev
    · next resp' harr =>
      simp only [List.mem_cons, reduceCtorEq, Event.answered.injEq, List.not_mem_nil, or_false,
        false_or] at hev
      obtain ⟨-, rfl, -⟩ := hev
      exact .inl (kvsArrive_body harr hbody)
    · simp at hev
    · simp at hev
  | begins w hna harr effect =>
    have hserved : Served mw na e := hna ▸ effect ▸ kvsBegin_served harr
    exact .inr (hserved.answer hev hbody)
  | wakes hd hna hwait effect =>
    have hserved : Served mw na e := hna ▸ effect ▸ kvsWake_served hwait
    exact .inr (hserved.answer hev hbody)
  | other quiet => simpa [Event.isVote] using quiet.events _ hev

end MiddleWare

namespace Cluster

/-! ### Every entry and every value -/

/-- Node `i` has had the request, and it has been elected. -/
def Asked (s : Cluster Ip) (i : Ip) (r : Request) : Prop :=
  (i, .invoked r) ∈ s.trace ∧ ∃ t, (i, .becameMaster t) ∈ s.trace

/-- Some master has been asked for the entry. -/
def Requested (s : Cluster Ip) (x : RaftLogEntry) : Prop := ∃ i r, s.Asked i r ∧ r.Asks x

/-- Some master has been asked to give the key the value. -/
def Written (s : Cluster Ip) (key value : String) : Prop :=
  ∃ i r, s.Asked i r ∧ r.Writes key value

structure ValidInv (s : Cluster Ip) : Prop where
  chained : ∀ j, (s.node j).raftLog.Chained
  master : ∀ j, (s.node j).state = .MASTER → ∃ t, (j, .becameMaster t) ∈ s.trace
  opened : ∀ j, ∀ w ∈ (s.node j).openCalls, s.Asked j w.toRequest
  logs : ∀ j, ∀ x ∈ (s.node j).raftLog.log, s.Requested x ∧ x.term ≤ (s.node j).term
  packets : ∀ src dst session mean t x, ⟨src, dst, .replicate session mean t x⟩ ∈ s.net →
    mean = .logappend ∨ mean = .logcommit → s.Requested x ∧ x.term ≤ t
  store : ∀ j key value, (s.node j).kvs key = some value → s.Written key value
  answers : ∀ j id resp logged key value, (j, .answered id resp logged) ∈ s.trace →
    resp.body = .json key (some value) → s.Written key value

lemma validInv_init (n : Nat) : (init n).ValidInv where
  chained := fun _ => Logger.chained_fresh
  master := by simp [init, MiddleWare.init]
  opened := by simp [init, MiddleWare.init, MiddleWare.openCalls]
  logs := by simp [init, MiddleWare.init, Logger.fresh, Logger.log]
  packets := by simp [init]
  store := by simp [init, MiddleWare.init, Kvs.empty]
  answers := by simp [init]

variable {s : Cluster Ip} {i : Ip} {na : NodeAct Ip} {net : List (Packet Ip)} {e : Effect Ip}

lemma Asked.mono {s' : Cluster Ip} (htrace : s.trace ⊆ s'.trace) {r : Request} (h : s.Asked i r) :
    s'.Asked i r := ⟨htrace h.1, h.2.imp fun _ ht => htrace ht⟩

lemma Requested.mono {s' : Cluster Ip} (htrace : s.trace ⊆ s'.trace) {x : RaftLogEntry}
    (h : s.Requested x) : s'.Requested x := by
  obtain ⟨i, r, hasked, hasks⟩ := h
  exact ⟨i, r, hasked.mono htrace, hasks⟩

lemma Written.mono {s' : Cluster Ip} (htrace : s.trace ⊆ s'.trace) {key value : String}
    (h : s.Written key value) : s'.Written key value := by
  obtain ⟨i, r, hasked, hwrites⟩ := h
  exact ⟨i, r, hasked.mono htrace, hwrites⟩

lemma Requested.of_payload {x y : RaftLogEntry} (h : s.Requested x)
    (hpay : y.payload = x.payload) : s.Requested y := by
  obtain ⟨i, r, hasked, hasks⟩ := h
  exact ⟨i, r, hasked, hasks.of_payload hpay⟩

lemma ValidInv.carriesOp (h : s.ValidInv)
    (hrecv : ∀ src msg, na = .recv src msg → ⟨src, i, msg⟩ ∈ s.net) (src : Ip) (session : Nat)
    (mean : Mean) (t : Nat) (x : RaftLogEntry)
    (hna : na = .recv src (.replicate session mean t x)) : MiddleWare.CarriesOp mean x := by
  intro hmean
  obtain ⟨⟨_, _, -, hasks⟩, -⟩ := h.packets _ _ _ _ _ _ (hrecv _ _ hna) hmean
  exact hasks.op

variable [DecidableEq Ip]

lemma trace_subset_after (s : Cluster Ip) (net : List (Packet Ip)) (i : Ip) (e : Effect Ip) :
    s.trace ⊆ ({ s with net := net }.after i e).trace := List.subset_append_left _ _

/-- An entry that is new in the log of a node has been asked for. -/
lemma ValidInv.log_after (h : s.ValidInv) (hact : (s.node i).act na = some e)
    (hrecv : ∀ src msg, na = .recv src msg → ⟨src, i, msg⟩ ∈ s.net) {x : RaftLogEntry}
    (hx : x ∈ e.mw.raftLog.log) : s.Requested x ∧ x.term ≤ e.mw.term := by
  have hterm : (s.node i).term ≤ e.mw.term := (MiddleWare.act_ballot hact).term_le
  rcases (MiddleWare.act_log hact).mem_log (h.chained i) hx with
    hold | ⟨y, hy, hpay⟩ | ⟨src, session, mean, t, y, hna, hmean, hs, ht, hpay⟩
  · exact ⟨(h.logs i x hold).1, (h.logs i x hold).2.trans hterm⟩
  · obtain ⟨w, hna, hasks, hyterm⟩ := MiddleWare.logging_asks hy
    have harr : w ∈ (s.node i).openCalls := by
      subst hna
      cases MiddleWare.act_cases hact with
      | kvsBegin _ arrived => exact List.mem_append_left _ arrived
    have hxterm : x.term = y.term := congrArg (·.2.2.2.2) hpay
    exact ⟨⟨i, w.toRequest, h.opened i w harr, hasks.of_payload hpay⟩, by omega⟩
  · obtain ⟨hreq, hyterm⟩ := h.packets _ _ _ _ _ _ (hrecv _ _ hna) hmean
    have hxterm : x.term = y.term := congrArg (·.2.2.2.2) hpay
    have ht : t ≤ e.mw.term := by
      subst hna
      cases MiddleWare.act_cases hact with
      | replicate => exact MiddleWare.le_handleReplicate_term hs _ _ _ _
    exact ⟨hreq.of_payload hpay, by omega⟩

lemma ValidInv.packet_after (h : s.ValidInv) (hact : (s.node i).act na = some e) {dst : Ip}
    {session : Nat} {mean : Mean} {t : Nat} {x : RaftLogEntry}
    (hp : (dst, .replicate session mean t x) ∈ e.sent)
    (hmean : mean = .logappend ∨ mean = .logcommit) : s.Requested x ∧ x.term ≤ t := by
  obtain ⟨⟨nr, hmsg⟩, rfl⟩ : (∃ nr, (s.node i).sessionMsg nr dst = some (mean, x)) ∧
      t = (s.node i).term := by
    cases MiddleWare.act_cases hact with
    | request method key value rand => simp [MiddleWare.request_sent] at hp
    | sessionSend ses =>
      obtain ⟨mean', log, heq, hmsg⟩ :=
        MiddleWare.sessionMsgs_replicate (s.node i) ses (s.node i).otherIp _ hp
      simp only [Msg.replicate.injEq] at heq
      obtain ⟨-, rfl, rfl, rfl⟩ := heq
      exact ⟨⟨ses.nr, hmsg⟩, rfl⟩
    | _ => simp at hp
  rcases MiddleWare.sessionMsg_entry (h.chained i) hmsg with
    ⟨-, hget⟩ | ⟨-, hget⟩ | rfl
  · exact h.logs i x (List.mem_of_getElem? (Logger.log_of_file hget))
  · exact h.logs i x (List.mem_of_getElem? hget)
  · simp at hmean

lemma ValidInv.store_after (h : s.ValidInv) (hact : (s.node i).act na = some e)
    (hrecv : ∀ src msg, na = .recv src msg → ⟨src, i, msg⟩ ∈ s.net) {key value : String}
    (hv : e.mw.kvs key = some value) : s.Written key value := by
  have hopen : (∃ w ∈ (s.node i).openCalls, w.toRequest.Writes key value) → s.Written key value :=
    fun ⟨w, hw, hwrites⟩ => ⟨i, w.toRequest, h.opened i w hw, hwrites⟩
  rcases MiddleWare.act_store hact hv with hold | hcall | hsets
  · exact h.store i key value hold
  · exact hopen hcall
  · have hc := (MiddleWare.act_log hact).chained (h.chained i) (h.carriesOp hrecv)
    have hne : e.mw.raftLog.file ≠ [] := by
      intro hnil
      have hzero : e.mw.raftLog.lastOp = .zero := Logger.lastEntry_nil hc hnil
      rw [hzero] at hsets
      rcases hsets.1 with hop | hop <;> simp [RaftLogEntry.zero] at hop
    have hmem : e.mw.raftLog.lastOp ∈ e.mw.raftLog.log := by
      rw [Logger.lastOp, hc.last, List.getLast?_eq_some_getLast hne]
      exact e.mw.raftLog.file_prefix_log.subset (List.getLast_mem hne)
    obtain ⟨⟨j, r, hasked, hasks⟩, -⟩ := h.log_after hact hrecv hmem
    exact ⟨j, r, hasked, hasks.writes hsets⟩

lemma ValidInv.after (h : s.ValidInv) (hact : (s.node i).act na = some e) (hnet : net ⊆ s.net)
    (hrecv : ∀ src msg, na = .recv src msg → ⟨src, i, msg⟩ ∈ s.net) :
    ({ s with net := net }.after i e).ValidInv := by
  have htrace := s.trace_subset_after net i e
  have hnew : ∀ ev ∈ e.events, (i, ev) ∈ ({ s with net := net }.after i e).trace :=
    fun ev hev => mem_after_trace.2 (.inr ⟨rfl, hev⟩)
  refine ⟨?_, ?_, ?_, ?_, ?_, ?_, ?_⟩
  · intro j
    by_cases hj : j = i
    · subst hj
      rw [after_node_self]
      exact (MiddleWare.act_log hact).chained (h.chained j) (h.carriesOp hrecv)
    · rw [after_node_ne _ _ hj]
      exact h.chained j
  · intro j hs
    by_cases hj : j = i
    · subst hj
      rw [after_node_self] at hs
      rcases MiddleWare.act_master hact hs with rfl | ⟨hold, -⟩
      · cases MiddleWare.act_cases hact with
        | electionWin term => exact ⟨term, hnew _ (List.mem_singleton_self _)⟩
      · exact (h.master j hold).imp fun _ ht => htrace ht
    · rw [after_node_ne _ _ hj] at hs
      exact (h.master j hs).imp fun _ ht => htrace ht
  · intro j w hw
    by_cases hj : j = i
    · subst hj
      rw [after_node_self] at hw
      rcases (MiddleWare.act_calls hact).mem_openCalls hw with hold | ⟨hs, hev⟩
      · exact (h.opened j w hold).mono htrace
      · exact ⟨hnew _ hev, (h.master j hs).imp fun _ ht => htrace ht⟩
    · rw [after_node_ne _ _ hj] at hw
      exact (h.opened j w hw).mono htrace
  · intro j x hx
    by_cases hj : j = i
    · subst hj
      rw [after_node_self] at hx ⊢
      exact (h.log_after hact hrecv hx).imp_left (Requested.mono htrace)
    · rw [after_node_ne _ _ hj] at hx ⊢
      exact (h.logs j x hx).imp_left (Requested.mono htrace)
  · intro src dst session mean t x hp hmean
    rcases mem_after_net.1 hp with hold | ⟨rfl, hsent⟩
    · exact (h.packets _ _ _ _ _ _ (hnet hold) hmean).imp_left (Requested.mono htrace)
    · exact (h.packet_after hact hsent hmean).imp_left (Requested.mono htrace)
  · intro j key value hv
    by_cases hj : j = i
    · subst hj
      rw [after_node_self] at hv
      exact (h.store_after hact hrecv hv).mono htrace
    · rw [after_node_ne _ _ hj] at hv
      exact (h.store j key value hv).mono htrace
  · intro j id resp logged key value hev hbody
    rcases mem_after_trace.1 hev with hold | ⟨rfl, hans⟩
    · exact (h.answers j id resp logged key value hold hbody).mono htrace
    · rcases MiddleWare.act_answer hact hans hbody with hstore | ⟨w, hw, hwrites⟩
      · exact (h.store j key value hstore).mono htrace
      · exact ⟨j, w.toRequest, (h.opened j w hw).mono htrace, hwrites⟩

/-- What a node has committed stays, and its term does not go down. -/
lemma ValidInv.keeps (h : s.ValidInv) (hact : (s.node i).act na = some e)
    (hrecv : ∀ src msg, na = .recv src msg → ⟨src, i, msg⟩ ∈ s.net) (net : List (Packet Ip))
    (j : Ip) : s.files j <+: ({ s with net := net }.after i e).files j ∧
      (s.node j).term ≤ (({ s with net := net }.after i e).node j).term := by
  unfold files
  by_cases hj : j = i
  · subst hj
    rw [after_node_self]
    refine ⟨?_, (MiddleWare.act_ballot hact).term_le⟩
    rcases (MiddleWare.act_log hact).file (h.chained j) (h.carriesOp hrecv) with hf | ⟨x, hf, -⟩
    · exact hf ▸ List.prefix_rfl
    · exact hf ▸ List.prefix_append _ _
  · rw [after_node_ne _ _ hj]
    exact ⟨List.prefix_rfl, le_rfl⟩

/-! ### Runs -/

variable {n : Nat}

lemma lift_true {s s' : Cluster (Fin (n + 1))} (h : Reach step s s') :
    Run step (Lift fun _ _ _ => True) s s' :=
  h.mono fun s a _ => by
    unfold Lift
    split <;> trivial

lemma validInv_run {s : Cluster (Fin (n + 1))} (h : Reach step (init n) s) : s.ValidInv :=
  Cluster.invariant (lift_true h) (validInv_init n)
    fun _ _ _ _ _ hs _ hact hnet hrecv => hs.after hact hnet hrecv

/-- What is in a log, in a store or in an answer, a client has asked an elected master for, and no
node has an entry of a term that it has not reached. -/
theorem nothing_invented {s : Cluster (Fin (n + 1))} (h : Reach step (init n) s) :
    (∀ j, ∀ x ∈ (s.node j).raftLog.log, x.term ≤ (s.node j).term ∧ s.Requested x) ∧
    (∀ j key value, (s.node j).kvs.read key = some value → s.Written key value) ∧
    ∀ j id resp logged key value, (j, .answered id resp logged) ∈ s.trace →
      resp.body = .json key (some value) → s.Written key value := by
  have hinv := validInv_run h
  exact ⟨fun j x hx => ⟨(hinv.logs j x hx).2, (hinv.logs j x hx).1⟩, hinv.store, hinv.answers⟩

theorem nothing_invented_three : ∃ s : Cluster (Fin 3), Reach step (init 2) s ∧
    s.Requested (firstEntry "k" "x" 1) ∧ (s.node 2).kvs.read "k" = some "x" ∧
    s.Written "k" "x" := by
  obtain ⟨s, hrun, hfile, hread⟩ : ∃ s, Reach step (init 2) s ∧
      (firstEntry "k" "x" 1 ∈ (s.node (2 : Fin 3)).raftLog.file ∧
        (s.node (2 : Fin 3)).kvs.read "k" = some "x") :=
    exists_of_exec replicated (by decide)
  obtain ⟨hlogs, hstores, -⟩ := nothing_invented hrun
  exact ⟨s, hrun, (hlogs 2 _ (List.mem_append_left _ hfile)).2, hread, hstores 2 _ _ hread⟩

end Cluster

end TiPI.DB
