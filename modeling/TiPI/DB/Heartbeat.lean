import TiPI.DB.Ballots

/-!
# The quorum of a heartbeat session

`SendReplicate` gets one answer to a message at most, from the peer it was sent to. A session
counts the responses `SendReplicate` makes out of the answers, so it counts a peer that has refused
the message as well.
-/

namespace TiPI.DB

variable {Ip : Type}

/-- Peer and session of the replication messages among the packets sent. -/
def requests (sent : List (Ip × Msg)) : List (Ip × Nat) :=
  sent.filterMap fun
    | (dst, .replicate session _ _ _) => some (dst, session)
    | _ => none

/-- The answer that an action takes in: the peer, the session and the answer. -/
def NodeAct.answer : NodeAct Ip → Option (Ip × Nat × Answer)
  | .recv src (.replicateRsp session a) => some (src, session, a)
  | _ => none

/-- A node and the HTTP requests of its sessions. -/
structure Exchange (Ip : Type) where
  mw : MiddleWare Ip
  /-- the messages without an answer, by peer and session -/
  pending : List (Ip × Nat)
  /-- the answers so far -/
  answers : List (Ip × Nat × Answer)

namespace Exchange

def start (mw : MiddleWare Ip) : Exchange Ip := ⟨mw, [], []⟩

/-- The node after an action; what it has sent waits for answers. -/
def after (x : Exchange Ip) (e : Effect Ip) : Exchange Ip :=
  { x with mw := e.mw, pending := x.pending ++ requests e.sent }

variable [DecidableEq Ip]

/-- An answer belongs to a message that waits for one. Any message may stay without. -/
def step (x : Exchange Ip) (na : NodeAct Ip) : Option (Exchange Ip) :=
  match na.answer with
  | none => (x.mw.act na).map x.after
  | some (src, session, a) =>
    if (src, session) ∈ x.pending then
      (x.mw.act na).map
        ({ x with
          pending := x.pending.erase (src, session)
          answers := x.answers ++ [(src, session, a)] }.after)
    else none

end Exchange

namespace MiddleWare

lemma requests_eq_nil {sent : List (Ip × Msg)}
    (h : ∀ dst session mean t entry, (dst, .replicate session mean t entry) ∉ sent) :
    requests sent = [] := by
  rw [requests, List.filterMap_eq_nil_iff]
  rintro ⟨dst, msg⟩ hmem
  cases msg with
  | replicate session mean t entry => exact absurd hmem (h dst session mean t entry)
  | replicateRsp session a => rfl
  | vote c => rfl
  | voteRsp elTerm a => rfl

/-- A session asks each peer once, up to the one at which the process ends. -/
lemma requests_sessionMsgs (mw : MiddleWare Ip) (s : Session) (peers : List Ip) :
    ∃ asked, asked <+: peers ∧
      requests (mw.sessionMsgs s peers).1 = asked.map fun peer => (peer, s.id) := by
  induction peers with
  | nil => exact ⟨[], List.prefix_rfl, rfl⟩
  | cons peer peers ih =>
    obtain ⟨asked, hpre, hasked⟩ := ih
    simp only [sessionMsgs]
    split
    · exact ⟨[], List.nil_prefix, rfl⟩
    · next mean log _ =>
      exact ⟨peer :: asked, (List.prefix_cons_inj peer).mpr hpre, by simpa [requests] using hasked⟩

variable [DecidableEq Ip]

/-- What an action does to the heartbeat sessions and asks of the peers. -/
inductive SessionCase (mw : MiddleWare Ip) (na : NodeAct Ip) (e : Effect Ip) : Prop
  | same (sessions : e.mw.sessions = mw.sessions) (next : e.mw.nextSession = mw.nextSession)
      (asked : requests e.sent = [])
  | opens (i : Nat)
      (sessions : e.mw.sessions = mw.sessions ++ [⟨mw.nextSession, i, false, 0, false⟩])
      (next : e.mw.nextSession = mw.nextSession + 1) (asked : requests e.sent = [])
  | asks (s : Session) (found : mw.sessions.find? (·.id = s.id) = some s)
      (unsent : s.sent = false)
      (sessions : (e.mw.running = false ∧ e.mw.sessions = mw.sessions) ∨
        e.mw.sessions = (mw.setSession { s with sent := true }).sessions)
      (next : e.mw.nextSession = mw.nextSession)
      (asked : e.sent = (mw.sessionMsgs s mw.otherIp).1)
  | closes (id : Nat) (sessions : e.mw.sessions = (mw.dropSession id).sessions)
      (next : e.mw.nextSession = mw.nextSession) (asked : requests e.sent = [])
  | counts (src : Ip) (a : Answer) (s : Session) (hna : na = .recv src (.replicateRsp s.id a))
      (found : mw.sessions.find? (·.id = s.id) = some s) (sent : s.sent = true)
      (sessions : e.mw.sessions = (mw.setSession (mw.collect s (sendReplicate src a)).2).sessions)
      (next : e.mw.nextSession = mw.nextSession) (asked : requests e.sent = [])

omit [DecidableEq Ip] in
lemma collected_sessions (mw : MiddleWare Ip) (s : Session) :
    (mw.collected s).sessions = (mw.dropSession s.id).sessions ∧
      (mw.collected s).nextSession = mw.nextSession := by
  simp only [collected]
  split <;> exact ⟨rfl, rfl⟩

lemma act_sessions {mw : MiddleWare Ip} {na : NodeAct Ip} {e : Effect Ip}
    (h : mw.act na = some e) : SessionCase mw na e := by
  cases act_cases h with
  | request method key value rand =>
    obtain ⟨arrived, hmw⟩ := request_frame mw method key value rand
    exact .same (by rw [hmw]) (by rw [hmw]) (by rw [request_sent]; rfl)
  | kvsBegin r =>
    obtain ⟨kvs, raftLog, locked, waiting, hmw⟩ := kvsBegin_frame mw r
    exact .same (by rw [hmw]) (by rw [hmw]) rfl
  | kvsWake hd =>
    obtain ⟨kvs, raftLog, locked, waiting, hmw⟩ := kvsWake_frame mw hd
    exact .same (by rw [hmw]) (by rw [hmw]) rfl
  | loopMaster | loopCondidate | loopSlave | consumerTimer | consumerDone | electionStop
  | electionWin | resign | producerDone | late => exact .same rfl rfl rfl
  | electionStart =>
    refine .same rfl rfl (requests_eq_nil ?_)
    intro dst session mean t entry hmem
    simp at hmem
  | beat i => exact .opens i rfl rfl rfl
  | sessionSend s found unsent =>
    refine .asks s found unsent ?_ ?_ rfl
    · dsimp only
      split
      · exact Or.inr rfl
      · exact Or.inl ⟨rfl, rfl⟩
    · dsimp only
      split <;> rfl
  | sessionDone s | sessionKept s =>
    obtain ⟨hsessions, hnext⟩ := collected_sessions mw s
    exact .closes s.id hsessions hnext rfl
  | sessionLost s => exact .closes s.id rfl rfl rfl
  | replicate src session mean t entry =>
    obtain ⟨_, _, _, _, _, _, _, hmw⟩ := handleReplicate_frame mw src mean t entry
    refine .same (by rw [hmw]) (by rw [hmw]) (requests_eq_nil ?_)
    intro dst session mean t entry hmem
    simp at hmem
  | response src a s found sent =>
    obtain ⟨sentLen, commitLen, hmw⟩ := collect_frame mw s (sendReplicate src a)
    refine .counts src a s rfl found sent ?_ ?_ rfl
    · simp only [hmw, setSession]
    · simp only [hmw, setSession]
  | vote src c =>
    have hmw : (mw.handleVoteRequest src c).1.sessions = mw.sessions ∧
        (mw.handleVoteRequest src c).1.nextSession = mw.nextSession := by
      simp only [handleVoteRequest]
      split <;> exact ⟨rfl, rfl⟩
    refine .same hmw.1 hmw.2 (requests_eq_nil ?_)
    intro dst session mean t entry hmem
    simp at hmem
  | voteRsp src t a =>
    obtain ⟨routine, hmw⟩ := electionRsp_frame mw src t a
    exact .same (by rw [hmw]) (by rw [hmw]) rfl

/-- An answer adds one response at most, and none to a session that has all of them. -/
lemma collect_session (mw : MiddleWare Ip) (s : Session) (src : Ip) (a : Answer) :
    (mw.collect s (sendReplicate src a)).2.id = s.id ∧
      (mw.collect s (sendReplicate src a)).2.sent = s.sent ∧
      ((mw.collect s (sendReplicate src a)).2.nrResponses = s.nrResponses ∨
        (s.nrResponses < mw.otherIp.length ∧
          (mw.collect s (sendReplicate src a)).2.nrResponses = s.nrResponses + 1)) := by
  have hok : ∀ len ans, (mw.collect s [.ok src len ans]).2.id = s.id ∧
      (mw.collect s [.ok src len ans]).2.sent = s.sent ∧
      ((mw.collect s [.ok src len ans]).2.nrResponses = s.nrResponses ∨
        (s.nrResponses < mw.otherIp.length ∧
          (mw.collect s [.ok src len ans]).2.nrResponses = s.nrResponses + 1)) := by
    intro len ans
    simp only [collect]
    split
    · next hlt =>
      simp only [collectOk]
      split
      · exact ⟨rfl, rfl, Or.inr ⟨hlt, rfl⟩⟩
      · split <;> exact ⟨rfl, rfl, Or.inr ⟨hlt, rfl⟩⟩
    · exact ⟨rfl, rfl, Or.inl rfl⟩
  have hone : ∃ len ans, mw.collect s (sendReplicate src a) = mw.collect s [.ok src len ans] := by
    unfold sendReplicate
    cases a.body with
    | none => exact ⟨0, false, by split <;> rfl⟩
    | some body => exact ⟨body.1, body.2, by split <;> rfl⟩
  obtain ⟨len, ans, hone⟩ := hone
  rw [hone]
  exact hok len ans

omit [DecidableEq Ip] in
lemma setSession_ids (mw : MiddleWare Ip) (s : Session) :
    (mw.setSession s).sessions.map (·.id) = mw.sessions.map (·.id) := by
  simp only [setSession, List.map_map]
  refine List.map_congr_left fun t _ => ?_
  by_cases ht : t.id = s.id <;> simp [ht]

omit [DecidableEq Ip] in
lemma mem_setSession {mw : MiddleWare Ip} {s t : Session} (h : t ∈ (mw.setSession s).sessions) :
    t = s ∨ (t ∈ mw.sessions ∧ t.id ≠ s.id) := by
  obtain ⟨t', ht', heq⟩ := List.mem_map.mp h
  split at heq
  · exact Or.inl heq.symm
  · next hne =>
    obtain rfl := heq
    exact Or.inr ⟨ht', hne⟩

section

variable {mw : MiddleWare Ip} {na : NodeAct Ip} {e : Effect Ip}

/-- Where a session comes from. -/
lemma SessionCase.mem (h : SessionCase mw na e) {t : Session} (ht : t ∈ e.mw.sessions) :
    (∃ s ∈ mw.sessions, t.id = s.id ∧ (s.sent = true → t.sent = true) ∧
      t.nrResponses = s.nrResponses) ∨
    (t.id = mw.nextSession ∧ e.mw.nextSession = mw.nextSession + 1 ∧ t.nrResponses = 0) ∨
    ∃ src a, ∃ s ∈ mw.sessions, na = .recv src (.replicateRsp s.id a) ∧
      s.nrResponses < mw.otherIp.length ∧ t.id = s.id ∧ t.sent = s.sent ∧
      t.nrResponses = s.nrResponses + 1 := by
  cases h with
  | same sessions => exact Or.inl ⟨t, sessions ▸ ht, rfl, id, rfl⟩
  | opens i sessions next =>
    rw [sessions, List.mem_append, List.mem_singleton] at ht
    rcases ht with ht | rfl
    · exact Or.inl ⟨t, ht, rfl, id, rfl⟩
    · exact Or.inr (Or.inl ⟨rfl, next, rfl⟩)
  | asks s found unsent sessions =>
    rcases sessions with ⟨-, hs⟩ | hs
    · exact Or.inl ⟨t, hs ▸ ht, rfl, id, rfl⟩
    · rcases mem_setSession (hs ▸ ht) with rfl | ⟨hmem, -⟩
      · exact Or.inl ⟨s, List.mem_of_find?_eq_some found, rfl, fun _ => rfl, rfl⟩
      · exact Or.inl ⟨t, hmem, rfl, id, rfl⟩
  | closes id' sessions =>
    rw [sessions] at ht
    exact Or.inl ⟨t, (List.mem_filter.mp ht).1, rfl, id, rfl⟩
  | counts src a s hna found sent sessions =>
    have hs := List.mem_of_find?_eq_some found
    rcases mem_setSession (sessions ▸ ht) with rfl | ⟨hmem, -⟩
    · obtain ⟨hid, hsent, hnr | ⟨hlt, hnr⟩⟩ := collect_session mw s src a
      · exact Or.inl ⟨s, hs, hid, fun h => hsent.trans h, hnr⟩
      · exact Or.inr (Or.inr ⟨src, a, s, hs, hna, hlt, hid, hsent, hnr⟩)
    · exact Or.inl ⟨t, hmem, rfl, id, rfl⟩

lemma SessionCase.next_le (h : SessionCase mw na e) : mw.nextSession ≤ e.mw.nextSession := by
  cases h with
  | same _ next => exact next.ge
  | opens _ _ next => omega
  | asks _ _ _ _ next => exact next.ge
  | closes _ _ next => exact next.ge
  | counts _ _ _ _ _ _ _ next => exact next.ge

lemma SessionCase.nodup (h : SessionCase mw na e) (hnodup : (mw.sessions.map (·.id)).Nodup)
    (hfresh : ∀ s ∈ mw.sessions, s.id < mw.nextSession) :
    (e.mw.sessions.map (·.id)).Nodup := by
  cases h with
  | same sessions => rwa [sessions]
  | opens i sessions =>
    rw [sessions, List.map_append, List.nodup_append_comm]
    refine List.nodup_cons.mpr ⟨?_, hnodup⟩
    intro hmem
    obtain ⟨s, hs, heq⟩ := List.mem_map.mp hmem
    exact absurd (hfresh s hs) (by simp [heq])
  | asks s _ _ sessions =>
    rcases sessions with ⟨-, hs⟩ | hs
    · rwa [hs]
    · rwa [hs, setSession_ids]
  | closes id sessions =>
    rw [sessions]
    exact hnodup.sublist (List.filter_sublist.map _)
  | counts src a s _ _ _ sessions => rwa [sessions, setSession_ids]

end

end MiddleWare

namespace Exchange

/-- The messages that have been sent, by peer and session. -/
def asked (x : Exchange Ip) : List (Ip × Nat) :=
  x.pending ++ x.answers.map fun y => (y.1, y.2.1)

/-- The peers that have answered the message of a session with status `200`. -/
def okPeers (x : Exchange Ip) (id : Nat) : List Ip :=
  (x.answers.filter fun y => y.2.1 = id ∧ y.2.2.status = 200).map Prod.fst

lemma mem_okPeers {x : Exchange Ip} {id : Nat} {p : Ip} :
    p ∈ x.okPeers id ↔ ∃ a, (p, id, a) ∈ x.answers ∧ a.status = 200 := by
  simp only [okPeers, List.mem_map, List.mem_filter, decide_eq_true_eq, Prod.exists]
  constructor
  · rintro ⟨q, id', a, ⟨hmem, rfl, hstatus⟩, rfl⟩
    exact ⟨a, hmem, hstatus⟩
  · rintro ⟨a, hmem, hstatus⟩
    exact ⟨p, id, a, ⟨hmem, rfl, hstatus⟩, rfl⟩

/-- A peer answers a message once. -/
lemma nodup_okPeers {x : Exchange Ip} (h : x.asked.Nodup) (id : Nat) : (x.okPeers id).Nodup := by
  have hanswers : (x.answers.map fun y => (y.1, y.2.1)).Nodup := (List.nodup_append.mp h).2.1
  refine List.Nodup.map_on ?_ (hanswers.of_map.filter _)
  intro y hy z hz heq
  simp only [List.mem_filter, decide_eq_true_eq] at hy hz
  exact List.inj_on_of_nodup_map hanswers hy.1 hz.1 (Prod.ext heq (hy.2.1.trans hz.2.1.symm))

variable [DecidableEq Ip]

lemma step_inv {x x' : Exchange Ip} {na : NodeAct Ip} (h : x.step na = some x') :
    ∃ e, x.mw.act na = some e ∧ x'.mw = e.mw ∧
      x'.asked.Perm (x.asked ++ requests e.sent) ∧
      x'.answers = x.answers ++ na.answer.toList := by
  unfold step at h
  split at h
  · next hans =>
    obtain ⟨e, he, rfl⟩ := Option.map_eq_some_iff.mp h
    refine ⟨e, he, rfl, ?_, by simp [after, hans]⟩
    simp only [asked, after, List.append_assoc]
    exact List.Perm.append_left _ List.perm_append_comm
  · next src session a hans =>
    simp only [Option.ite_none_right_eq_some] at h
    obtain ⟨hmem, h⟩ := h
    obtain ⟨e, he, rfl⟩ := Option.map_eq_some_iff.mp h
    refine ⟨e, he, rfl, ?_, by simp [after, hans]⟩
    have hperm := List.perm_cons_erase hmem
    rw [List.perm_iff_count]
    intro y
    have hcount := hperm.count_eq y
    simp only [asked, after, List.map_append, List.map_cons, List.map_nil, List.count_append,
      List.count_cons, List.count_nil] at hcount ⊢
    omega

/-- Only answers with status `200` are counted. -/
def CountsOk (x : Exchange Ip) (na : NodeAct Ip) : Prop :=
  ∀ y ∈ na.answer, ∀ s ∈ x.mw.sessions, s.id = y.2.1 → s.nrResponses < x.mw.otherIp.length →
    y.2.2.status = 200

instance (x : Exchange Ip) (na : NodeAct Ip) : Decidable (x.CountsOk na) :=
  inferInstanceAs (Decidable (∀ y ∈ na.answer, _))

omit [DecidableEq Ip] in
structure BeatInv (otherIp : List Ip) (x : Exchange Ip) : Prop where
  peers : x.mw.otherIp = otherIp
  ids : (x.mw.sessions.map (·.id)).Nodup
  fresh : ∀ s ∈ x.mw.sessions, s.id < x.mw.nextSession
  once : x.asked.Nodup
  known : ∀ p id, (p, id) ∈ x.asked → p ∈ otherIp ∧ id < x.mw.nextSession
  sent : x.mw.running = true → ∀ s ∈ x.mw.sessions, ∀ p, (p, s.id) ∈ x.asked → s.sent = true
  counted : ∀ s ∈ x.mw.sessions, s.nrResponses ≤ (x.okPeers s.id).length

omit [DecidableEq Ip] in
lemma beatInv_start (selfIp : Ip) (otherIp : List Ip) :
    BeatInv otherIp (start (.init selfIp otherIp)) := by
  constructor <;> simp [start, MiddleWare.init, asked]

variable {otherIp : List Ip} {x x' : Exchange Ip} {na : NodeAct Ip} {e : Effect Ip}

omit [DecidableEq Ip] in
lemma mem_requests_asks {mw : MiddleWare Ip} {s : Session} {p : Ip} {id : Nat}
    (h : (p, id) ∈ requests (mw.sessionMsgs s mw.otherIp).1) : p ∈ mw.otherIp ∧ id = s.id := by
  obtain ⟨asked, hpre, hasked⟩ := MiddleWare.requests_sessionMsgs mw s mw.otherIp
  rw [hasked, List.mem_map] at h
  obtain ⟨q, hq, heq⟩ := h
  obtain ⟨rfl, rfl⟩ := Prod.mk.inj heq
  exact ⟨hpre.subset hq, rfl⟩

lemma BeatInv.once_after (h : BeatInv otherIp x) (hnodup : otherIp.Nodup)
    (hact : x.mw.act na = some e) (hperm : x'.asked.Perm (x.asked ++ requests e.sent)) :
    x'.asked.Nodup := by
  rw [hperm.nodup_iff]
  cases MiddleWare.act_sessions hact with
  | same _ _ asked => simpa [asked] using h.once
  | opens _ _ _ asked => simpa [asked] using h.once
  | closes _ _ _ asked => simpa [asked] using h.once
  | counts _ _ _ _ _ _ _ _ asked => simpa [asked] using h.once
  | asks s found unsent sessions next asked =>
    rw [asked]
    obtain ⟨peers, hpre, hpeers⟩ := MiddleWare.requests_sessionMsgs x.mw s x.mw.otherIp
    rw [List.nodup_append]
    refine ⟨h.once, ?_, ?_⟩
    · rw [hpeers]
      refine List.Nodup.map (fun p q hpq => (Prod.mk.inj hpq).1) ?_
      exact (h.peers ▸ hnodup).sublist hpre.sublist
    · rintro ⟨p, id⟩ hold y hy rfl
      obtain ⟨-, rfl⟩ := mem_requests_asks hy
      have hsent := h.sent (MiddleWare.act_running hact) s (List.mem_of_find?_eq_some found) p hold
      simp [hsent] at unsent

lemma BeatInv.known_after (h : BeatInv otherIp x) (hact : x.mw.act na = some e)
    (hperm : x'.asked.Perm (x.asked ++ requests e.sent)) {p : Ip} {id : Nat}
    (hmem : (p, id) ∈ x'.asked) : p ∈ otherIp ∧ id < e.mw.nextSession := by
  have hcase := MiddleWare.act_sessions hact
  have hle := hcase.next_le
  rw [hperm.mem_iff, List.mem_append] at hmem
  rcases hmem with hold | hnew
  · obtain ⟨hp, hid⟩ := h.known p id hold
    exact ⟨hp, hid.trans_le hle⟩
  · cases hcase with
    | same _ _ asked => simp [asked] at hnew
    | opens _ _ _ asked => simp [asked] at hnew
    | closes _ _ _ asked => simp [asked] at hnew
    | counts _ _ _ _ _ _ _ _ asked => simp [asked] at hnew
    | asks s found unsent sessions next asked =>
      rw [asked] at hnew
      obtain ⟨hp, rfl⟩ := mem_requests_asks hnew
      exact ⟨h.peers ▸ hp, (h.fresh s (List.mem_of_find?_eq_some found)).trans_le hle⟩

lemma BeatInv.sent_after (h : BeatInv otherIp x) (hact : x.mw.act na = some e)
    (hperm : x'.asked.Perm (x.asked ++ requests e.sent)) (hrun : e.mw.running = true)
    {t : Session} (ht : t ∈ e.mw.sessions) {p : Ip} (hmem : (p, t.id) ∈ x'.asked) :
    t.sent = true := by
  have hbefore := h.sent (MiddleWare.act_running hact)
  have hcase := MiddleWare.act_sessions hact
  rw [hperm.mem_iff, List.mem_append] at hmem
  rcases hmem with hold | hnew
  · rcases hcase.mem ht with ⟨s, hs, hid, hsent, -⟩ | ⟨hid, -, -⟩ |
      ⟨src, a, s, hs, -, -, hid, hsent, -⟩
    · exact hsent (hbefore s hs p (hid ▸ hold))
    · have hlt := (h.known p t.id hold).2
      omega
    · rw [hsent]
      exact hbefore s hs p (hid ▸ hold)
  · cases hcase with
    | same _ _ asked => simp [asked] at hnew
    | opens _ _ _ asked => simp [asked] at hnew
    | closes _ _ _ asked => simp [asked] at hnew
    | counts _ _ _ _ _ _ _ _ asked => simp [asked] at hnew
    | asks s found unsent sessions next asked =>
      rw [asked] at hnew
      obtain ⟨-, hid⟩ := mem_requests_asks hnew
      rcases sessions with ⟨hstop, -⟩ | hs
      · simp [hstop] at hrun
      · rcases MiddleWare.mem_setSession (hs ▸ ht) with rfl | ⟨-, hne⟩
        · rfl
        · exact absurd hid hne

lemma BeatInv.counted_after (h : BeatInv otherIp x) (hok : x.CountsOk na)
    (hact : x.mw.act na = some e) (hans : x'.answers = x.answers ++ na.answer.toList)
    {t : Session} (ht : t ∈ e.mw.sessions) : t.nrResponses ≤ (x'.okPeers t.id).length := by
  have hpeers : x'.okPeers t.id = x.okPeers t.id ++
      (na.answer.toList.filter fun y => y.2.1 = t.id ∧ y.2.2.status = 200).map Prod.fst := by
    rw [okPeers, hans, List.filter_append, List.map_append]
    rfl
  rw [hpeers, List.length_append]
  rcases (MiddleWare.act_sessions hact).mem ht with ⟨s, hs, hid, -, hnr⟩ | ⟨-, -, hnr⟩ |
    ⟨src, a, s, hs, rfl, hlt, hid, -, hnr⟩
  · have hold := h.counted s hs
    rw [hid, hnr]
    omega
  · omega
  · have hold := h.counted s hs
    have hstatus : a.status = 200 := hok (src, s.id, a) rfl s hs rfl hlt
    rw [hid, hnr]
    simpa [NodeAct.answer, hstatus] using hold

lemma BeatInv.step (h : BeatInv otherIp x) (hnodup : otherIp.Nodup) (hok : x.CountsOk na)
    (hstep : x.step na = some x') : BeatInv otherIp x' := by
  obtain ⟨e, hact, hmw, hperm, hans⟩ := step_inv hstep
  have hcase := MiddleWare.act_sessions hact
  constructor
  · rw [hmw, (MiddleWare.act_ids hact).2]
    exact h.peers
  · rw [hmw]
    exact hcase.nodup h.ids h.fresh
  · rw [hmw]
    intro t ht
    have hle := hcase.next_le
    rcases hcase.mem ht with ⟨s, hs, hid, -⟩ | ⟨hid, hnext, -⟩ | ⟨src, a, s, hs, -, -, hid, -⟩
    · exact hid ▸ (h.fresh s hs).trans_le hle
    · omega
    · exact hid ▸ (h.fresh s hs).trans_le hle
  · exact h.once_after hnodup hact hperm
  · rw [hmw]
    exact fun p id => h.known_after hact hperm
  · rw [hmw]
    exact fun hrun t ht p => h.sent_after hact hperm hrun ht
  · rw [hmw]
    exact fun t ht => h.counted_after hok hact hans ht

omit [DecidableEq Ip] in
/-- The session that ends at the label `collected` in an action. -/
def ending (mw : MiddleWare Ip) : NodeAct Ip → Option Session
  | .sessionDone id => mw.sessions.find? (·.id = id)
  | .sessionTimer id =>
    (mw.sessions.find? (·.id = id)).filter fun s => (mw.otherIp.length + 1) / 2 ≤ s.nrResponses
  | _ => none

lemma ending_responses {s : Session} (hact : x.mw.act na = some e)
    (hend : ending x.mw na = some s) :
    s ∈ x.mw.sessions ∧ (x.mw.otherIp.length + 1) / 2 ≤ s.nrResponses := by
  cases MiddleWare.act_cases hact with
  | sessionDone s' found sent all =>
    obtain rfl : s' = s := by simpa [ending, found] using hend
    exact ⟨List.mem_of_find?_eq_some found, by omega⟩
  | sessionLost s' found sent few =>
    simp only [ending, found, Option.filter_some, Option.ite_none_right_eq_some] at hend
    exact absurd hend.1 (by simpa using few)
  | sessionKept s' found sent enough =>
    simp only [ending, found, Option.filter_some, Option.ite_none_right_eq_some,
      Option.some.injEq] at hend
    obtain ⟨-, rfl⟩ := hend
    exact ⟨List.mem_of_find?_eq_some found, enough⟩
  | _ => simp [ending] at hend

/-- Where only answers with status `200` are counted, a session ends at `collected` when half of
the peers, rounded up, have answered its message with status `200`. -/
theorem heartbeat_quorum (selfIp : Ip) (hnodup : otherIp.Nodup) {s : Session}
    (h : Run step CountsOk (start (.init selfIp otherIp)) x) (hstep : x.step na = some x')
    (hend : ending x.mw na = some s) :
    ∃ peers : List Ip, peers.Nodup ∧ peers ⊆ otherIp ∧
      (otherIp.length + 1) / 2 ≤ peers.length ∧
      ∀ p ∈ peers, ∃ a, (p, s.id, a) ∈ x.answers ∧ a.status = 200 := by
  have hinv : BeatInv otherIp x :=
    Run.invariant h (beatInv_start selfIp otherIp) fun _ _ _ hs hok => hs.step hnodup hok
  obtain ⟨e, hact, -⟩ := step_inv hstep
  obtain ⟨hs, henough⟩ := ending_responses hact hend
  refine ⟨x.okPeers s.id, nodup_okPeers hinv.once s.id, ?_, ?_, fun p => mem_okPeers.mp⟩
  · intro p hp
    obtain ⟨a, hmem, -⟩ := mem_okPeers.mp hp
    refine (hinv.known p s.id (List.mem_append_right _ ?_)).1
    exact List.mem_map.mpr ⟨_, hmem, rfl⟩
  · rw [hinv.peers] at henough
    exact henough.trans (hinv.counted s hs)

/-- Node `0` of three has won its election and has sent its first heartbeat. -/
def beating : List (NodeAct (Fin 3)) :=
  Solo.standing ++ [.electionWin, .mainLoop, .producerTimer, .sessionSend 0]

theorem heartbeat_quorum_three : ∃ (x x' : Exchange (Fin 3)) (s : Session),
    Run step CountsOk (start (.init 0 [1, 2])) x ∧ x.step (.sessionTimer 0) = some x' ∧
    ending x.mw (.sessionTimer 0) = some s ∧ ∃ peers : List (Fin 3), peers.Nodup ∧
      peers ⊆ [1, 2] ∧ 1 ≤ peers.length ∧
      ∀ p ∈ peers, ∃ a, (p, s.id, a) ∈ x.answers ∧ a.status = 200 := by
  obtain ⟨x, hrun, hstep, hend⟩ : ∃ x, Run step CountsOk (start (.init 0 [1, 2])) x ∧
      ((x.step (.sessionTimer 0)).isSome = true ∧
        ending x.mw (.sessionTimer 0) = some ⟨0, 0, true, 1, true⟩) :=
    exists_of_exec (beating ++ [.recv 1 (.replicateRsp 0 ⟨200, some (0, true)⟩)]) (by decide)
  obtain ⟨x', hx'⟩ := Option.isSome_iff_exists.mp hstep
  exact ⟨x, x', _, hrun, hx', hend, heartbeat_quorum 0 (by decide) hrun hx' hend⟩

/-- The one answer in time is a refusal. The node stays `MASTER` without a peer behind it. -/
theorem refusal_counted : ∃ (x x' : Exchange (Fin 3)) (s : Session),
    Reach step (start (.init 0 [1, 2])) x ∧ x.step (.sessionTimer 0) = some x' ∧
    ending x.mw (.sessionTimer 0) = some s ∧ x'.mw.state = .MASTER ∧
    ¬ ∃ peers : List (Fin 3), peers.Nodup ∧ peers ⊆ [1, 2] ∧ 1 ≤ peers.length ∧
      ∀ p ∈ peers, ∃ a, (p, s.id, a) ∈ x.answers ∧ a.status = 200 := by
  obtain ⟨x, hrun, hstep, hend, hans⟩ : ∃ x, Reach step (start (.init 0 [1, 2])) x ∧
      ((x.step (.sessionTimer 0)).any (fun x' => x'.mw.state = .MASTER) = true ∧
        ending x.mw (.sessionTimer 0) = some ⟨0, 0, true, 1, true⟩ ∧
        x.answers = [(1, 0, MiddleWare.rejected)]) :=
    exists_of_exec (beating ++ [.recv 1 (.replicateRsp 0 MiddleWare.rejected)]) (by decide)
  rw [Option.any_eq_true] at hstep
  obtain ⟨x', hx', hmaster⟩ := hstep
  refine ⟨x, x', _, hrun, hx', hend, by simpa using hmaster, ?_⟩
  rintro ⟨peers, -, -, hlen, hpeers⟩
  obtain ⟨a, hmem, hstatus⟩ := hpeers _ (List.getElem_mem hlen)
  simp only [hans, List.mem_singleton, Prod.mk.injEq] at hmem
  simp [hmem.2.2, MiddleWare.rejected] at hstatus

end Exchange

end TiPI.DB
