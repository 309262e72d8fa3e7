import TiPI.DB.Frame

/-!
# Rejected peer messages

A request to `/replicate/{mean}` or `/vote`, from its method and body on. Two branches of the
handlers write a status of rejection and change the node all the same.
-/

namespace TiPI.DB

variable {Ip : Type}

inductive PeerRequest (Ip : Type)
  /-- `body` is what the decoder makes of the body, unless it fails -/
  | replicate (method : Method) (ip : Ip) (mean : Mean) (body : Option (Nat × RaftLogEntry))
  /-- the result of the decoder is not looked at: `c` is what it has filled in -/
  | vote (method : Method) (ip : Ip) (c : VoteRequest)

namespace MiddleWare

section

variable [DecidableEq Ip]

/-- `HandleReplicate` and `HandleVoteRequest`, with the first status that they write; there is none
when the process ends. -/
def servePeer (mw : MiddleWare Ip) : PeerRequest Ip → MiddleWare Ip × Option Nat
  | .replicate method ip mean body =>
    if method ≠ .POST then (mw, some 400)
    else
      match body with
      | none => (mw, some 400)
      | some (term, e) =>
        let (mw, a) := mw.handleReplicate ip mean term e
        (mw, a.map (·.status))
  | .vote method ip c =>
    if method ≠ .POST then (mw, some 400)
    else
      let (mw, a) := mw.handleVoteRequest ip c
      (mw, some a.status)

end

/-- What a rejected message must not touch. -/
structure Same (mw mw' : MiddleWare Ip) : Prop where
  term : mw'.term = mw.term
  state : mw'.state = mw.state
  votedFor : mw'.votedFor = mw.votedFor
  leaderIP : mw'.leaderIP = mw.leaderIP
  raftLog : mw'.raftLog = mw.raftLog
  kvs : mw'.kvs = mw.kvs

lemma Same.refl (mw : MiddleWare Ip) : Same mw mw := ⟨rfl, rfl, rfl, rfl, rfl, rfl⟩

/-- The vote for the sender is in force already. -/
def Voted (mw : MiddleWare Ip) (ip : Ip) (c : VoteRequest) : Prop :=
  c.elTerm = mw.term ∧ mw.state = .SLAVE ∧ mw.votedFor = some ip ∧ mw.leaderIP = ip

variable [DecidableEq Ip]

/-- A slave is told a higher term under an unknown `mean`, or a sender that is no peer gets a vote
that the node has not given yet. -/
def Oversteps (mw : MiddleWare Ip) : PeerRequest Ip → Prop
  | .replicate method _ mean body =>
    method = .POST ∧ mw.state = .SLAVE ∧ (∃ name, mean = .other name) ∧
      ∃ term e, body = some (term, e) ∧ mw.term < term
  | .vote method ip c =>
    method = .POST ∧ ip ∉ mw.otherIp ∧ (mw.termOk ip c && mw.logOk c) = true ∧ ¬ mw.Voted ip c

omit [DecidableEq Ip] in
/-- What a slave answers to a message in its term is a rejection for an unknown `mean` only. -/
lemma replicateSlave_rejected {mw mw' : MiddleWare Ip} {mean : Mean} {e : RaftLogEntry} {a : Answer}
    (h : mw.replicateSlave mean e = (mw', some a)) (ha : 400 ≤ a.status) :
    mw' = mw ∧ ∃ name, mean = .other name := by
  cases mean with
  | logappend =>
    obtain ⟨-, rfl⟩ := by simpa [replicateSlave] using h
    exact absurd ha (by simp [lens])
  | logcommit =>
    simp only [replicateSlave] at h
    split at h
    · simp at h
    · obtain ⟨-, rfl⟩ := by simpa using h
      exact absurd ha (by simp [lens])
  | heartbeat =>
    obtain ⟨-, rfl⟩ := by simpa [replicateSlave] using h
    exact absurd ha (by simp [lens])
  | other name =>
    obtain ⟨rfl, -⟩ := by simpa [replicateSlave] using h
    exact ⟨rfl, name, rfl⟩

omit [DecidableEq Ip] in
/-- A rejection by `HandleReplicate` raises the term at most. -/
lemma handleReplicate_rejected {mw mw' : MiddleWare Ip} {ip : Ip} {mean : Mean} {term : Nat}
    {e : RaftLogEntry} {a : Answer} (h : mw.handleReplicate ip mean term e = (mw', some a))
    (ha : 400 ≤ a.status) :
    mw' = mw ∨ mw.state = .SLAVE ∧ (∃ name, mean = .other name) ∧ mw.term ≤ term ∧
      mw' = { mw with term := term } := by
  unfold handleReplicate at h
  split at h
  · split at h
    · obtain ⟨rfl, -⟩ := by simpa using h
      exact .inl rfl
    · obtain ⟨-, rfl⟩ := by simpa using h
      exact absurd ha (by simp [lens])
  · split at h
    · obtain ⟨-, rfl⟩ := by simpa using h
      exact absurd ha (by simp [lens])
    · obtain ⟨rfl, -⟩ := by simpa using h
      exact .inl rfl
  · next hs =>
    simp only [raiseTerm_frame] at h
    split at h
    · next hold =>
      have hlt : term < mw.term := by simpa using hold
      obtain ⟨rfl, -⟩ := by simpa [max_eq_left hlt.le] using h
      exact .inl rfl
    · next hnew =>
      have hle : mw.term ≤ term := by simpa using hnew
      rw [max_eq_right hle] at h
      obtain ⟨rfl, name, hmean⟩ := replicateSlave_rejected h ha
      exact .inr ⟨hs, ⟨name, hmean⟩, hle, rfl⟩

omit [DecidableEq Ip] in
/-- An unknown `mean` is rejected. -/
lemma handleReplicate_unknown {mw : MiddleWare Ip} (hs : mw.state = .SLAVE) {term : Nat}
    (hlt : mw.term < term) (ip : Ip) (name : String) (e : RaftLogEntry) :
    mw.handleReplicate ip (.other name) term e = ({ mw with term := term }, some rejected) := by
  have hmax : max mw.term term = term := by omega
  simp [handleReplicate, hs, raiseTerm_frame, hmax, replicateSlave]

lemma voted_of_same {mw : MiddleWare Ip} {ip : Ip} {c : VoteRequest}
    (hgrant : (mw.termOk ip c && mw.logOk c) = true) (h : Same mw (mw.handleVoteRequest ip c).1) :
    mw.Voted ip c := by
  simp only [handleVoteRequest, hgrant, if_true] at h
  exact ⟨h.term, h.state.symm, h.votedFor.symm, h.leaderIP.symm⟩

lemma same_of_voted {mw : MiddleWare Ip} {ip : Ip} {c : VoteRequest} (h : mw.Voted ip c) :
    Same mw (mw.handleVoteRequest ip c).1 := by
  obtain ⟨hterm, hstate, hvoted, hleader⟩ := h
  simp only [handleVoteRequest]
  split
  · exact ⟨hterm, hstate.symm, hvoted.symm, hleader.symm, rfl, rfl⟩
  · exact .refl mw

lemma vote_refused {mw : MiddleWare Ip} {ip : Ip} {c : VoteRequest}
    (h : ¬ (mw.termOk ip c && mw.logOk c) = true) : (mw.handleVoteRequest ip c).1 = mw := by
  simp only [handleVoteRequest, if_neg h]

/-- What `servePeer` makes of a request that changes nothing. -/
lemma same_of_refused {mw : MiddleWare Ip} {req : PeerRequest Ip}
    (h : mw.servePeer req = (mw, some 400)) : Same mw (mw.servePeer req).1 := by
  rw [h]
  exact .refl mw

lemma replicate_same_iff (mw : MiddleWare Ip) (method : Method) (ip : Ip) (mean : Mean)
    (body : Option (Nat × RaftLogEntry)) :
    (∀ status, (mw.servePeer (.replicate method ip mean body)).2 = some status → 400 ≤ status →
      Same mw (mw.servePeer (.replicate method ip mean body)).1) ↔
      ¬ mw.Oversteps (.replicate method ip mean body) := by
  constructor
  · rintro h ⟨rfl, hs, ⟨name, rfl⟩, term, e, rfl, hlt⟩
    have hserve : mw.servePeer (.replicate .POST ip (.other name) (some (term, e))) =
        ({ mw with term := term }, some 400) := by
      simp [servePeer, handleReplicate_unknown hs hlt, rejected]
    rw [hserve] at h
    exact hlt.ne' (h 400 rfl le_rfl).term
  · intro hover status hstatus hge
    by_cases hm : method = .POST
    · subst hm
      cases body with
      | none => exact same_of_refused rfl
      | some p =>
        obtain ⟨term, e⟩ := p
        obtain ⟨a, ha, rfl⟩ : ∃ a, (mw.handleReplicate ip mean term e).2 = some a ∧
            a.status = status := by simpa [servePeer] using hstatus
        rcases handleReplicate_rejected (Prod.ext rfl ha) hge with hmw | ⟨hs, hmean, hle, hmw⟩
        · simpa [servePeer, hmw] using Same.refl mw
        · have hterm : term = mw.term := by
            by_contra hne
            exact hover ⟨rfl, hs, hmean, term, e, rfl, by omega⟩
          subst hterm
          simpa [servePeer, hmw] using Same.refl mw
    · exact same_of_refused (by simp [servePeer, hm])

/-- A rejected message changes nothing exactly when it is none of the two that overstep. -/
theorem rejected_same_iff (mw : MiddleWare Ip) (req : PeerRequest Ip) :
    (∀ status, (mw.servePeer req).2 = some status → 400 ≤ status →
      Same mw (mw.servePeer req).1) ↔ ¬ mw.Oversteps req := by
  cases req with
  | replicate method ip mean body => exact replicate_same_iff mw method ip mean body
  | vote method ip c =>
    constructor
    · rintro h ⟨rfl, hip, hgrant, hvoted⟩
      refine hvoted (voted_of_same hgrant (h 405 ?_ (by decide)))
      simp [servePeer, handleVoteRequest, hip, hgrant]
    · intro hover status hstatus hge
      by_cases hm : method = .POST
      · subst hm
        by_cases hgrant : (mw.termOk ip c && mw.logOk c) = true
        · have hip : ip ∉ mw.otherIp := by
            intro hmem
            have h200 : 200 = status := by
              simpa [servePeer, handleVoteRequest, hmem, hgrant] using hstatus
            omega
          refine same_of_voted ?_
          by_contra hvoted
          exact hover ⟨rfl, hip, hgrant, hvoted⟩
        · have hrefused := vote_refused hgrant
          simpa [servePeer, hrefused] using Same.refl mw
      · exact same_of_refused (by simp [servePeer, hm])

/-- A node of three, `0`, to which `3` is a stranger. -/
def follower : MiddleWare (Fin 4) := .init 0 [1, 2]

/-- A stranger gets a `405`, and the vote. -/
theorem stranger_elected : (follower.servePeer (.vote .POST 3 ⟨0, 0, 5⟩)).2 = some 405 ∧
    ¬ Same follower (follower.servePeer (.vote .POST 3 ⟨0, 0, 5⟩)).1 := by
  refine ⟨by decide, fun h => ?_⟩
  exact absurd h.term (by decide)

end MiddleWare

end TiPI.DB
