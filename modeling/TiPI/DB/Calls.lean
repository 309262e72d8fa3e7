import TiPI.DB.LogSteps
import TiPI.DB.Election

/-!
# The calls of `HandleKvs`

For a call only four kinds of actions count: a request arrives, a call runs its first critical
section, a woken call runs another one, and all the rest, which can at most notify the waiting
calls.
-/

namespace TiPI.DB

namespace MiddleWare

variable {Ip : Type}

/-- An action that serves no call. -/
structure Quiet (mw : MiddleWare Ip) (e : Effect Ip) : Prop where
  arrived : e.mw.arrived = mw.arrived
  nextRequest : e.mw.nextRequest = mw.nextRequest
  waiting : e.mw.waiting = mw.waiting ∨ e.mw.waiting = mw.broadcast.waiting
  kvs : mw.state = .MASTER → e.mw.kvs = mw.kvs
  events : ∀ ev ∈ e.events, ev.isVote = true

inductive CallCase (mw : MiddleWare Ip) (na : NodeAct Ip) (e : Effect Ip) : Prop
  | request (method : Method) (key value : String) (rand : Nat)
      (hna : na = .request method key value rand) (effect : e = mw.request method key value rand)
  | begins (r : WriteRequest) (hna : na = .kvsBegin r) (arrived : r ∈ mw.arrived)
      (effect : e = { mw := (mw.kvsBegin r).1, events := (mw.kvsBegin r).2.events r.id })
  | wakes (h : Handler) (hna : na = .kvsWake h) (waiting : h ∈ mw.waiting)
      (effect : e = { mw := (mw.kvsWake h).1, events := (mw.kvsWake h).2.events h.req.id })
  | other (quiet : mw.Quiet e) (left : mw.leaving na = none) (logging : mw.logging na = none)

lemma handleReplicate_kvs {mw : MiddleWare Ip} (hs : mw.state = .MASTER) (ip : Ip) (mean : Mean)
    (t : Nat) (entry : RaftLogEntry) : (mw.handleReplicate ip mean t entry).1.kvs = mw.kvs := by
  unfold handleReplicate
  simp only [hs]
  split <;> rfl

variable [DecidableEq Ip]

omit [DecidableEq Ip] in
lemma collected_quiet (mw : MiddleWare Ip) (s : Session) :
    mw.Quiet { mw := mw.collected s } := by
  simp only [collected]
  split
  · exact ⟨rfl, rfl, Or.inr rfl, fun _ => rfl, by simp⟩
  · exact ⟨rfl, rfl, Or.inl rfl, fun _ => rfl, by simp⟩

lemma act_calls {mw : MiddleWare Ip} {na : NodeAct Ip} {e : Effect Ip}
    (h : mw.act na = some e) : CallCase mw na e := by
  cases act_cases h with
  | request method key value rand => exact .request method key value rand rfl rfl
  | kvsBegin r arrived => exact .begins r rfl arrived rfl
  | kvsWake hd waiting => exact .wakes hd rfl waiting rfl
  | loopMaster | loopCondidate | loopSlave | consumerTimer | consumerDone | electionStart
  | electionStop | electionWin | beat | resign | producerDone | sessionLost | late =>
    exact .other ⟨rfl, rfl, Or.inl rfl, fun _ => rfl, by simp [Event.isVote]⟩ rfl rfl
  | sessionSend s =>
    refine .other ⟨?_, ?_, Or.inl ?_, fun _ => ?_, by simp⟩ rfl rfl <;> dsimp only <;> split <;> rfl
  | sessionDone s | sessionKept s => exact .other (collected_quiet mw s) rfl rfl
  | replicate src session mean t entry =>
    have hkvs : mw.state = .MASTER → (mw.handleReplicate src mean t entry).1.kvs = mw.kvs :=
      fun hs => handleReplicate_kvs hs src mean t entry
    obtain ⟨_, _, _, _, _, _, _, hmw⟩ := handleReplicate_frame mw src mean t entry
    refine .other ⟨?_, ?_, Or.inl ?_, hkvs, by simp⟩ rfl rfl <;> rw [hmw]
  | response src a s =>
    obtain ⟨sentLen, commitLen, hmw⟩ := collect_frame mw s (sendReplicate src a)
    rw [hmw]
    exact .other ⟨rfl, rfl, Or.inl rfl, fun _ => rfl, by simp⟩ rfl rfl
  | vote src c =>
    obtain ⟨_, _, _, _, _, hmw⟩ := handleVoteRequest_frame mw src c
    refine .other ⟨?_, ?_, Or.inl ?_, fun _ => ?_, ?_⟩ rfl rfl
    · rw [hmw]
    · rw [hmw]
    · rw [hmw]
    · rw [hmw]
    · dsimp only
      split <;> simp [Event.isVote]
  | voteRsp src t a =>
    obtain ⟨routine, hmw⟩ := electionRsp_frame mw src t a
    rw [hmw]
    exact .other ⟨rfl, rfl, Or.inl rfl, fun _ => rfl, by simp⟩ rfl rfl

/-! ### The waiting calls -/

omit [DecidableEq Ip]

lemma kvsLoop_waiting {mw : MiddleWare Ip} {h hd : Handler}
    (hw : hd ∈ (mw.kvsLoop h).1.waiting) :
    hd ∈ mw.waiting ∨ hd = { h with notified := false } := by
  unfold kvsLoop at hw
  split at hw
  · exact Or.inl hw
  · split at hw
    · simpa using hw
    · obtain ⟨kvs, raftLog, hc⟩ := kvsCommit_frame mw h.req
      dsimp only at hw
      rw [hc] at hw
      exact Or.inl hw

/-- Two states of one waiting call. -/
def Handler.Same (h h' : Handler) : Prop :=
  h.req = h'.req ∧ h.entry = h'.entry ∧ h.requiredLen = h'.requiredLen

section

variable {mw : MiddleWare Ip} {na : NodeAct Ip} {e : Effect Ip}

lemma Quiet.mem_waiting (h : mw.Quiet e) {hd : Handler} (hw : hd ∈ e.mw.waiting) :
    ∃ hd' ∈ mw.waiting, Handler.Same hd' hd := by
  rcases h.waiting with heq | heq
  · exact ⟨hd, heq ▸ hw, rfl, rfl, rfl⟩
  · rw [heq] at hw
    obtain ⟨hd', hmem, rfl⟩ := List.mem_map.mp hw
    exact ⟨hd', hmem, rfl, rfl, rfl⟩

/-- A waiting call has waited before, or it has just logged its entry. -/
lemma CallCase.mem_waiting (h : CallCase mw na e) {hd : Handler} (hw : hd ∈ e.mw.waiting) :
    (∃ hd' ∈ mw.waiting, Handler.Same hd' hd) ∨
      ∃ r ∈ mw.arrived, na = .kvsBegin r ∧ mw.kvsCheck r = none ∧ hd = (mw.kvsLog r).2 := by
  cases h with
  | request method key value rand _ effect =>
    obtain ⟨arrived, hmw⟩ := request_frame mw method key value rand
    rw [effect, hmw] at hw
    exact Or.inl ⟨hd, hw, rfl, rfl, rfl⟩
  | begins r hna harr effect =>
    rw [effect] at hw
    simp only [kvsBegin] at hw
    cases hc : mw.kvsCheck r with
    | some resp =>
      have hc' : { mw with arrived := mw.arrived.erase r }.kvsCheck r = some resp := hc
      rw [hc'] at hw
      exact Or.inl ⟨hd, hw, rfl, rfl, rfl⟩
    | none =>
      have hc' : { mw with arrived := mw.arrived.erase r }.kvsCheck r = none := hc
      rw [hc'] at hw
      rcases kvsLoop_waiting hw with hold | hnew
      · exact Or.inl ⟨hd, hold, rfl, rfl, rfl⟩
      · exact Or.inr ⟨r, harr, hna, hc, hnew⟩
  | wakes h' hna hwait effect =>
    rw [effect] at hw
    rcases kvsLoop_waiting hw with hold | rfl
    · exact Or.inl ⟨hd, List.mem_of_mem_erase hold, rfl, rfl, rfl⟩
    · exact Or.inl ⟨h', hwait, rfl, rfl, rfl⟩
  | other quiet => exact Or.inl (quiet.mem_waiting hw)

/-- A call that leaves its loop was waiting, or it has just logged its entry. -/
lemma CallCase.leaving (h : CallCase mw na e) {m : MiddleWare Ip} {hd : Handler}
    (hl : mw.leaving na = some (m, hd)) : m.quorumReached hd = true ∧
    ((hd ∈ mw.waiting ∧ m = { mw with waiting := mw.waiting.erase hd } ∧ na = .kvsWake hd) ∨
      ∃ r ∈ mw.arrived, na = .kvsBegin r ∧ mw.kvsCheck r = none ∧ hd = (mw.kvsLog r).2 ∧
        m = ({ mw with arrived := mw.arrived.erase r }.kvsLog r).1) := by
  cases h with
  | request _ _ _ _ hna => simp [hna, MiddleWare.leaving] at hl
  | begins r hna harr effect =>
    subst hna
    simp only [MiddleWare.leaving] at hl
    split at hl
    · next hc =>
      obtain ⟨rfl, rfl⟩ := Prod.mk.inj (Option.some.inj hl)
      exact ⟨hc.2, Or.inr ⟨r, harr, rfl, Option.isNone_iff_eq_none.mp hc.1, rfl, rfl⟩⟩
    · simp at hl
  | wakes h' hna hwait effect =>
    subst hna
    simp only [MiddleWare.leaving] at hl
    split at hl
    · next hq =>
      obtain ⟨rfl, rfl⟩ := Prod.mk.inj (Option.some.inj hl)
      exact ⟨hq, Or.inl ⟨hwait, rfl, rfl⟩⟩
    · simp at hl
  | other _ left => simp [left] at hl

end

/-! ### Open calls -/

/-- The calls that have arrived and are not answered. -/
def openCalls (mw : MiddleWare Ip) : List WriteRequest := mw.arrived ++ mw.waiting.map (·.req)

/-- How a critical section of a call ends, seen from outside. -/
inductive Served (mw : MiddleWare Ip) (na : NodeAct Ip) (e : Effect Ip) : Prop
  | refused (r : WriteRequest) (resp : Response Ip) (check : mw.kvsCheck r = some resp)
      (left : mw.leaving na = none) (kvs : e.mw.kvs = mw.kvs)
      (opened : (r :: e.mw.openCalls).Perm mw.openCalls)
      (events : e.events = [.answered r.id resp none])
  | stays (left : mw.leaving na = none) (kvs : e.mw.kvs = mw.kvs)
      (opened : e.mw.openCalls.Subperm mw.openCalls) (events : e.events = [])
  | leaves (m : MiddleWare Ip) (h : Handler) (left : mw.leaving na = some (m, h))
      (before : m.kvs = mw.kvs) (kvs : e.mw.kvs = (m.kvsCommit h.req).1.kvs)
      (opened : (h.req :: e.mw.openCalls).Perm mw.openCalls)
      (events : e.events = Section.events h.req.id (.done h (m.kvsCommit h.req).2))

/-- A call that evaluates its condition on the way into `Cond.Wait` or out of the loop. -/
lemma kvsLoop_served {mw m : MiddleWare Ip} {na : NodeAct Ip} {h : Handler}
    (hkvs : m.kvs = mw.kvs) (hopen : (h.req :: m.openCalls).Perm mw.openCalls)
    (hleft : mw.leaving na = if m.quorumReached h then some (m, h) else none) :
    Served mw na { mw := (m.kvsLoop h).1, events := (m.kvsLoop h).2.events h.req.id } := by
  cases hq : m.quorumReached h with
  | true =>
    rw [kvsLoop_left hq]
    obtain ⟨kvs, raftLog, hc⟩ := kvsCommit_frame m h.req
    refine .leaves m h (by rw [hleft, hq, if_pos rfl]) hkvs rfl ?_ rfl
    dsimp only
    rw [hc]
    exact hopen
  | false =>
    obtain ⟨-, hstay, hevents⟩ := kvsLoop_stays hq
    refine .stays (by rw [hleft, hq]; rfl) (hstay.trans hkvs) ?_ (hevents _)
    unfold quorumReached at hq
    unfold kvsLoop
    cases hm : minSentLenQuorum m.sentLens with
    | none => exact (List.sublist_cons_self _ _).subperm.trans hopen.subperm
    | some len =>
      rw [hm, Option.any_some, decide_eq_false_iff_not, not_le] at hq
      have hadd : { m with waiting := m.waiting ++ [{ h with notified := false }] }.openCalls =
          m.openCalls ++ [h.req] := by simp [openCalls]
      simp only [hq, if_true]
      rw [hadd]
      exact ((List.perm_append_singleton h.req m.openCalls).trans hopen).subperm

lemma kvsBegin_served {mw : MiddleWare Ip} {r : WriteRequest} (harr : r ∈ mw.arrived) :
    Served mw (.kvsBegin r)
      { mw := (mw.kvsBegin r).1, events := (mw.kvsBegin r).2.events r.id } := by
  have hopen : (r :: { mw with arrived := mw.arrived.erase r }.openCalls).Perm mw.openCalls :=
    (List.perm_cons_erase harr).symm.append_right _
  simp only [kvsBegin]
  cases hc : { mw with arrived := mw.arrived.erase r }.kvsCheck r with
  | some resp => exact .refused r resp hc (by simp [MiddleWare.leaving, hc]) rfl hopen rfl
  | none =>
    refine kvsLoop_served (m := ({ mw with arrived := mw.arrived.erase r }.kvsLog r).1)
      (h := ({ mw with arrived := mw.arrived.erase r }.kvsLog r).2) ?_ hopen ?_
    · rfl
    · simp only [MiddleWare.leaving, hc, Option.isNone_none, true_and]

lemma kvsWake_served {mw : MiddleWare Ip} {h : Handler} (hw : h ∈ mw.waiting) :
    Served mw (.kvsWake h)
      { mw := (mw.kvsWake h).1, events := (mw.kvsWake h).2.events h.req.id } := by
  have hperm : (h.req :: (mw.waiting.erase h).map (·.req)).Perm (mw.waiting.map (·.req)) :=
    ((List.perm_cons_erase hw).map _).symm
  have hopen : (h.req :: { mw with waiting := mw.waiting.erase h }.openCalls).Perm
      mw.openCalls := List.perm_middle.symm.trans (hperm.append_left mw.arrived)
  refine kvsLoop_served (m := { mw with waiting := mw.waiting.erase h }) ?_ hopen ?_
  · rfl
  · rfl

end MiddleWare

end TiPI.DB
