import TiPI.DB.StoreErrors
import TiPI.DB.Supervisor

/-!
# Failed writes

A call that is answered with an error has logged nothing, but for one that fails when it has left
its wait loop: its deletion finds the key gone, or the store does not take its change. Its entry
stays.
-/

namespace TiPI.DB

variable {Ip : Type}

namespace MiddleWare

variable {mw : MiddleWare Ip} {na : NodeAct Ip} {e : Effect Ip}

/-- An answer with an error in this action goes to a call none of whose entries is in the log, and
the action leaves the store. -/
def LeavesNothing (mw : MiddleWare Ip) (e : Effect Ip) : Prop :=
  ∀ id resp logged, .answered id resp logged ∈ e.events → 400 ≤ resp.status →
    (∀ x ∈ logged, x ∉ e.mw.raftLog.log) ∧ e.mw.kvs = mw.kvs

/-! ### The log of a master

Behind the turn of the main loop that starts the producer, a master drops no entry. -/

/-- The main loop waits for the producer, or for good. -/
def Produces (mw : MiddleWare Ip) : Prop :=
  mw.routine = .orphan ∨ ∃ i cancelled, mw.routine = .producer i cancelled

lemma Produces.coDone (h : mw.Produces) : mw.coDone.Produces := by
  rcases h with hr | ⟨i, cancelled, hr⟩
  · exact .inl (by simp [MiddleWare.coDone, hr])
  · exact .inr ⟨i, true, by simp [MiddleWare.coDone, hr]⟩

lemma Produces.congr {mw' : MiddleWare Ip} (h : mw.Produces) (hr : mw'.routine = mw.routine) :
    mw'.Produces := by
  rwa [Produces, hr]

variable [DecidableEq Ip]

lemma Produces.act (h : mw.Produces) (hs : mw.state = .MASTER) (hact : mw.act na = some e) :
    e.mw.Produces := by
  have hnone : ∀ r : Routine Ip, r ≠ .orphan → (∀ i cancelled, r ≠ .producer i cancelled) →
      mw.routine ≠ r := by
    rintro r horphan hproducer rfl
    rcases h with hr | ⟨i, cancelled, hr⟩
    · exact horphan hr
    · exact hproducer i cancelled hr
  cases act_cases hact with
  | request method key value rand =>
    obtain ⟨arrived, hmw⟩ := request_frame mw method key value rand
    exact h.congr (by rw [hmw])
  | kvsBegin r =>
    obtain ⟨kvs, raftLog, locked, waiting, hmw⟩ := kvsBegin_frame mw r
    exact h.congr (by rw [hmw])
  | kvsWake hd =>
    obtain ⟨kvs, raftLog, locked, waiting, hmw⟩ := kvsWake_frame mw hd
    exact h.congr (by rw [hmw])
  | beat i cancelled => exact .inr ⟨i + 1, cancelled, rfl⟩
  | producerDone => exact .inl rfl
  | resign _ _ _ state => exact absurd hs state
  | loopMaster routine | loopCondidate routine | loopSlave routine | consumerTimer _ routine
  | consumerDone routine | electionStart _ routine | electionStop _ _ _ routine
  | electionWin _ _ _ routine => exact absurd routine (hnone _ (by simp) (by simp))
  | sessionSend s =>
    refine h.congr ?_
    dsimp only
    split <;> rfl
  | sessionDone s | sessionKept s =>
    obtain ⟨sessions, waiting, hmw⟩ := collected_frame mw s
    exact h.congr (by rw [hmw])
  | sessionLost | late => exact h
  | replicate src session mean t entry =>
    rcases handleReplicate_routine mw src mean t entry with hr | hr
    · exact h.congr hr
    · exact h.coDone.congr hr
  | response src a s =>
    obtain ⟨sentLen, commitLen, hmw⟩ := collect_frame mw s (sendReplicate src a)
    exact h.congr (by rw [hmw]; rfl)
  | vote src c =>
    rcases handleVoteRequest_routine mw src c with hr | hr
    · exact h.congr hr
    · exact h.coDone.congr hr
  | voteRsp src t a =>
    refine h.congr ?_
    unfold electionRsp
    split
    · next term votes cancelled hr => exact absurd hr (hnone _ (by simp) (by simp))
    · rfl

/-- On such a master no entry is dropped as long as it runs. -/
lemma Produces.log_act (h : mw.Produces) (hs : mw.state = .MASTER) (hact : mw.act na = some e)
    (hrun : e.mw.running = true) : ∀ x ∈ mw.raftLog.log, x ∈ e.mw.raftLog.log := by
  cases act_log hact with
  | same _ log =>
    rw [log]
    exact fun _ => id
  | role hna =>
    subst hna
    rcases h with hr | ⟨i, cancelled, hr⟩ <;> cases act_cases hact <;> simp_all
  | fatal id hna =>
    subst hna
    cases act_cases hact with
    | sessionSend s =>
      dsimp only at hrun ⊢
      split at hrun
      · next halive =>
        rw [if_pos halive]
        exact fun _ => id
      · simp [exit] at hrun
  | logged x _ _ log =>
    rw [log]
    exact fun _ => StoreErrors.mem_logOp
  | left m hd left log =>
    have hm : ∀ x ∈ mw.raftLog.log, x ∈ m.raftLog.log := by
      rcases leaving_raftLog left with hlog | ⟨x, -, hlog⟩
      · rw [hlog]
        exact fun _ => id
      · rw [hlog]
        exact fun _ => StoreErrors.mem_logOp
    rw [log]
    split
    · exact hm
    · rw [Logger.logCommit_log]
      exact hm
  | replicate _ _ _ _ _ _ state => simp [hs] at state

/-- The entries of the waiting calls are in the log. -/
def Holds (mw : MiddleWare Ip) : Prop := ∀ h ∈ mw.waiting, h.entry ∈ mw.raftLog.log

end MiddleWare

namespace StoreErrors

open MiddleWare

variable [DecidableEq Ip] {errs : StoreErrors} {mw : MiddleWare Ip} {na : NodeAct Ip}
  {e : Effect Ip}

/-! ### A call that fails -/

omit [DecidableEq Ip] in
lemma leaving_eq_some {m : MiddleWare Ip} {h : Handler} :
    errs.leaving mw na = some (m, h) ↔
      errs.evaluates mw na = some (m, h) ∧ m.quorumReached h = true := by
  rw [leaving, Option.filter_eq_some_iff]

/-- An action leaves nothing when the store takes the change of the call that leaves its loop. -/
lemma Case.leavesNothing (h : Case errs mw na e)
    (htakes : ∀ p ∈ errs.leaving mw na, errs.takes p.1 p.2 = true) : mw.LeavesNothing e := by
  intro id resp logged hmem hge
  cases h with
  | request method key value rand _ effect =>
    obtain ⟨arrived, hmw⟩ := errs.request_frame mw method key value rand
    have hlogged : logged = none := by
      rw [effect, StoreErrors.request] at hmem
      dsimp only at hmem
      split at hmem <;> simp_all
    exact ⟨by simp [hlogged], by rw [effect, hmw]⟩
  | refused r resp' _ effect =>
    subst effect
    obtain ⟨-, -, rfl⟩ : id = r.id ∧ resp = resp' ∧ logged = none := by simpa using hmem
    exact ⟨by simp, rfl⟩
  | evaluates m hd _ evaluates effect =>
    subst effect
    rw [kvsLoop_eq] at hmem
    split at hmem
    · next hq =>
      obtain ⟨-, rfl, -⟩ : id = hd.req.id ∧ resp = (errs.kvsCommit m hd.req).2 ∧
          logged = some hd.entry := by simpa [Section.events] using hmem
      have htaken := htakes _ (leaving_eq_some.2 ⟨evaluates, hq⟩)
      rw [kvsCommit_status, htaken] at hge
      cases hge
    · next hq => simp [(kvsLoop_stays (by simpa using hq)).2.2] at hmem
  | other _ quiet => simpa [Event.isVote] using quiet.events _ hmem

/-- A call whose change the store does not take is answered with an error. -/
lemma Case.fails (h : Case errs mw na e) {m : MiddleWare Ip} {hd : Handler}
    (hleft : errs.leaving mw na = some (m, hd)) (htakes : errs.takes m hd = false) :
    e.mw.raftLog = m.raftLog ∧
      ∃ id resp, .answered id resp (some hd.entry) ∈ e.events ∧ 400 ≤ resp.status := by
  obtain ⟨hevaluates, hq⟩ := leaving_eq_some.1 hleft
  rw [(h.of_evaluates hevaluates).2, kvsLoop_eq, if_pos hq]
  rcases errs.kvsCommit_cases m hd with ⟨htakes', -⟩ | ⟨-, hlog, hstatus⟩
  · simp [htakes'] at htakes
  · exact ⟨hlog, hd.req.id, _, by simp [Section.events], hstatus⟩

/-! ### The log of a master -/

lemma Case.produces (hcase : Case errs mw na e) (h : mw.Produces) (hs : mw.state = .MASTER) :
    e.mw.Produces := by
  cases hcase with
  | request method key value rand _ effect =>
    obtain ⟨arrived, hmw⟩ := errs.request_frame mw method key value rand
    exact h.congr (by rw [effect, hmw])
  | refused _ _ _ effect => exact h.congr (by rw [effect])
  | evaluates m hd enters _ effect =>
    exact h.congr (by rw [effect]; exact (errs.kvsLoop_routine m hd).trans enters.routine)
  | other hact => exact h.act hs hact

lemma Case.log (hcase : Case errs mw na e) (h : mw.Produces) (hs : mw.state = .MASTER)
    (hrun : e.mw.running = true) : ∀ x ∈ mw.raftLog.log, x ∈ e.mw.raftLog.log := by
  cases hcase with
  | request method key value rand _ effect =>
    obtain ⟨arrived, hmw⟩ := errs.request_frame mw method key value rand
    rw [effect, hmw]
    exact fun _ => id
  | refused _ _ _ effect =>
    rw [effect]
    exact fun _ => id
  | evaluates m hd enters _ effect =>
    rw [effect]
    exact fun x hx => kvsLoop_log (enters.log x hx)
  | other hact => exact h.log_act hs hact hrun

lemma Case.holds (hcase : Case errs mw na e) (hw : mw.Holds) (h : mw.Produces)
    (hs : mw.state = .MASTER) (hrun : e.mw.running = true) : e.mw.Holds := by
  have hlog := hcase.log h hs hrun
  intro hd hmem
  cases hcase with
  | request method key value rand _ effect =>
    obtain ⟨arrived, hmw⟩ := errs.request_frame mw method key value rand
    rw [effect, hmw] at hmem
    exact hlog _ (hw hd hmem)
  | refused _ _ _ effect =>
    rw [effect] at hmem
    exact hlog _ (hw hd hmem)
  | evaluates m hd' enters _ effect =>
    rw [effect] at hmem
    rcases kvsLoop_waiting hmem with hold | rfl
    · exact hlog _ (hw hd (enters.waiting hd hold))
    · rcases enters.entry with hold | hentry
      · exact hlog _ (hw hd' hold)
      · rw [effect]
        exact kvsLoop_log hentry
  | other _ quiet =>
    obtain ⟨hd', hmem', hsame⟩ := quiet.mem_waiting hmem
    rw [← hsame.2.1]
    exact hlog _ (hw hd' hmem')

/-- A call that fails leaves its entry. -/
lemma Case.takes_of_leavesNothing (hcase : Case errs mw na e) (hw : mw.Holds)
    (hnothing : mw.LeavesNothing e) : ∀ p ∈ errs.leaving mw na, errs.takes p.1 p.2 = true := by
  rintro ⟨m, hd⟩ hleft
  by_contra htakes
  obtain ⟨hlog, id, resp, hmem, hge⟩ := hcase.fails hleft (by simpa using htakes)
  refine (hnothing id resp _ hmem hge).1 _ rfl ?_
  rw [hlog]
  have henters := (hcase.of_evaluates (leaving_eq_some.1 hleft).1).1
  rcases henters.entry with hold | hentry
  · exact henters.log _ (hw hd hold)
  · exact hentry

end StoreErrors

namespace Solo

variable [DecidableEq Ip]

/-- An answer with an error in this step goes to a call that leaves nothing. -/
def LeavesNothing (s : Solo Ip) (a : NodeAct Ip × StoreErrors) : Prop :=
  ∀ e ∈ a.2.act s.mw a.1, s.mw.LeavesNothing e

omit [DecidableEq Ip] in
/-- The store takes the change of a call that leaves its wait loop. -/
def Taken (s : Solo Ip) (a : NodeAct Ip × StoreErrors) : Prop :=
  ∀ p ∈ a.2.leaving s.mw a.1, a.2.takes p.1 p.2 = true

instance (s : Solo Ip) (a : NodeAct Ip × StoreErrors) : Decidable (s.Taken a) :=
  inferInstanceAs (Decidable (∀ p ∈ a.2.leaving s.mw a.1, _))

/-- Failed calls leave nothing in runs in which the store takes the change of every call that leaves
its wait loop: the key of a deletion is still there, and no write or deletion fails. On a master
whose main loop has started the producer, in no others. -/
theorem failed_writes {mw : MiddleWare Ip} {as : List (NodeAct Ip × StoreErrors)} {s : Solo Ip}
    (h : Steps stepOn (fun s a => s.Master a.1) (start mw) as s) :
    (Steps stepOn Taken (start mw) as s → Steps stepOn LeavesNothing (start mw) as s) ∧
    (mw.Produces → mw.Holds → Steps stepOn LeavesNothing (start mw) as s →
      Steps stepOn Taken (start mw) as s) := by
  constructor
  · intro htaken
    refine htaken.mono fun r a htaken e he => ?_
    exact (StoreErrors.act_cases he).leavesNothing htaken
  · intro hproduces hholds hnothing
    suffices hboth : Steps stepOn Taken (start mw) as s ∧ s.mw.Produces ∧
        (s.mw.running = true → s.mw.Holds) from hboth.1
    have hboth := h.and hnothing
    clear h hnothing
    induction hboth with
    | nil => exact ⟨.nil, hproduces, fun _ => hholds⟩
    | snoc _ hok hlast ih =>
      obtain ⟨hrun, hproduces', hholds'⟩ := ih
      obtain ⟨e, hact, rfl⟩ := Option.map_eq_some_iff.1 hlast
      have hcase := StoreErrors.act_cases hact
      have hw := hholds' (StoreErrors.act_running hact)
      exact ⟨hrun.snoc (hcase.takes_of_leavesNothing hw (hok.2 e hact)) hlast,
        hcase.produces hproduces' hok.1, hcase.holds hw hproduces' hok.1⟩

/-- The key is taken when the second `POST` comes in. -/
theorem failed_writes_post : ∃ s : Solo (Fin 3),
    Steps stepOn LeavesNothing (start elected) (served (onePost ++ posts 1 "k" "z")) s ∧
      s.trace.any (fun ev => ev matches .answered 1 ⟨400, _⟩ none) = true := by
  obtain ⟨s, hs, htaken⟩ : ∃ s : Solo (Fin 3),
      Steps stepOn (fun s a => s.Master a.1 ∧ s.Taken a) (start elected)
        (served (onePost ++ posts 1 "k" "z")) s ∧
      s.trace.any (fun ev => ev matches .answered 1 ⟨400, _⟩ none) = true :=
    steps_of_exec (served (onePost ++ posts 1 "k" "z")) (by decide)
  exact ⟨s, (failed_writes (hs.mono fun _ _ => And.left)).1 (hs.mono fun _ _ => And.right),
    htaken⟩

/-- Request `id` is a `DELETE` of `k` that comes in and runs its first critical section. -/
def deletes (id : Nat) : List (NodeAct (Fin 3)) :=
  [.request .DELETE "k" "" 0, .kvsBegin ⟨id, .DELETE, "k", ""⟩]

/-- The entry of a `DELETE` of `k` at the index `ind`. -/
def deletion (ind : Nat) : RaftLogEntry := ⟨.delete, "k", "", "", 1, ind, ind - 1, 1⟩

/-- Two clients delete the key; both calls have checked it when the first one leaves its loop. -/
def twoDeletes : List (NodeAct (Fin 3)) :=
  onePost ++ deletes 1 ++ deletes 2 ++ beat 2 2 3 false ++
    [.kvsWake ⟨⟨1, .DELETE, "k", ""⟩, deletion 1, 2, true⟩,
      .kvsWake ⟨⟨2, .DELETE, "k", ""⟩, deletion 2, 3, true⟩]

/-- The second one is answered with `500`, and its entry stays. -/
theorem failed_delete_stays : ∃ s : Solo (Fin 3),
    Steps stepOn (fun s a => s.Master a.1) (start elected) (served twoDeletes) s ∧
    s.trace.getLast? =
      some (.answered 2 ⟨500, .text "data base error: Error: key not found"⟩ (some (deletion 2))) ∧
    deletion 2 ∈ s.mw.raftLog.toCommit :=
  steps_of_exec (served twoDeletes) (by decide)

end Solo

end TiPI.DB
