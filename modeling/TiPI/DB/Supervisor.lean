import TiPI.DB.Ballots

/-!
# The main loop and the routine it waits for

A routine that signals hands the control back to the main loop. The one return without a signal is
the branch of `Heartbeat_producer_co` on its cancelled context; the loop then waits for good.
-/

namespace TiPI.DB

variable {Ip : Type}

/-- The pieces of the main loop and of its routines. -/
def NodeAct.ofRoutine : NodeAct Ip → Bool
  | .mainLoop | .consumerTimer | .consumerDone | .electionStart | .electionStop | .electionWin
  | .producerTimer | .producerDone => true
  | .request _ _ _ _ | .kvsBegin _ | .kvsWake _ | .sessionSend _ | .sessionDone _
  | .sessionTimer _ | .recv _ _ => false

namespace MiddleWare

variable [DecidableEq Ip]

/-- On a live node with a free lock, the main loop or the routine it waits for can go on. -/
def Supervised (mw : MiddleWare Ip) : Prop :=
  ∃ na : NodeAct Ip, na.ofRoutine = true ∧
    ({ mw with running := true, locked := false }.act na).isSome = true

lemma supervised_of_ne_orphan {mw : MiddleWare Ip} (h : mw.routine ≠ .orphan) :
    mw.Supervised := by
  cases hr : mw.routine with
  | main =>
    refine ⟨.mainLoop, rfl, ?_⟩
    cases mw.state <;> simp [act, mainLoop, hr]
  | consumer cancelled => exact ⟨.consumerTimer, rfl, by simp [act, consumerTimer, hr]⟩
  | producer i cancelled =>
    refine ⟨.producerTimer, rfl, ?_⟩
    cases mw.state <;> simp [act, producerTimer, hr]
  | electionStart cancelled => exact ⟨.electionStart, rfl, by simp [act, electionStart, hr]⟩
  | election t votes cancelled =>
    by_cases hq : votes.length < mw.voteQuorum
    · exact ⟨.electionStop, rfl, by simp_all [act, electionStop, voteQuorum]⟩
    · exact ⟨.electionWin, rfl, by simp_all [act, electionWin, voteQuorum]⟩
  | orphan => exact absurd hr h

lemma not_supervised_orphan {mw : MiddleWare Ip} (h : mw.routine = .orphan) :
    ¬ mw.Supervised := by
  rintro ⟨na, hna, hact⟩
  obtain ⟨e, he⟩ := Option.isSome_iff_exists.mp hact
  cases act_cases he <;> simp_all [NodeAct.ofRoutine]

lemma supervised_iff {mw : MiddleWare Ip} : mw.Supervised ↔ mw.routine ≠ .orphan :=
  ⟨fun hs ho => not_supervised_orphan ho hs, supervised_of_ne_orphan⟩

omit [DecidableEq Ip] in
lemma coDone_orphan {mw : MiddleWare Ip} : mw.coDone.routine = .orphan ↔ mw.routine = .orphan := by
  unfold coDone
  cases mw.routine <;> simp

omit [DecidableEq Ip] in
lemma handleReplicate_routine (mw : MiddleWare Ip) (ip : Ip) (mean : Mean) (t : Nat)
    (e : RaftLogEntry) :
    (mw.handleReplicate ip mean t e).1.routine = mw.routine ∨
      (mw.handleReplicate ip mean t e).1.routine = mw.coDone.routine := by
  unfold handleReplicate
  cases mw.state with
  | MASTER =>
    dsimp only
    split
    · exact Or.inl rfl
    · exact Or.inr rfl
  | CONDIDATE =>
    dsimp only
    split
    · exact Or.inr rfl
    · exact Or.inl rfl
  | SLAVE =>
    dsimp only
    rw [raiseTerm_frame]
    split
    · exact Or.inl rfl
    · obtain ⟨raftLog, kvs, running, hs⟩ :=
        replicateSlave_frame { mw with term := max mw.term t } mean e
      rw [hs]
      exact Or.inl rfl

lemma handleVoteRequest_routine (mw : MiddleWare Ip) (src : Ip) (c : VoteRequest) :
    (mw.handleVoteRequest src c).1.routine = mw.routine ∨
      (mw.handleVoteRequest src c).1.routine = mw.coDone.routine := by
  unfold handleVoteRequest
  dsimp only
  split
  · exact Or.inr rfl
  · exact Or.inl rfl

lemma act_orphan {mw : MiddleWare Ip} {na : NodeAct Ip} {e : Effect Ip}
    (h : mw.act na = some e) (ho : e.mw.routine = .orphan) :
    mw.routine = .orphan ∨ na = .producerDone := by
  cases act_cases h with
  | request method key value rand =>
    obtain ⟨arrived, hmw⟩ := request_frame mw method key value rand
    exact Or.inl (by rwa [hmw] at ho)
  | kvsBegin r =>
    obtain ⟨kvs, raftLog, locked, waiting, hmw⟩ := kvsBegin_frame mw r
    exact Or.inl (by rwa [hmw] at ho)
  | kvsWake hd =>
    obtain ⟨kvs, raftLog, locked, waiting, hmw⟩ := kvsWake_frame mw hd
    exact Or.inl (by rwa [hmw] at ho)
  | loopMaster | loopCondidate | loopSlave | consumerTimer | consumerDone => simp at ho
  | electionStart | electionStop | electionWin | beat | resign => simp at ho
  | producerDone => exact Or.inr rfl
  | sessionSend s =>
    dsimp only at ho
    split at ho <;> exact Or.inl ho
  | sessionDone s | sessionKept s =>
    obtain ⟨sessions, waiting, hmw⟩ := collected_frame mw s
    exact Or.inl (by rwa [hmw] at ho)
  | sessionLost => exact Or.inl ho
  | late => exact Or.inl ho
  | replicate src session mean t entry =>
    rcases handleReplicate_routine mw src mean t entry with hr | hr
    · exact Or.inl (hr.symm.trans ho)
    · exact Or.inl (coDone_orphan.mp (hr.symm.trans ho))
  | response src a s =>
    obtain ⟨sentLen, commitLen, hmw⟩ := collect_frame mw s (sendReplicate src a)
    exact Or.inl (by rwa [hmw] at ho)
  | vote src c =>
    rcases handleVoteRequest_routine mw src c with hr | hr
    · exact Or.inl (hr.symm.trans ho)
    · exact Or.inl (coDone_orphan.mp (hr.symm.trans ho))
  | voteRsp src t a =>
    unfold electionRsp at ho
    dsimp only at ho
    split at ho
    · next hr =>
      split at ho
      · simp at ho
      · exact Or.inl ho
    · exact Or.inl ho

end MiddleWare

namespace Solo

variable [DecidableEq Ip]

omit [DecidableEq Ip] in
/-- The producer does not return on its context. -/
def NoQuietReturn (_ : Solo Ip) (na : NodeAct Ip) : Prop := na ≠ .producerDone

instance (s : Solo Ip) (na : NodeAct Ip) : Decidable (s.NoQuietReturn na) :=
  inferInstanceAs (Decidable (_ ≠ _))

lemma routine_ne_orphan {selfIp : Ip} {otherIp : List Ip} {as : List (NodeAct Ip)} {s : Solo Ip}
    (h : Steps step NoQuietReturn (start (.init selfIp otherIp)) as s) :
    s.mw.routine ≠ .orphan := by
  refine h.invariant (P := fun _ s => s.mw.routine ≠ .orphan) (by simp [start, MiddleWare.init]) ?_
  intro as s na s' hs hok hstep ho
  obtain ⟨e, hact, rfl⟩ := step_inv hstep
  rcases MiddleWare.act_orphan hact ho with hbefore | hna
  · exact hs hbefore
  · exact hok hna

/-- The main loop is never left alone in exactly the runs in which the producer never returns on
its context. -/
theorem supervised (selfIp : Ip) (otherIp : List Ip) {as : List (NodeAct Ip)} {s : Solo Ip}
    (h : AllSteps step (start (.init selfIp otherIp)) as s) :
    Throughout step (fun _ s => s.mw.Supervised) (start (.init selfIp otherIp)) as ↔
    Steps step NoQuietReturn (start (.init selfIp otherIp)) as s := by
  refine Steps.throughout_iff h
    (fun _ _ hrun => MiddleWare.supervised_iff.mpr (routine_ne_orphan hrun)) ?_
  rintro bs r na r' - - hstep hsup rfl
  obtain ⟨e, hact, rfl⟩ := step_inv hstep
  cases MiddleWare.act_cases hact with
  | producerDone => exact MiddleWare.supervised_iff.mp hsup rfl

/-- A master takes a message of a later term; its producer sees the timer first. -/
def deposed : List (NodeAct (Fin 3)) :=
  standing ++ [.electionWin, .mainLoop, .recv 2 (.replicate 0 .heartbeat 2 .zero)]

theorem supervised_three : ∃ s : Solo (Fin 3),
    AllSteps step (start (.init 0 [1, 2])) (deposed ++ [.producerTimer]) s ∧
    s.mw.state = .SLAVE ∧ s.mw.Supervised := by
  obtain ⟨s, hrun, hs⟩ : ∃ s, Steps step NoQuietReturn (start (.init 0 [1, 2]))
      (deposed ++ [.producerTimer]) s ∧ s.mw.state = .SLAVE := steps_of_exec _ (by decide)
  have hall := hrun.mono fun _ _ _ => trivial
  exact ⟨s, hall, hs, (supervised 0 [1, 2] hall).mpr hrun _ s List.prefix_rfl hall⟩

/-- Its producer sees the cancelled context first, and the node stays without a routine. -/
theorem orphaned : ∃ s : Solo (Fin 3),
    AllSteps step (start (.init 0 [1, 2])) (deposed ++ [.producerDone]) s ∧
    s.mw.running = true ∧ s.mw.locked = false ∧ s.mw.state = .SLAVE ∧ ¬ s.mw.Supervised := by
  obtain ⟨s, hrun, hr, hl, hs, ho⟩ : ∃ s, AllSteps step (start (.init 0 [1, 2]))
      (deposed ++ [.producerDone]) s ∧ (s.mw.running = true ∧ s.mw.locked = false ∧
        s.mw.state = .SLAVE ∧ s.mw.routine = .orphan) := steps_of_exec _ (by decide)
  exact ⟨s, hrun, hr, hl, hs, MiddleWare.not_supervised_orphan ho⟩

end Solo

end TiPI.DB
