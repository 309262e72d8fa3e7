import TiPI.DB.StoreErrors

/-!
# Panics of the client handler

`HandleKvs` takes a remainder modulo the number of peers, and `minSentLenQuorum` an element of the
lengths that peers have answered with. Both need at least one; the second is under `Cond.L`, which a
panic leaves locked. Whatever the store answers, every other way out of the handler unlocks.
-/

namespace TiPI.DB

variable {Ip : Type}

namespace MiddleWare

lemma minSentLenQuorum_eq_none (lens : List Nat) : minSentLenQuorum lens = none ↔ lens = [] := by
  rw [minSentLenQuorum, List.getElem?_eq_none_iff, List.length_insertionSort]
  cases lens with
  | nil => simp
  | cons len lens =>
    simp only [List.length_cons, reduceCtorEq, iff_false, not_le]
    omega

lemma kvsArrive_panicked (mw : MiddleWare Ip) (r : Request) (rand : Nat) :
    mw.kvsArrive r rand = .panicked ↔ mw.state = .MASTER ∧ r.method = .GET ∧ mw.otherIp = [] := by
  unfold kvsArrive
  split
  · next hredirect =>
    simp only [reduceCtorEq, false_iff]
    exact fun h => hredirect.1 h.1
  · split
    · next hget =>
      simp only [hget, true_and, kvsGet]
      split
      · next hmaster =>
        rw [hmaster, ← List.length_eq_zero_iff]
        split
        · next peer hpeer =>
          have hlt := (List.getElem?_eq_some_iff.1 hpeer).1
          simp only [reduceCtorEq, true_and, false_iff]
          omega
        · next hnone =>
          rw [List.getElem?_eq_none_iff] at hnone
          simp only [true_and, true_iff]
          by_contra hpos
          exact absurd (Nat.mod_lt rand (Nat.pos_of_ne_zero hpos)) (not_lt.2 hnone)
      · next hslave => split <;> simp [hslave]
      · next hcondidate => split <;> simp [hcondidate]
    · next hpost => split <;> simp [hpost]
    · next hpatch => split <;> simp [hpatch]
    · next hdelete => simp [hdelete]
    · next name hother => simp [hother]

end MiddleWare

namespace StoreErrors

variable {errs : StoreErrors} {mw : MiddleWare Ip} {na : NodeAct Ip} {e : Effect Ip}

/-- The step of a call of `HandleKvs` panics. -/
def panics (errs : StoreErrors) (mw : MiddleWare Ip) : NodeAct Ip → Prop
  | .request method key value rand =>
    errs.kvsArrive mw ⟨mw.nextRequest, method, key, value⟩ rand = .panicked
  | .kvsBegin r => (errs.kvsBegin mw r).2 = .panicked
  | .kvsWake h => (errs.kvsWake mw h).2 = .panicked
  | _ => False

/-- A master that is asked for a key has a peer to send the client to, and when a call evaluates the
condition of its wait loop a peer has answered with a length. -/
def CanServe (errs : StoreErrors) (mw : MiddleWare Ip) : NodeAct Ip → Prop
  | .request method _ _ _ => mw.state = .MASTER → method = .GET → mw.otherIp ≠ []
  | .kvsBegin r => errs.kvsCheck mw r = none → mw.sentLens ≠ []
  | .kvsWake _ => mw.sentLens ≠ []
  | _ => True

lemma kvsArrive_panicked (errs : StoreErrors) (mw : MiddleWare Ip) (r : Request) (rand : Nat) :
    errs.kvsArrive mw r rand = .panicked ↔
      mw.state = .MASTER ∧ r.method = .GET ∧ mw.otherIp = [] := by
  have hplain := mw.kvsArrive_panicked r rand
  unfold kvsArrive
  split
  · next hget =>
    have hkvsGet : mw.kvsArrive r rand = mw.kvsGet r.key rand := by
      simp [MiddleWare.kvsArrive, hget]
    rw [hkvsGet] at hplain
    unfold kvsGet
    split
    · next hslave => simp [hslave]
    · next hcondidate => simp [hcondidate]
    · exact hplain
    · exact hplain
  all_goals exact hplain

lemma kvsLoop_panicked (errs : StoreErrors) (m : MiddleWare Ip) (h : Handler) :
    (errs.kvsLoop m h).2 = .panicked ↔ m.sentLens = [] := by
  rw [← MiddleWare.minSentLenQuorum_eq_none, kvsLoop]
  split
  · next hnone => simp [hnone]
  · next len hsome =>
    simp only [hsome, reduceCtorEq, iff_false]
    split <;> simp

/-- A call reaches its wait loop when the check of its key lets it pass. -/
lemma kvsBegin_panicked (errs : StoreErrors) (mw : MiddleWare Ip) (r : WriteRequest) :
    (errs.kvsBegin mw r).2 = .panicked ↔ errs.kvsCheck mw r = none ∧ mw.sentLens = [] := by
  have hcheck : errs.kvsCheck { mw with arrived := mw.arrived.erase r } r = errs.kvsCheck mw r :=
    rfl
  rw [kvsBegin, hcheck]
  cases hc : errs.kvsCheck mw r with
  | some resp => simp
  | none =>
    simp only [true_and]
    exact kvsLoop_panicked _ _ _

lemma panics_iff (errs : StoreErrors) (mw : MiddleWare Ip) (na : NodeAct Ip) :
    errs.panics mw na ↔ ¬ errs.CanServe mw na := by
  cases na with
  | request method key value rand => simp [panics, CanServe, kvsArrive_panicked]
  | kvsBegin r => simp [panics, CanServe, kvsBegin_panicked]
  | kvsWake h =>
    simp only [panics, CanServe, not_not]
    exact kvsLoop_panicked _ _ _
  | _ => simp [panics, CanServe]

lemma kvsLoop_locked {m : MiddleWare Ip} {h : Handler} (hl : m.locked = false)
    (hpanic : (errs.kvsLoop m h).2 ≠ .panicked) : (errs.kvsLoop m h).1.locked = false := by
  unfold kvsLoop at hpanic ⊢
  split
  · next hnone => simp [hnone] at hpanic
  · next len hlen =>
    split
    · exact hl
    · obtain ⟨kvs, raftLog, hc⟩ := errs.kvsCommit_frame m h.req
      dsimp only
      rw [hc]
      exact hl

/-- A call that evaluates its condition finds a length. -/
lemma CanServe.sentLens (h : errs.CanServe mw na) {p : MiddleWare Ip × Handler}
    (hp : errs.evaluates mw na = some p) : mw.sentLens ≠ [] := by
  cases na with
  | kvsBegin r =>
    have hcheck : errs.kvsCheck { mw with arrived := mw.arrived.erase r } r = none ∧
        { mw with arrived := mw.arrived.erase r }.kvsLog r = p := by simpa [evaluates] using hp
    exact h hcheck.1
  | kvsWake hd => exact h
  | _ => simp [evaluates] at hp

variable [DecidableEq Ip]

/-- An action that serves no call leaves `Cond.L` as it is. -/
lemma locked_of_ofCall (h : mw.act na = some e) (hna : na.ofCall = false) :
    e.mw.locked = mw.locked := by
  cases MiddleWare.act_cases h with
  | request | kvsBegin | kvsWake => simp [NodeAct.ofCall] at hna
  | sessionSend s =>
    dsimp only
    split <;> rfl
  | sessionDone s | sessionKept s =>
    obtain ⟨sessions, waiting, hmw⟩ := MiddleWare.collected_frame mw s
    rw [hmw]
  | replicate src session mean t entry =>
    obtain ⟨_, _, _, _, _, _, _, hmw⟩ := MiddleWare.handleReplicate_frame mw src mean t entry
    rw [hmw]
  | response src a s =>
    obtain ⟨sentLen, commitLen, hmw⟩ := MiddleWare.collect_frame mw s (sendReplicate src a)
    rw [hmw]
    rfl
  | vote src c =>
    obtain ⟨_, _, _, _, _, hmw⟩ := MiddleWare.handleVoteRequest_frame mw src c
    rw [hmw]
  | voteRsp src t a =>
    obtain ⟨routine, hmw⟩ := MiddleWare.electionRsp_frame mw src t a
    rw [hmw]
  | _ => rfl

/-- Whatever an action does without a panic, it leaves `Cond.L` free. -/
lemma act_locked (h : errs.act mw na = some e) (hl : mw.locked = false)
    (hserve : errs.CanServe mw na) : e.mw.locked = false := by
  cases act_cases h with
  | request method key value rand _ effect =>
    obtain ⟨arrived, hmw⟩ := errs.request_frame mw method key value rand
    rw [effect, hmw]
    exact hl
  | refused r resp _ effect =>
    rw [effect]
    exact hl
  | evaluates m hd enters evaluates effect =>
    rw [effect]
    refine kvsLoop_locked (enters.locked.trans hl) fun hp => hserve.sentLens evaluates ?_
    rw [← enters.lens]
    exact (kvsLoop_panicked errs m hd).1 hp
  | other hact _ hna => exact (locked_of_ofCall hact hna).trans hl

instance (errs : StoreErrors) (mw : MiddleWare Ip) (na : NodeAct Ip) :
    Decidable (errs.CanServe mw na) :=
  match na with
  | .request method _ _ _ =>
    inferInstanceAs (Decidable (mw.state = .MASTER → method = .GET → mw.otherIp ≠ []))
  | .kvsBegin r => inferInstanceAs (Decidable (errs.kvsCheck mw r = none → mw.sentLens ≠ []))
  | .kvsWake _ => inferInstanceAs (Decidable (mw.sentLens ≠ []))
  | .mainLoop | .consumerTimer | .consumerDone | .electionStart | .electionStop | .electionWin
  | .producerTimer | .producerDone | .sessionSend _ | .sessionDone _ | .sessionTimer _
  | .recv _ _ => inferInstanceAs (Decidable True)

end StoreErrors

namespace Solo

variable [DecidableEq Ip]

/-- The step does not panic, and `Cond.L` is free behind it. -/
def Released (s : Solo Ip) (a : NodeAct Ip × StoreErrors) : Prop :=
  ¬ a.2.panics s.mw a.1 ∧ ∀ e ∈ a.2.act s.mw a.1, e.mw.locked = false

/-- In every run of a node no step panics and `Cond.L` is free behind each one exactly when every
step of a call has a peer to work with. -/
theorem never_panics_iff (selfIp : Ip) (otherIp : List Ip) (as : List (NodeAct Ip × StoreErrors))
    (s : Solo Ip) :
    Steps stepOn Released (start (.init selfIp otherIp)) as s ↔
      Steps stepOn (fun s a => a.2.CanServe s.mw a.1) (start (.init selfIp otherIp)) as s := by
  constructor
  · intro hreleased
    refine hreleased.mono fun r a hr => ?_
    by_contra hserve
    exact hr.1 ((a.2.panics_iff r.mw a.1).2 hserve)
  · intro hserves
    suffices hboth : Steps stepOn Released (start (.init selfIp otherIp)) as s ∧
        s.mw.locked = false from hboth.1
    induction hserves with
    | nil => exact ⟨.nil, rfl⟩
    | snoc _ hok hlast ih =>
      obtain ⟨hrun, hfree⟩ := ih
      obtain ⟨e, hact, rfl⟩ := Option.map_eq_some_iff.1 hlast
      have hpanic := fun hp => (StoreErrors.panics_iff _ _ _).1 hp hok
      have hlocked := StoreErrors.act_locked hact hfree hok
      refine ⟨hrun.snoc ⟨hpanic, fun e' he' => ?_⟩ hlast, hlocked⟩
      obtain rfl : e = e' := by simpa [hact] using he'
      exact hlocked

/-- Node `0` of three is elected and asked to create a key. -/
def firstWrite : List (NodeAct (Fin 3)) :=
  [.mainLoop, .consumerTimer, .mainLoop, .electionStart, .recv 1 (.voteRsp 1 ⟨200, 1, true⟩),
    .electionWin, .request .POST "a" "x" 0]

theorem never_panics_elected : ∃ s : Solo (Fin 3),
    Steps stepOn Released (start (.init 0 [1, 2])) (served firstWrite) s ∧
      s.mw.state = .MASTER := by
  obtain ⟨s, hs, hmaster⟩ : ∃ s, Steps stepOn (fun s a => a.2.CanServe s.mw a.1)
      (start (.init (0 : Fin 3) [1, 2])) (served firstWrite) s ∧ s.mw.state = .MASTER :=
    steps_of_exec (served firstWrite) (by decide)
  exact ⟨s, (never_panics_iff 0 [1, 2] (served firstWrite) s).2 hs, hmaster⟩

/-- No peer has answered a heartbeat yet. -/
theorem first_write_panics : ∃ s : Solo (Fin 3),
    AllSteps stepOn (start (.init 0 [1, 2]))
        (served (firstWrite ++ [.kvsBegin ⟨0, .POST, "a", "x"⟩])) s ∧
      s.mw.locked = true ∧ s.mw.running = true :=
  steps_of_exec (served (firstWrite ++ [.kvsBegin ⟨0, .POST, "a", "x"⟩])) (by decide)

end Solo

end TiPI.DB
