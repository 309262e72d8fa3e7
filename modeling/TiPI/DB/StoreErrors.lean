import TiPI.DB.Master

/-!
# A store that fails

Pudge answers a call of `HandleKvs` with an error when its file cannot be read or written. Here the
store says in each step what goes wrong; with no errors the node acts as in `MiddleWare.act`.
-/

namespace TiPI.DB

variable {Ip : Type}

/-- What goes wrong in the store while a call works with it. -/
structure StoreErrors where
  /-- the error of `Kvs.Read`, where it is not `ErrKeyNotFound` -/
  read : Option String
  /-- the error of `Kvs.Write` or `Kvs.Delete`, and the table that it leaves -/
  change : Option (String × Kvs)

/-- The pieces of `HandleKvs`. -/
def NodeAct.ofCall : NodeAct Ip → Bool
  | .request _ _ _ _ | .kvsBegin _ | .kvsWake _ => true
  | .mainLoop | .consumerTimer | .consumerDone | .electionStart | .electionStop | .electionWin
  | .producerTimer | .producerDone | .sessionSend _ | .sessionDone _ | .sessionTimer _
  | .recv _ _ => false

namespace StoreErrors

/-- The store does what it is asked to. -/
def fine : StoreErrors := ⟨none, none⟩

open MiddleWare (Arrival Section)

/-! ### The handler -/

/-- `HandleKvs` on `GET`: the key is read on a node that is not `MASTER`. -/
def kvsGet (errs : StoreErrors) (mw : MiddleWare Ip) (key : String) (rand : Nat) : Arrival Ip :=
  match errs.read, mw.state with
  | some err, .SLAVE | some err, .CONDIDATE =>
    .answered ⟨500, .text s!"data base error: {err}"⟩
  | some _, .MASTER | none, _ => mw.kvsGet key rand

def kvsArrive (errs : StoreErrors) (mw : MiddleWare Ip) (r : Request) (rand : Nat) : Arrival Ip :=
  match r.method with
  | .GET => errs.kvsGet mw r.key rand
  | .POST | .PATCH | .DELETE | .other _ => mw.kvsArrive r rand

/-- `POST` goes on when the key cannot be read. -/
def kvsCheck (errs : StoreErrors) (mw : MiddleWare Ip) (r : WriteRequest) : Option (Response Ip) :=
  match errs.read, r.method with
  | none, _ => mw.kvsCheck r
  | some _, .POST => none
  | some err, .PATCH | some err, .DELETE => some ⟨500, .text s!"data base error: {err}"⟩

/-- A call whose change fails returns without `LogCommit`. -/
def kvsCommit (errs : StoreErrors) (mw : MiddleWare Ip) (r : WriteRequest) :
    MiddleWare Ip × Response Ip :=
  match errs.change, r.method with
  | none, _ => mw.kvsCommit r
  | some (err, kvs), .POST =>
    ({ mw with kvs := kvs }, ⟨400, .text s!"Json decoding error: {err}"⟩)
  | some (err, kvs), .PATCH | some (err, kvs), .DELETE =>
    ({ mw with kvs := kvs }, ⟨500, .text s!"data base error: {err}"⟩)

def kvsLoop (errs : StoreErrors) (mw : MiddleWare Ip) (h : Handler) : MiddleWare Ip × Section Ip :=
  match minSentLenQuorum mw.sentLens with
  | none => ({ mw with locked := true }, .panicked)
  | some len =>
    if h.requiredLen > len then
      ({ mw with waiting := mw.waiting ++ [{ h with notified := false }] }, .waits)
    else
      let (mw, r) := errs.kvsCommit mw h.req
      (mw, .done h r)

def kvsBegin (errs : StoreErrors) (mw : MiddleWare Ip) (r : WriteRequest) :
    MiddleWare Ip × Section Ip :=
  let mw := { mw with arrived := mw.arrived.erase r }
  match errs.kvsCheck mw r with
  | some resp => (mw, .refused resp)
  | none =>
    let (mw, h) := mw.kvsLog r
    errs.kvsLoop mw h

def kvsWake (errs : StoreErrors) (mw : MiddleWare Ip) (h : Handler) : MiddleWare Ip × Section Ip :=
  errs.kvsLoop { mw with waiting := mw.waiting.erase h } h

def request (errs : StoreErrors) (mw : MiddleWare Ip) (method : Method) (key value : String)
    (rand : Nat) : Effect Ip :=
  let r : Request := ⟨mw.nextRequest, method, key, value⟩
  let mw := { mw with nextRequest := mw.nextRequest + 1 }
  match errs.kvsArrive mw r rand with
  | .answered resp => { mw := mw, events := [.invoked r, .answered r.id resp none] }
  | .lock w => { mw := { mw with arrived := mw.arrived ++ [w] }, events := [.invoked r] }
  | .panicked => { mw := mw, events := [.invoked r] }

/-- One action of a node whose store answers with these errors. -/
def act [DecidableEq Ip] (errs : StoreErrors) (mw : MiddleWare Ip) (na : NodeAct Ip) :
    Option (Effect Ip) :=
  if !mw.running then none
  else
    match na with
    | .request method key value rand => some (errs.request mw method key value rand)
    | .kvsBegin r =>
      if mw.locked ∨ r ∉ mw.arrived then none
      else
        let (mw, sec) := errs.kvsBegin mw r
        some { mw := mw, events := sec.events r.id }
    | .kvsWake h =>
      if mw.locked ∨ h ∉ mw.waiting ∨ !h.notified then none
      else
        let (mw, sec) := errs.kvsWake mw h
        some { mw := mw, events := sec.events h.req.id }
    | na => mw.act na

lemma act_running [DecidableEq Ip] {errs : StoreErrors} {mw : MiddleWare Ip} {na : NodeAct Ip}
    {e : Effect Ip} (h : errs.act mw na = some e) : mw.running = true := by
  unfold act at h
  split at h
  · simp at h
  · next hr => simpa using hr

/-! ### A store without errors -/

lemma fine_kvsArrive (mw : MiddleWare Ip) (r : Request) (rand : Nat) :
    fine.kvsArrive mw r rand = mw.kvsArrive r rand := by
  unfold kvsArrive
  split
  · next hget =>
    simp [kvsGet, fine, MiddleWare.kvsArrive, hget]
  all_goals rfl

lemma fine_request (mw : MiddleWare Ip) (method : Method) (key value : String) (rand : Nat) :
    fine.request mw method key value rand = mw.request method key value rand := by
  unfold request MiddleWare.request
  cases harrive : { mw with nextRequest := mw.nextRequest + 1 }.kvsArrive
    ⟨mw.nextRequest, method, key, value⟩ rand <;> simp only [fine_kvsArrive, harrive]

lemma fine_act [DecidableEq Ip] (mw : MiddleWare Ip) (na : NodeAct Ip) :
    fine.act mw na = mw.act na := by
  unfold act MiddleWare.act
  split
  · rfl
  · next hrunning =>
    cases na with
    | request method key value rand => simp only [fine_request]
    | _ => rfl

/-! ### The change of a call -/

/-- The store takes the change of a call that has left its wait loop. -/
def takes (errs : StoreErrors) (mw : MiddleWare Ip) (h : Handler) : Bool :=
  errs.change.isNone && !mw.deleteFails h

variable {errs : StoreErrors} {mw m : MiddleWare Ip} {h hd : Handler} {na : NodeAct Ip}
  {e : Effect Ip}

/-- A call whose change is taken commits and succeeds; any other one is answered with an error and
leaves the log as it is. -/
lemma kvsCommit_cases (errs : StoreErrors) (mw : MiddleWare Ip) (h : Handler) :
    (errs.takes mw h = true ∧ (errs.kvsCommit mw h.req).1.raftLog = mw.raftLog.logCommit ∧
        (errs.kvsCommit mw h.req).2.status < 400) ∨
      (errs.takes mw h = false ∧ (errs.kvsCommit mw h.req).1.raftLog = mw.raftLog ∧
        400 ≤ (errs.kvsCommit mw h.req).2.status) := by
  unfold takes kvsCommit
  cases errs.change with
  | none =>
    rcases mw.kvsCommit_cases h with ⟨hdel, hmw, hstatus⟩ | ⟨hdel, hlog, hstatus | hstatus⟩
    · exact .inr ⟨by simp [hdel], congrArg _ hmw, by simp [hstatus]⟩
    · exact .inl ⟨by simp [hdel], hlog, by simp [hstatus]⟩
    · exact .inl ⟨by simp [hdel], hlog, by simp [hstatus]⟩
  | some failed =>
    refine .inr ⟨rfl, ?_⟩
    cases h.req.method <;> exact ⟨rfl, by simp⟩

lemma kvsCommit_status : 400 ≤ (errs.kvsCommit mw h.req).2.status ↔ errs.takes mw h = false := by
  rcases errs.kvsCommit_cases mw h with ⟨htakes, -, hstatus⟩ | ⟨htakes, -, hstatus⟩
  · simp [htakes, hstatus]
  · simp [htakes, hstatus]

lemma kvsCommit_frame (errs : StoreErrors) (mw : MiddleWare Ip) (r : WriteRequest) :
    ∃ kvs raftLog, (errs.kvsCommit mw r).1 = { mw with kvs := kvs, raftLog := raftLog } := by
  unfold kvsCommit
  cases errs.change with
  | none => exact mw.kvsCommit_frame r
  | some failed => cases r.method <;> exact ⟨_, _, rfl⟩

/-- Only a call that leaves its loop works with the store. -/
lemma kvsLoop_eq (errs : StoreErrors) (mw : MiddleWare Ip) (h : Handler) :
    errs.kvsLoop mw h =
      if mw.quorumReached h then ((errs.kvsCommit mw h.req).1, .done h (errs.kvsCommit mw h.req).2)
      else mw.kvsLoop h := by
  unfold kvsLoop MiddleWare.kvsLoop MiddleWare.quorumReached
  cases minSentLenQuorum mw.sentLens with
  | none => rfl
  | some len =>
    by_cases hlen : h.requiredLen ≤ len
    · simp [hlen]
    · simp [hlen, not_le.mp hlen]

/-! ### The calls at their wait loops -/

/-- The call that evaluates the condition of its wait loop in an action, and the node then. -/
def evaluates (errs : StoreErrors) (mw : MiddleWare Ip) :
    NodeAct Ip → Option (MiddleWare Ip × Handler)
  | .kvsBegin r =>
    let mw := { mw with arrived := mw.arrived.erase r }
    if (errs.kvsCheck mw r).isNone then some (mw.kvsLog r) else none
  | .kvsWake h => some ({ mw with waiting := mw.waiting.erase h }, h)
  | _ => none

/-- The call that leaves its wait loop in an action. -/
def leaving (errs : StoreErrors) (mw : MiddleWare Ip) (na : NodeAct Ip) :
    Option (MiddleWare Ip × Handler) :=
  (errs.evaluates mw na).filter fun p => p.1.quorumReached p.2

/-- What the evaluation of the condition starts from. -/
structure Enters (mw m : MiddleWare Ip) (h : Handler) : Prop where
  routine : m.routine = mw.routine
  locked : m.locked = mw.locked
  lens : m.sentLens = mw.sentLens
  log : ∀ x ∈ mw.raftLog.log, x ∈ m.raftLog.log
  waiting : ∀ hd ∈ m.waiting, hd ∈ mw.waiting
  entry : h ∈ mw.waiting ∨ h.entry ∈ m.raftLog.log

lemma mem_logOp {l : Logger} {msg x : RaftLogEntry} (hx : x ∈ l.log) : x ∈ (l.logOp msg).log := by
  obtain ⟨y, hy, -⟩ := MiddleWare.logOp_toCommit l msg
  rw [Logger.log, Logger.logOp_file, hy, ← List.append_assoc]
  exact List.mem_append_left _ hx

/-- The entry of a call that has just logged it. -/
lemma kvsLog_mem (mw : MiddleWare Ip) (r : WriteRequest) :
    (mw.kvsLog r).2.entry ∈ (mw.kvsLog r).1.raftLog.log := by
  obtain ⟨x, hx, -⟩ := MiddleWare.logOp_toCommit mw.raftLog (mw.kvsEntry r)
  simp [MiddleWare.kvsLog, Logger.log, hx]

lemma enters_kvsLog (mw : MiddleWare Ip) (r : WriteRequest) :
    Enters mw ({ mw with arrived := mw.arrived.erase r }.kvsLog r).1
      ({ mw with arrived := mw.arrived.erase r }.kvsLog r).2 where
  routine := rfl
  locked := rfl
  lens := rfl
  log := fun _ => mem_logOp
  waiting := fun _ => id
  entry := .inr (kvsLog_mem _ r)

lemma enters_waiting (hw : h ∈ mw.waiting) :
    Enters mw { mw with waiting := mw.waiting.erase h } h where
  routine := rfl
  locked := rfl
  lens := rfl
  log := fun _ => id
  waiting := fun _ => List.mem_of_mem_erase
  entry := .inl hw

/-- What an action is for the calls of a node whose store may fail. -/
inductive Case [DecidableEq Ip] (errs : StoreErrors) (mw : MiddleWare Ip) (na : NodeAct Ip)
    (e : Effect Ip) : Prop
  | request (method : Method) (key value : String) (rand : Nat)
      (hna : na = .request method key value rand)
      (effect : e = errs.request mw method key value rand)
  | refused (r : WriteRequest) (resp : Response Ip) (evaluates : errs.evaluates mw na = none)
      (effect : e = { mw := { mw with arrived := mw.arrived.erase r },
                      events := [.answered r.id resp none] })
  | evaluates (m : MiddleWare Ip) (h : Handler) (enters : Enters mw m h)
      (evaluates : errs.evaluates mw na = some (m, h))
      (effect : e = { mw := (errs.kvsLoop m h).1, events := (errs.kvsLoop m h).2.events h.req.id })
  | other (act : mw.act na = some e) (quiet : mw.Quiet e) (hna : na.ofCall = false)

lemma act_cases [DecidableEq Ip] (h : errs.act mw na = some e) : Case errs mw na e := by
  unfold act at h
  split at h
  · simp at h
  have hother (hact : mw.act na = some e) (hna : na.ofCall = false) : Case errs mw na e := by
    cases MiddleWare.act_calls hact with
    | request _ _ _ _ hna' | begins _ hna' | wakes _ hna' => simp [hna', NodeAct.ofCall] at hna
    | other quiet => exact .other hact quiet hna
  cases na with
  | request method key value rand =>
    exact .request method key value rand rfl (Option.some.inj h).symm
  | kvsBegin r =>
    simp only [Option.ite_none_left_eq_some, Option.some.injEq] at h
    obtain ⟨-, rfl⟩ := h
    have hcheck : errs.kvsCheck { mw with arrived := mw.arrived.erase r } r =
        errs.kvsCheck mw r := rfl
    simp only [kvsBegin, hcheck]
    cases hc : errs.kvsCheck mw r with
    | some resp => exact .refused r resp (by simp [evaluates, hcheck, hc]) rfl
    | none =>
      exact .evaluates _ _ (enters_kvsLog mw r) (by simp [evaluates, hcheck, hc]) rfl
  | kvsWake hd =>
    simp only [Option.ite_none_left_eq_some, not_or, not_not, Option.some.injEq] at h
    obtain ⟨⟨-, hwaiting, -⟩, rfl⟩ := h
    exact .evaluates _ _ (enters_waiting hwaiting) rfl rfl
  | _ => exact hother h rfl

lemma evaluates_of_ofCall (hna : na.ofCall = false) : errs.evaluates mw na = none := by
  cases na <;> simp_all [evaluates, NodeAct.ofCall]

lemma Case.of_evaluates [DecidableEq Ip] (hcase : Case errs mw na e)
    (hev : errs.evaluates mw na = some (m, h)) : Enters mw m h ∧
      e = { mw := (errs.kvsLoop m h).1, events := (errs.kvsLoop m h).2.events h.req.id } := by
  cases hcase with
  | request _ _ _ _ hna => simp [hna, StoreErrors.evaluates] at hev
  | refused _ _ evaluates => simp [evaluates] at hev
  | evaluates m' h' enters evaluates effect =>
    obtain ⟨rfl, rfl⟩ : m' = m ∧ h' = h := by simpa [evaluates] using hev
    exact ⟨enters, effect⟩
  | other _ _ hna => simp [evaluates_of_ofCall hna] at hev

lemma request_frame (errs : StoreErrors) (mw : MiddleWare Ip) (method : Method)
    (key value : String) (rand : Nat) : ∃ arrived,
    (errs.request mw method key value rand).mw =
      { mw with arrived := arrived, nextRequest := mw.nextRequest + 1 } := by
  unfold request
  dsimp only
  split <;> exact ⟨_, rfl⟩

lemma kvsLoop_routine (errs : StoreErrors) (m : MiddleWare Ip) (h : Handler) :
    (errs.kvsLoop m h).1.routine = m.routine := by
  rw [kvsLoop_eq]
  split
  · obtain ⟨kvs, raftLog, hc⟩ := errs.kvsCommit_frame m h.req
    rw [hc]
  · obtain ⟨kvs, raftLog, locked, waiting, hl⟩ := MiddleWare.kvsLoop_frame m h
    rw [hl]

lemma kvsLoop_log {x : RaftLogEntry} (hx : x ∈ m.raftLog.log) :
    x ∈ (errs.kvsLoop m h).1.raftLog.log := by
  rw [kvsLoop_eq]
  split
  · rcases errs.kvsCommit_cases m h with ⟨-, hlog, -⟩ | ⟨-, hlog, -⟩
    · rwa [hlog, Logger.logCommit_log]
    · rwa [hlog]
  · next hq => rwa [(MiddleWare.kvsLoop_stays (by simpa using hq)).1]

lemma kvsLoop_waiting (hw : hd ∈ (errs.kvsLoop m h).1.waiting) :
    hd ∈ m.waiting ∨ hd = { h with notified := false } := by
  rw [kvsLoop_eq] at hw
  split at hw
  · obtain ⟨kvs, raftLog, hc⟩ := errs.kvsCommit_frame m h.req
    rw [hc] at hw
    exact .inl hw
  · exact MiddleWare.kvsLoop_waiting hw

end StoreErrors

/-! ### Runs of one node -/

namespace Solo

variable [DecidableEq Ip]

/-- A step of a node, with the errors of its store. -/
def stepOn (s : Solo Ip) (a : NodeAct Ip × StoreErrors) : Option (Solo Ip) :=
  (a.2.act s.mw a.1).map fun e => ⟨e.mw, s.trace ++ e.events⟩

omit [DecidableEq Ip] in
/-- The actions of a node whose store does what it is asked to. -/
def served (as : List (NodeAct Ip)) : List (NodeAct Ip × StoreErrors) := as.map (·, .fine)

lemma stepOn_fine (s : Solo Ip) (na : NodeAct Ip) : s.stepOn (na, .fine) = s.step na := by
  rw [stepOn, step, StoreErrors.fine_act]

end Solo

end TiPI.DB
