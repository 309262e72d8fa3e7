import TiPI.Auditor.Numbering
import Mathlib.Data.List.Forall2

/-!
# What is recorded

A request that is answered with 201 has its row in the table `events`, the rows are those of these
requests, one each, and what the names and the ids of a row say is what the request said.
-/

namespace TiPI.Auditor

variable {refuses : PostEventRequest → Option String}

/-! ### The tables while calls go on -/

namespace Db

variable {s s' s'' : Db} {i : Nat} {c : Call} {a : Act}

/-- Call `k` asks for the id of this name. -/
def Asks (s : Db) (k : Nat) (name : String) (table : Table) : Prop :=
  ∃ c, s.calls[k]? = some c ∧ c.name = name ∧ c.table = table

/-- Rows stay, and so does what the calls ask for. -/
structure Extends (s s' : Db) : Prop where
  rows : ∀ table n id, s.rows table n = some id → s'.rows table n = some id
  asks : ∀ k name table, s.Asks k name table → s'.Asks k name table

lemma Extends.refl (s : Db) : s.Extends s := ⟨fun _ _ _ h => h, fun _ _ _ h => h⟩

lemma Asks.goto {pc : Pc} {k : Nat} {name : String} {table : Table} (h : s.Asks k name table)
    (hc : s.calls[i]? = some c) : (s.goto i c pc).Asks k name table := by
  obtain ⟨d, hd, hname, htable⟩ := h
  by_cases hik : i = k
  · subst hik
    obtain rfl : c = d := Option.some.inj (hc.symm.trans hd)
    exact ⟨_, List.getElem?_set_self (List.getElem?_eq_some_iff.1 hc).1, hname, htable⟩
  · exact ⟨d, (List.getElem?_set_ne hik).trans hd, hname, htable⟩

lemma asks_step (hstep : s.step a = some s') {k : Nat} {name : String} {table : Table}
    (h : s.Asks k name table) : s'.Asks k name table := by
  cases step_cases hstep with
  | call name' table' =>
    obtain ⟨d, hd, hname, htable⟩ := h
    have hlt := (List.getElem?_eq_some_iff.1 hd).1
    exact ⟨d, (List.getElem?_append_left hlt).trans hd, hname, htable⟩
  | inserts i c seq n id hc hpc => exact Asks.goto (s := { s with seq := seq }) h hc
  | refuses i c seq err hc hpc => exact Asks.goto (s := { s with seq := seq }) h hc
  | begins i c hc | selects i c hc | commits i c n id hc | returns i c id hc | fails i c err hc =>
    exact h.goto hc

structure Ok (s : Db) : Prop where
  sound : s.Sound
  told : ∀ c ∈ s.calls, s.Told c
  numbered : s.Numbered

lemma Ok.step (h : s.Ok) (hstep : s.step a = some s') : s'.Ok :=
  ⟨h.sound.step hstep, told_step h.sound h.told hstep, h.numbered.step hstep⟩

lemma Ok.extends (h : s.Ok) (hstep : s.step a = some s') : s.Extends s' :=
  ⟨fun _ _ _ hrow => h.sound.rows_step hstep hrow, fun _ _ _ hasks => asks_step hstep hasks⟩

lemma step_call (s : Db) (name : String) (table : Table) :
    s.step (.call name table) = some (s.call name table) := rfl

lemma asks_call (s : Db) (name : String) (table : Table) :
    (s.call name table).Asks s.calls.length name table :=
  ⟨⟨name, table, .beginTx⟩, by simp [call], rfl, rfl⟩

/-- The id that a call has returned. -/
lemma Ok.knows (h : s.Ok) {k : Nat} {name : String} {table : Table} {id : Nat}
    (hasks : s.Asks k name table) (hc : s.calls[k]? = some c) (hret : c.pc = .returned (.ok id)) :
    s.Knows table name id := by
  obtain ⟨d, hd, rfl, rfl⟩ := hasks
  obtain rfl : c = d := Option.some.inj (hc.symm.trans hd)
  have htold := h.told c (List.mem_of_getElem? hc)
  simpa only [Told, hret] using htold

/-- The row says what the request says. -/
structure Describes (s : Db) (req : PostEventRequest) (row : EventRow) : Prop where
  timestamp : row.timestamp = req.Ts
  op : s.Knows .operations req.Op row.op_id
  user : s.Knows .users req.User row.user_id
  component : ∃ id, row.component_id = some id ∧ s.Knows .components req.Component id
  session_id : row.session_id.getD 0 = req.Session_id
  req_id : row.req_id.getD 0 = req.Req_id
  res : row.res = req.Res
  attrs : row.attrs = req.Attrs

lemma Describes.mono {req : PostEventRequest} {row : EventRow} (h : s.Describes req row)
    (hext : s.Extends s') : s'.Describes req row := by
  obtain ⟨id, hid, hknows⟩ := h.component
  exact ⟨h.timestamp, h.op.mono hext.rows, h.user.mono hext.rows, ⟨id, hid, hknows.mono hext.rows⟩,
    h.session_id, h.req_id, h.res, h.attrs⟩

lemma refOf_getD (n : ℤ) : (refOf n).getD 0 = n := by
  unfold refOf
  split_ifs with hn
  · rfl
  · exact (not_not.1 hn).symm

lemma describes_row {req : PostEventRequest} {op_id user_id component_id : Nat}
    (hop : s.Knows .operations req.Op op_id) (huser : s.Knows .users req.User user_id)
    (hcomponent : s.Knows .components req.Component component_id) :
    s.Describes req (req.row op_id user_id component_id) :=
  ⟨rfl, hop, huser, ⟨component_id, rfl, hcomponent⟩, refOf_getD _, refOf_getD _, rfl, rfl⟩

end Db

/-! ### Answers -/

/-- What is wrong with the body of a request. -/
def wrong : Except String PostEventRequest → Option Response
  | .error err => some (respondError 400 "Invalid request body" err)
  | .ok req => req.invalid

lemma created_ne_respondError (status : Nat) (message details : String) :
    created ≠ respondError status message details := by
  simp [created, respondError]

lemma created_ne_serviceError (err : String) : created ≠ serviceError err := by
  unfold serviceError
  dsimp only
  split_ifs <;> exact created_ne_respondError _ _ _

lemma wrong_ne_created (body : Except String PostEventRequest) : wrong body ≠ some created := by
  cases body with
  | error err => exact fun h => created_ne_respondError _ _ _ (Option.some.inj h).symm
  | ok req =>
    intro h
    simp only [wrong, PostEventRequest.invalid] at h
    split_ifs at h <;> exact created_ne_respondError _ _ _ (Option.some.inj h).symm

/-! ### Steps of the server -/

/-- The call that a request waits for. -/
def AddEvent.awaits : AddEvent → Option Nat
  | .operation k | .user _ k | .component _ _ k => some k
  | .insert _ _ _ | .responded _ => none

namespace Server

variable {s s' : Server} {i : Nat} {p : Post} {a : ServerAct}

/-- The branches of a step. -/
inductive StepCase (refuses : PostEventRequest → Option String) (s : Server) :
    ServerAct → Server → Prop
  | rejects (body : Except String PostEventRequest) (r : Response) (wrong : wrong body = some r) :
      StepCase refuses s (.post body) { s with posts := s.posts ++ [⟨body, .responded r⟩] }
  | begins (req : PostEventRequest) (valid : req.invalid = none) :
      StepCase refuses s (.post (.ok req)) { s with
        db := s.db.call req.Op .operations
        posts := s.posts ++ [⟨.ok req, .operation s.db.calls.length⟩] }
  | waits (i k : Nat) (p : Post) (c : Call) (db : Db) (hp : s.posts[i]? = some p)
      (awaits : p.pc.awaits = some k) (hc : s.db.calls[k]? = some c) (running : ¬c.Returned)
      (hdb : s.db.step (.run k) = some db) : StepCase refuses s (.run i) { s with db := db }
  | fails (i k : Nat) (p : Post) (c : Call) (req : PostEventRequest) (err : String)
      (hp : s.posts[i]? = some p) (body : p.body = .ok req) (awaits : p.pc.awaits = some k)
      (hc : s.db.calls[k]? = some c) (returned : c.pc = .returned (.error err)) :
      StepCase refuses s (.run i)
        (s.goto i p (.responded (serviceError ("pg AddEvent error: " ++ err))))
  | user (i k : Nat) (p : Post) (c : Call) (req : PostEventRequest) (op_id : Nat)
      (hp : s.posts[i]? = some p) (body : p.body = .ok req) (pc : p.pc = .operation k)
      (hc : s.db.calls[k]? = some c) (returned : c.pc = .returned (.ok op_id)) :
      StepCase refuses s (.run i)
        ({ s with db := s.db.call req.User .users }.goto i p (.user op_id s.db.calls.length))
  | component (i k : Nat) (p : Post) (c : Call) (req : PostEventRequest) (op_id user_id : Nat)
      (hp : s.posts[i]? = some p) (body : p.body = .ok req) (pc : p.pc = .user op_id k)
      (hc : s.db.calls[k]? = some c) (returned : c.pc = .returned (.ok user_id)) :
      StepCase refuses s (.run i)
        ({ s with db := s.db.call req.Component .components }.goto i p
          (.component op_id user_id s.db.calls.length))
  | insert (i k : Nat) (p : Post) (c : Call) (req : PostEventRequest)
      (op_id user_id component_id : Nat) (hp : s.posts[i]? = some p) (body : p.body = .ok req)
      (pc : p.pc = .component op_id user_id k) (hc : s.db.calls[k]? = some c)
      (returned : c.pc = .returned (.ok component_id)) :
      StepCase refuses s (.run i) (s.goto i p (.insert op_id user_id component_id))
  | refused (i : Nat) (p : Post) (req : PostEventRequest) (op_id user_id component_id : Nat)
      (err : String) (hp : s.posts[i]? = some p) (body : p.body = .ok req)
      (pc : p.pc = .insert op_id user_id component_id) (refused : refuses req = some err) :
      StepCase refuses s (.run i)
        (s.goto i p (.responded (serviceError ("pg AddEvent query error: " ++ err))))
  | stores (i : Nat) (p : Post) (req : PostEventRequest) (op_id user_id component_id : Nat)
      (hp : s.posts[i]? = some p) (body : p.body = .ok req)
      (pc : p.pc = .insert op_id user_id component_id) (taken : refuses req = none) :
      StepCase refuses s (.run i)
        ({ s with events := s.events ++ [req.row op_id user_id component_id] }.goto i p
          (.responded created))

lemma await_cases {k : Nat} {next : Nat → Server} (h : s.await i p k next = some s') :
    ∃ c, s.db.calls[k]? = some c ∧ ((∃ id, c.pc = .returned (.ok id) ∧ s' = next id) ∨
      (∃ err, c.pc = .returned (.error err) ∧
        s' = s.goto i p (.responded (serviceError ("pg AddEvent error: " ++ err)))) ∨
      ¬c.Returned ∧ ∃ db, s.db.step (.run k) = some db ∧ s' = { s with db := db }) := by
  unfold await at h
  split at h
  · cases h
  · next c hc =>
    refine ⟨c, hc, ?_⟩
    split at h
    · next id hret => exact .inl ⟨id, hret, (Option.some.inj h).symm⟩
    · next err hret => exact .inr (.inl ⟨err, hret, (Option.some.inj h).symm⟩)
    · next hok herr =>
      obtain ⟨db, hdb, rfl⟩ := Option.map_eq_some_iff.1 h
      refine .inr (.inr ⟨?_, db, hdb, rfl⟩)
      rintro ⟨res, hret⟩
      cases res with
      | ok id => exact hok id hret
      | error err => exact herr err hret

lemma step_cases (h : step refuses s a = some s') : StepCase refuses s a s' := by
  cases a with
  | post body =>
    obtain rfl := Option.some.inj h
    unfold post
    split
    · next err => exact .rejects (.error err) _ rfl
    · next req =>
      split
      · next r hr => exact .rejects (.ok req) r hr
      · next hr => exact .begins req hr
  | run i =>
    obtain ⟨p, hp, h⟩ := Option.bind_eq_some_iff.1 h
    split at h
    · cases h
    · next req hbody =>
      unfold addEvent at h
      split at h
      · next k hpc =>
        obtain ⟨c, hc, ⟨id, hret, rfl⟩ | ⟨err, hret, rfl⟩ | ⟨hret, db, hdb, rfl⟩⟩ := await_cases h
        · exact .user i k p c req id hp hbody hpc hc hret
        · exact .fails i k p c req err hp hbody (by simp [hpc, AddEvent.awaits]) hc hret
        · exact .waits i k p c db hp (by simp [hpc, AddEvent.awaits]) hc hret hdb
      · next op_id k hpc =>
        obtain ⟨c, hc, ⟨id, hret, rfl⟩ | ⟨err, hret, rfl⟩ | ⟨hret, db, hdb, rfl⟩⟩ := await_cases h
        · exact .component i k p c req op_id id hp hbody hpc hc hret
        · exact .fails i k p c req err hp hbody (by simp [hpc, AddEvent.awaits]) hc hret
        · exact .waits i k p c db hp (by simp [hpc, AddEvent.awaits]) hc hret hdb
      · next op_id user_id k hpc =>
        obtain ⟨c, hc, ⟨id, hret, rfl⟩ | ⟨err, hret, rfl⟩ | ⟨hret, db, hdb, rfl⟩⟩ := await_cases h
        · exact .insert i k p c req op_id user_id id hp hbody hpc hc hret
        · exact .fails i k p c req err hp hbody (by simp [hpc, AddEvent.awaits]) hc hret
        · exact .waits i k p c db hp (by simp [hpc, AddEvent.awaits]) hc hret hdb
      · next op_id user_id component_id hpc =>
        split at h
        · next err hrefuses =>
          obtain rfl := Option.some.inj h
          exact .refused i p req op_id user_id component_id err hp hbody hpc hrefuses
        · next hrefuses =>
          obtain rfl := Option.some.inj h
          exact .stores i p req op_id user_id component_id hp hbody hpc hrefuses
      · cases h

/-- A step of the server is one of the tables, or leaves them alone. -/
lemma db_step (hstep : step refuses s a = some s') :
    s'.db = s.db ∨ ∃ b, s.db.step b = some s'.db := by
  cases step_cases hstep with
  | begins req => exact .inr ⟨_, Db.step_call s.db req.Op .operations⟩
  | waits i k p c db hp awaits hc running hdb => exact .inr ⟨_, hdb⟩
  | user i k p c req => exact .inr ⟨_, Db.step_call s.db req.User .users⟩
  | component i k p c req => exact .inr ⟨_, Db.step_call s.db req.Component .components⟩
  | _ => exact .inl rfl

lemma db_ok (h : s.db.Ok) (hstep : step refuses s a = some s') : s'.db.Ok := by
  rcases db_step hstep with hsame | ⟨b, hb⟩
  · rwa [hsame]
  · exact h.step hb

lemma db_extends (h : s.db.Ok) (hstep : step refuses s a = some s') : s.db.Extends s'.db := by
  rcases db_step hstep with hsame | ⟨b, hb⟩
  · rw [hsame]
    exact .refl _
  · exact h.extends hb

/-! ### Requests on their way -/

/-- What is known of a request that has no answer yet. -/
def Found (db : Db) (req : PostEventRequest) : AddEvent → Prop
  | .operation k => db.Asks k req.Op .operations
  | .user op_id k => db.Knows .operations req.Op op_id ∧ db.Asks k req.User .users
  | .component op_id user_id k => db.Knows .operations req.Op op_id ∧
      db.Knows .users req.User user_id ∧ db.Asks k req.Component .components
  | .insert op_id user_id component_id => db.Knows .operations req.Op op_id ∧
      db.Knows .users req.User user_id ∧ db.Knows .components req.Component component_id
  | .responded _ => False

def PostOk (db : Db) (p : Post) : Prop :=
  (∃ r, p.pc = .responded r) ∨ ∃ req, p.body = .ok req ∧ req.invalid = none ∧ Found db req p.pc

lemma Found.mono {db db' : Db} {req : PostEventRequest} {pc : AddEvent} (h : Found db req pc)
    (hext : db.Extends db') : Found db' req pc := by
  cases pc with
  | operation k => exact hext.asks _ _ _ h
  | user op_id k => exact ⟨h.1.mono hext.rows, hext.asks _ _ _ h.2⟩
  | component op_id user_id k =>
    exact ⟨h.1.mono hext.rows, h.2.1.mono hext.rows, hext.asks _ _ _ h.2.2⟩
  | insert op_id user_id component_id =>
    exact ⟨h.1.mono hext.rows, h.2.1.mono hext.rows, h.2.2.mono hext.rows⟩
  | responded r => exact h

lemma PostOk.mono {db db' : Db} (h : PostOk db p) (hext : db.Extends db') :
    PostOk db' p := by
  rcases h with hanswered | ⟨req, hbody, hvalid, hfound⟩
  · exact .inl hanswered
  · exact .inr ⟨req, hbody, hvalid, hfound.mono hext⟩

lemma PostOk.found {db : Db} {req : PostEventRequest} {pc : AddEvent} (h : PostOk db p)
    (hbody : p.body = .ok req) (hpc : p.pc = pc) (hopen : ∀ r, pc ≠ .responded r) :
    req.invalid = none ∧ Found db req pc := by
  subst hpc
  rcases h with ⟨r, hr⟩ | ⟨req', hbody', hvalid, hfound⟩
  · exact absurd hr (hopen r)
  · obtain rfl : req = req' := Except.ok.inj (hbody.symm.trans hbody')
    exact ⟨hvalid, hfound⟩

lemma getElem?_goto {pc : AddEvent} {j : Nat} {q : Post} (hq : (s.goto i p pc).posts[j]? = some q) :
    (j = i ∧ q = { p with pc := pc }) ∨ (j ≠ i ∧ s.posts[j]? = some q) := by
  rw [goto, List.getElem?_set] at hq
  split_ifs at hq with hij
  · exact .inl ⟨hij.symm, (Option.some.inj hq).symm⟩
  · exact .inr ⟨Ne.symm hij, hq⟩

lemma forall_posts_goto {pc : AddEvent} {P : Post → Prop} (hold : ∀ q ∈ s.posts, P q)
    (hnew : P { p with pc := pc }) : ∀ q ∈ (s.goto i p pc).posts, P q := by
  intro q hq
  rcases List.mem_or_eq_of_mem_set hq with hq | rfl
  · exact hold q hq
  · exact hnew

lemma forall_posts_snoc {q : Post} {P : Post → Prop} (hold : ∀ q ∈ s.posts, P q) (hnew : P q) :
    ∀ q' ∈ s.posts ++ [q], P q' := by
  intro q' hq'
  rcases List.mem_append.1 hq' with hq' | hq'
  · exact hold q' hq'
  · obtain rfl := List.mem_singleton.1 hq'
    exact hnew

lemma posts_step (hdb : s.db.Ok) (hposts : ∀ p ∈ s.posts, PostOk s.db p)
    (hstep : step refuses s a = some s') : ∀ p ∈ s'.posts, PostOk s'.db p := by
  have hold : ∀ p ∈ s.posts, PostOk s'.db p :=
    fun p hp => (hposts p hp).mono (db_extends hdb hstep)
  cases step_cases hstep with
  | rejects body r wrong => exact forall_posts_snoc hold (.inl ⟨r, rfl⟩)
  | begins req valid =>
    exact forall_posts_snoc hold (.inr ⟨req, rfl, valid, Db.asks_call s.db req.Op .operations⟩)
  | waits i k p c db hp awaits hc running hdb => exact hold
  | fails i k p c req err hp body awaits hc returned =>
    exact forall_posts_goto hold (.inl ⟨_, rfl⟩)
  | user i k p c req op_id hp body pc hc returned =>
    obtain ⟨hvalid, hasks⟩ := (hposts p (List.mem_of_getElem? hp)).found body pc (by simp)
    have hop := (hdb.knows hasks hc returned).mono (db_extends hdb hstep).rows
    exact forall_posts_goto (s := { s with db := _ }) hold
      (.inr ⟨req, body, hvalid, hop, Db.asks_call s.db req.User .users⟩)
  | component i k p c req op_id user_id hp body pc hc returned =>
    obtain ⟨hvalid, hop, hasks⟩ := (hposts p (List.mem_of_getElem? hp)).found body pc (by simp)
    have hrows := (db_extends hdb hstep).rows
    have huser := (hdb.knows hasks hc returned).mono hrows
    exact forall_posts_goto (s := { s with db := _ }) hold
      (.inr ⟨req, body, hvalid, hop.mono hrows, huser, Db.asks_call s.db req.Component .components⟩)
  | insert i k p c req op_id user_id component_id hp body pc hc returned =>
    obtain ⟨hvalid, hop, huser, hasks⟩ :=
      (hposts p (List.mem_of_getElem? hp)).found body pc (by simp)
    exact forall_posts_goto hold
      (.inr ⟨req, body, hvalid, hop, huser, hdb.knows hasks hc returned⟩)
  | refused i p req op_id user_id component_id err hp body pc refused =>
    exact forall_posts_goto hold (.inl ⟨_, rfl⟩)
  | stores i p req op_id user_id component_id hp body pc taken =>
    exact forall_posts_goto (s := { s with events := _ }) hold (.inl ⟨_, rfl⟩)

/-! ### Rows and answers -/

/-- The requests that have been answered with 201, in the order of their rows. -/
structure Stored (refuses : PostEventRequest → Option String) (s : Server) (l : List Nat) :
    Prop where
  nodup : l.Nodup
  mem : ∀ i, i ∈ l ↔ ∃ p, s.posts[i]? = some p ∧ p.pc = .responded created
  rows : List.Forall₂ (fun i row => ∃ req, (s.posts[i]?).map Post.body = some (.ok req) ∧
    req.invalid = none ∧ refuses req = none ∧ s.db.Describes req row) l s.events

lemma rows_mono {l : List Nat} {events : List EventRow} (hext : s.db.Extends s'.db)
    (hbody : ∀ (i : Nat) b, (s.posts[i]?).map Post.body = some b →
      (s'.posts[i]?).map Post.body = some b)
    (h : List.Forall₂ (fun i row => ∃ req, (s.posts[i]?).map Post.body = some (.ok req) ∧
      req.invalid = none ∧ refuses req = none ∧ s.db.Describes req row) l events) :
    List.Forall₂ (fun i row => ∃ req, (s'.posts[i]?).map Post.body = some (.ok req) ∧
      req.invalid = none ∧ refuses req = none ∧ s'.db.Describes req row) l events := by
  refine h.imp fun i row => ?_
  rintro ⟨req, hreq, hvalid, htaken, hrow⟩
  exact ⟨req, hbody i _ hreq, hvalid, htaken, hrow.mono hext⟩

lemma body_goto {pc : AddEvent} (hp : s.posts[i]? = some p) (j : Nat)
    (b : Except String PostEventRequest) (hb : (s.posts[j]?).map Post.body = some b) :
    ((s.goto i p pc).posts[j]?).map Post.body = some b := by
  by_cases hij : i = j
  · subst hij
    have hlt := (List.getElem?_eq_some_iff.1 hp).1
    have hnew : (s.goto i p pc).posts[i]? = some { p with pc := pc } := List.getElem?_set_self hlt
    rw [hnew]
    rwa [hp] at hb
  · have hold : (s.goto i p pc).posts[j]? = s.posts[j]? := List.getElem?_set_ne hij
    rwa [hold]

/-- A request goes on, and is not answered with 201 by that. -/
lemma Stored.goto {l : List Nat} (h : s.Stored refuses l) {db : Db} (hext : s.db.Extends db)
    (hp : s.posts[i]? = some p) (hopen : p.pc ≠ .responded created) {pc : AddEvent}
    (hpc : pc ≠ .responded created) : Stored refuses ({ s with db := db }.goto i p pc) l where
  nodup := h.nodup
  mem j := by
    rw [h.mem]
    by_cases hij : i = j
    · subst hij
      have hlt := (List.getElem?_eq_some_iff.1 hp).1
      have hnew : ({ s with db := db }.goto i p pc).posts[i]? = some { p with pc := pc } :=
        List.getElem?_set_self hlt
      rw [hp, hnew]
      simp [hopen, hpc]
    · have hold : ({ s with db := db }.goto i p pc).posts[j]? = s.posts[j]? :=
        List.getElem?_set_ne hij
      rw [hold]
  rows := rows_mono (s := s) hext (body_goto hp) h.rows

lemma Stored.snoc {l : List Nat} (h : s.Stored refuses l) {db : Db} (hext : s.db.Extends db)
    {q : Post} (hq : q.pc ≠ .responded created) :
    Stored refuses { s with db := db, posts := s.posts ++ [q] } l where
  nodup := h.nodup
  mem j := by
    rw [h.mem]
    constructor
    · rintro ⟨p, hp, hpc⟩
      exact ⟨p, (List.getElem?_append_left (List.getElem?_eq_some_iff.1 hp).1).trans hp, hpc⟩
    · rintro ⟨p, hp, hpc⟩
      rw [List.getElem?_append] at hp
      split at hp
      · exact ⟨p, hp, hpc⟩
      · obtain rfl := List.mem_singleton.1 (List.mem_of_getElem? hp)
        exact absurd hpc hq
  rows := by
    refine rows_mono (s := s) hext (fun j b hb => ?_) h.rows
    obtain ⟨p, hp, hpb⟩ := Option.map_eq_some_iff.1 hb
    exact Option.map_eq_some_iff.2
      ⟨p, (List.getElem?_append_left (List.getElem?_eq_some_iff.1 hp).1).trans hp, hpb⟩

lemma Stored.store {l : List Nat} (h : s.Stored refuses l) {req : PostEventRequest} {row : EventRow}
    (hp : s.posts[i]? = some p) (hbody : p.body = .ok req) (hopen : p.pc ≠ .responded created)
    (hvalid : req.invalid = none) (htaken : refuses req = none) (hrow : s.db.Describes req row) :
    Stored refuses ({ s with events := s.events ++ [row] }.goto i p (.responded created))
      (l ++ [i]) := by
  have hlt := (List.getElem?_eq_some_iff.1 hp).1
  have hnew : ({ s with events := s.events ++ [row] }.goto i p (.responded created)).posts[i]? =
      some { p with pc := .responded created } := List.getElem?_set_self hlt
  have hnot : i ∉ l := by
    rw [h.mem]
    rintro ⟨q, hq, hpc⟩
    obtain rfl : p = q := Option.some.inj (hp.symm.trans hq)
    exact hopen hpc
  refine ⟨List.nodup_append.2 ⟨h.nodup, by simp, ?_⟩, fun j => ?_, ?_⟩
  · rintro j hj k hk rfl
    obtain rfl := List.mem_singleton.1 hk
    exact hnot hj
  · by_cases hij : i = j
    · subst hij
      rw [hnew]
      simp
    · have hold : ({ s with events := s.events ++ [row] }.goto i p
          (.responded created)).posts[j]? = s.posts[j]? := List.getElem?_set_ne hij
      rw [hold, ← h.mem]
      simp [Ne.symm hij]
  · have hext : s.db.Extends ({ s with events := s.events ++ [row] }.goto i p
        (.responded created)).db := .refl _
    refine List.rel_append (rows_mono hext (body_goto hp) h.rows) ?_
    refine .cons ⟨req, ?_, hvalid, htaken, hrow⟩ .nil
    rw [hnew, Option.map_some, hbody]

lemma stored_step {l : List Nat} (hdb : s.db.Ok) (hposts : ∀ p ∈ s.posts, PostOk s.db p)
    (h : s.Stored refuses l) (hstep : step refuses s a = some s') : ∃ l, s'.Stored refuses l := by
  have hext := db_extends hdb hstep
  cases step_cases hstep with
  | rejects body r wrong =>
    refine ⟨l, h.snoc hext ?_⟩
    rintro heq
    obtain rfl := AddEvent.responded.inj heq
    exact wrong_ne_created body wrong
  | begins req valid => exact ⟨l, h.snoc hext (by simp)⟩
  | waits i k p c db hp awaits hc running hdb =>
    exact ⟨l, h.nodup, h.mem, rows_mono hext (fun _ _ hb => hb) h.rows⟩
  | fails i k p c req err hp body awaits hc returned =>
    refine ⟨l, h.goto hext hp ?_ ?_⟩
    · intro hr
      simp [hr, AddEvent.awaits] at awaits
    · exact fun heq => created_ne_serviceError _ (AddEvent.responded.inj heq).symm
  | user i k p c req op_id hp body pc hc returned =>
    exact ⟨l, h.goto hext hp (by simp [pc]) (by simp)⟩
  | component i k p c req op_id user_id hp body pc hc returned =>
    exact ⟨l, h.goto hext hp (by simp [pc]) (by simp)⟩
  | insert i k p c req op_id user_id component_id hp body pc hc returned =>
    exact ⟨l, h.goto hext hp (by simp [pc]) (by simp)⟩
  | refused i p req op_id user_id component_id err hp body pc refused =>
    refine ⟨l, h.goto hext hp (by simp [pc]) ?_⟩
    exact fun heq => created_ne_serviceError _ (AddEvent.responded.inj heq).symm
  | stores i p req op_id user_id component_id hp body pc taken =>
    obtain ⟨hvalid, hop, huser, hcomponent⟩ :=
      (hposts p (List.mem_of_getElem? hp)).found body pc (by simp)
    exact ⟨l ++ [i], h.store hp body (by simp [pc]) hvalid taken
      (Db.describes_row hop huser hcomponent)⟩

structure Inv (refuses : PostEventRequest → Option String) (s : Server) : Prop where
  db : s.db.Ok
  posts : ∀ p ∈ s.posts, PostOk s.db p
  stored : ∃ l, s.Stored refuses l

lemma Inv.step (h : s.Inv refuses) (hstep : step refuses s a = some s') : s'.Inv refuses := by
  obtain ⟨l, hl⟩ := h.stored
  exact ⟨db_ok h.db hstep, posts_step h.db h.posts hstep, stored_step h.db h.posts hl hstep⟩

variable {tables : Tables}

lemma inv_init (tables : Tables) : (init tables).Inv refuses where
  db := ⟨Db.sound_init tables, by simp [init, Db.init],
    ⟨tables.le, tables.inj, by simp [init, Db.init], by simp [init, Db.init],
      by simp [init, Db.init]⟩⟩
  posts := by simp [init]
  stored := ⟨[], List.nodup_nil, by simp [init], .nil⟩

lemma inv_run (hrun : Reach (step refuses) (init tables) s) :
    s.Inv refuses :=
  Run.invariant hrun (inv_init tables) fun _ _ _ hs _ hstep => hs.step hstep

/-- However the requests run side by side, each that has been answered with 201 has one row, the
rows are those of these requests, and a row says what its request said: the time stamp and the
numbers as they were, and ids that belong to the names of the request and to no other. -/
theorem events_stored (hrun : Reach (step refuses) (init tables) s) :
    (∃ l, s.Stored refuses l) ∧
    ∀ table n n' id, s.db.rows table n = some id → s.db.rows table n' = some id → n = n' :=
  ⟨(inv_run hrun).stored, (inv_run hrun).db.numbered.inj⟩

/-- A request without a component. -/
def readRequest (user : String) : PostEventRequest :=
  ⟨"2024-05-01T10:00:00Z", user, "", "read", 0, 7, none, none⟩

/-- The first request has its row, the second one finds the operation it has added. -/
theorem events_stored_read : ∃ s, Reach (step fun _ => none) (init .empty) s ∧
    s.events = [⟨"2024-05-01T10:00:00Z", 1, 1, some 1, none, some 7, none, none⟩] ∧
    (s.posts.map Post.pc)[1]? = some (.user 1 4) ∧
    ∃ l, s.Stored (fun _ => none) l := by
  obtain ⟨s, hrun, hevents, hpost⟩ :
      ∃ s, Reach (step fun _ => none) (init .empty) s ∧
        (s.events = [⟨"2024-05-01T10:00:00Z", 1, 1, some 1, none, some 7, none, none⟩] ∧
          (s.posts.map Post.pc)[1]? = some (.user 1 4)) :=
    exists_of_exec ([.post (.ok (readRequest "bob"))] ++ List.replicate 11 (.run 0) ++
      [.post (.ok (readRequest "eve")), .run 1, .run 1, .run 1, .run 1] ++
      List.replicate 5 (.run 0)) (by decide +kernel)
  exact ⟨s, hrun, hevents, hpost, (events_stored hrun).1⟩

end Server

end TiPI.Auditor
