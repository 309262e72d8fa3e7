import TiPI.Auditor.Recorded

/-!
# Every request is answered

A request takes 17 steps at most, and while one has no answer some request can go on: an `INSERT`
of a name waits only for a call that can commit. An id cannot be had for a name that is no value of
its column, nor where another transaction has put in its row behind the `SELECT`.
-/

namespace TiPI.Auditor

variable {refuses : PostEventRequest → Option String}

/-! ### How many steps are left -/

def Pc.left : Pc → Nat
  | .beginTx => 4
  | .select => 3
  | .insert => 2
  | .commitFound _ | .commitInserted _ _ | .fail _ => 1
  | .returned _ => 0

/-- The calls of `getOrCreateId` that are still to come count as well. -/
def AddEvent.left : AddEvent → Nat
  | .operation _ => 12
  | .user _ _ => 7
  | .component _ _ _ => 2
  | .insert _ _ _ => 1
  | .responded _ => 0

namespace Db

variable {s s' : Db} {i k : Nat} {c d : Call}

/-- A call stays where it is, or comes nearer to its end. -/
structure Nears (c c' : Call) (moved : Prop) : Prop where
  le : c'.pc.left ≤ c.pc.left
  lt : moved → c'.pc.left < c.pc.left

lemma nears_goto (hc : s.calls[i]? = some c) {pc : Pc} (hlt : pc.left < c.pc.left)
    (hd : s.calls[k]? = some d) :
    ∃ d', (s.goto i c pc).calls[k]? = some d' ∧ Nears d d' (i = k) := by
  by_cases hik : i = k
  · subst hik
    obtain rfl : c = d := Option.some.inj (hc.symm.trans hd)
    exact ⟨_, List.getElem?_set_self (List.getElem?_eq_some_iff.1 hc).1, hlt.le, fun _ => hlt⟩
  · exact ⟨d, (List.getElem?_set_ne hik).trans hd, le_rfl, fun h => absurd h hik⟩

lemma left_selectId (s : Db) (c : Call) : (s.selectId c).left < Pc.select.left := by
  unfold selectId
  split_ifs
  · exact Nat.lt_of_sub_eq_succ rfl
  · split <;> exact Nat.lt_of_sub_eq_succ rfl

lemma nears_step (hstep : s.step (.run i) = some s') (hd : s.calls[k]? = some d) :
    ∃ d', s'.calls[k]? = some d' ∧ Nears d d' (i = k) := by
  cases step_cases hstep with
  | begins i c hc hpc => exact nears_goto hc (by simp [hpc, Pc.left]) hd
  | selects i c hc hpc => exact nears_goto hc (by rw [hpc]; exact s.left_selectId c) hd
  | inserts i c seq n id hc hpc =>
    exact nears_goto (s := { s with seq := seq }) hc (by simp [hpc, Pc.left]) hd
  | refuses i c seq err hc hpc =>
    exact nears_goto (s := { s with seq := seq }) hc (by simp [hpc, Pc.left]) hd
  | commits i c n id hc hpc => exact nears_goto (s := s) hc (by simp [hpc, Pc.left]) hd
  | returns i c id hc hpc => exact nears_goto hc (by simp [hpc, Pc.left]) hd
  | fails i c err hc hpc => exact nears_goto hc (by simp [hpc, Pc.left]) hd

lemma getElem?_call {name : String} {table : Table} (hc : s.calls[k]? = some c) :
    (s.call name table).calls[k]? = some c :=
  (List.getElem?_append_left (List.getElem?_eq_some_iff.1 hc).1).trans hc

lemma getElem?_call_self (s : Db) (name : String) (table : Table) :
    (s.call name table).calls[s.calls.length]? = some ⟨name, table, .beginTx⟩ := by
  simp [call]

end Db

/-- The steps of its call are those of a request. -/
def Post.left (db : Db) (p : Post) : Nat :=
  p.pc.left + ((p.pc.awaits.bind fun k => db.calls[k]?).elim 0 fun c => c.pc.left)

/-- A step of a request. -/
def ServerAct.isRun (i : Nat) : ServerAct → Bool
  | .run j => j == i
  | .post _ => false

namespace Server

variable {s s' : Server} {i k : Nat} {p : Post} {a : ServerAct}

/-- A request that waits for a call has made it. -/
lemma PostOk.exists_call {db : Db} {p : Post} {k : Nat} (h : PostOk db p)
    (hk : p.pc.awaits = some k) : ∃ c, db.calls[k]? = some c := by
  rcases h with ⟨r, hr⟩ | ⟨req, -, -, hfound⟩
  · simp [hr, AddEvent.awaits] at hk
  · cases hpc : p.pc <;> rw [hpc] at hk hfound <;> cases hk
    · exact hfound.imp fun c hc => hc.1
    · exact hfound.2.imp fun c hc => hc.1
    · exact hfound.2.2.imp fun c hc => hc.1

/-- The steps that a request has left; one that is still to come has them all. -/
def left (s : Server) (i : Nat) : Nat := (s.posts[i]?).elim 16 (Post.left s.db)

lemma left_eq (hp : s.posts[i]? = some p) : s.left i = p.left s.db := by
  rw [left, hp, Option.elim_some]

lemma left_of_awaits {db : Db} {c : Call} (hk : p.pc.awaits = some k)
    (hc : db.calls[k]? = some c) : p.left db = p.pc.left + c.pc.left := by
  rw [Post.left, hk, Option.bind_some, hc, Option.elim_some]

lemma left_of_not_awaits {db : Db} (hk : p.pc.awaits = none) : p.left db = p.pc.left := by
  rw [Post.left, hk, Option.bind_none, Option.elim_none, Nat.add_zero]

/-- New calls, and steps of calls, do not put a request back. -/
lemma left_le {db : Db} (hpost : PostOk s.db p) (hnears : ∀ (k : Nat) (c : Call),
      s.db.calls[k]? = some c → ∃ c', db.calls[k]? = some c' ∧ c'.pc.left ≤ c.pc.left) :
      p.left db ≤ p.left s.db := by
  cases hk : p.pc.awaits with
  | none => rw [left_of_not_awaits hk, left_of_not_awaits hk]
  | some k =>
    obtain ⟨c, hc⟩ := hpost.exists_call hk
    obtain ⟨c', hc', hle⟩ := hnears k c hc
    rw [left_of_awaits hk hc, left_of_awaits hk hc']
    exact Nat.add_le_add_left hle _

lemma left_call_le {name : String} {table : Table} (hpost : PostOk s.db p) :
    p.left (s.db.call name table) ≤ p.left s.db :=
  left_le hpost fun _ c hc => ⟨c, Db.getElem?_call hc, le_rfl⟩

/-- A request that goes on leaves the others where they are. -/
lemma left_goto {db : Db} (hp : s.posts[i]? = some p) {pc : AddEvent}
    (hlt : Post.left db { p with pc := pc } < p.left s.db)
    (hother : ∀ q ∈ s.posts, q.left db ≤ q.left s.db) (j : Nat) :
    ({ s with db := db }.goto i p pc).left j + (ServerAct.isRun j (.run i)).toNat ≤ s.left j := by
  by_cases hij : i = j
  · subst hij
    have hnew : ({ s with db := db }.goto i p pc).posts[i]? = some { p with pc := pc } :=
      List.getElem?_set_self (List.getElem?_eq_some_iff.1 hp).1
    rw [left_eq hp, left_eq hnew, ServerAct.isRun, beq_self_eq_true, Bool.toNat_true]
    exact hlt
  · have hold : ({ s with db := db }.goto i p pc).posts[j]? = s.posts[j]? :=
      List.getElem?_set_ne hij
    simp only [left, hold, ServerAct.isRun, beq_eq_false_iff_ne.2 hij,
      Bool.toNat_false, Nat.add_zero]
    cases hq : s.posts[j]? with
    | none => exact le_rfl
    | some q => exact hother q (List.mem_of_getElem? hq)

lemma left_snoc {db : Db} {q : Post} (hq : q.left db ≤ 16)
    (hother : ∀ q ∈ s.posts, q.left db ≤ q.left s.db) (j : Nat) :
    left { s with db := db, posts := s.posts ++ [q] } j ≤ s.left j := by
  simp only [left, List.getElem?_append]
  split
  · next hlt =>
    have hget := List.getElem?_eq_getElem hlt
    rw [hget]
    exact hother _ (List.getElem_mem hlt)
  · next hge =>
    rw [List.getElem?_eq_none (Nat.le_of_not_lt hge)]
    cases hnew : [q][j - s.posts.length]? with
    | none => exact le_rfl
    | some q' =>
      obtain rfl := List.mem_singleton.1 (List.mem_of_getElem? hnew)
      exact hq

/-- Each step of a request is one of those it has left. -/
lemma left_step (hposts : ∀ p ∈ s.posts, PostOk s.db p) (hstep : step refuses s a = some s')
    (j : Nat) : s'.left j + (a.isRun j).toNat ≤ s.left j := by
  have hsame : ∀ q ∈ s.posts, q.left s.db ≤ q.left s.db := fun _ _ => le_rfl
  have hcall : ∀ name table, ∀ q ∈ s.posts, q.left (s.db.call name table) ≤ q.left s.db :=
    fun _ _ q hq => left_call_le (hposts q hq)
  cases step_cases hstep with
  | rejects body r wrong => exact left_snoc (Nat.zero_le _) hsame j
  | begins req valid =>
    refine left_snoc (le_of_eq ?_) (hcall _ _) j
    exact left_of_awaits rfl (Db.getElem?_call_self s.db req.Op .operations)
  | waits i k p c db hp awaits hc running hdb =>
    have hnears (k : Nat) (c : Call) (hc : s.db.calls[k]? = some c) :
        ∃ c', db.calls[k]? = some c' ∧ c'.pc.left ≤ c.pc.left := by
      obtain ⟨c', hc', hle, -⟩ := Db.nears_step hdb hc
      exact ⟨c', hc', hle⟩
    by_cases hij : i = j
    · subst hij
      obtain ⟨c', hc', -, hlt⟩ := Db.nears_step hdb hc
      have hnew : ({ s with db := db } : Server).posts[i]? = some p := hp
      rw [left_eq hp, left_eq hnew, left_of_awaits awaits hc, left_of_awaits awaits hc']
      simp only [ServerAct.isRun, beq_self_eq_true, Bool.toNat_true]
      have hless := hlt rfl
      omega
    · simp only [left, ServerAct.isRun, beq_eq_false_iff_ne.2 hij, Bool.toNat_false, Nat.add_zero]
      cases hq : s.posts[j]? with
      | none => exact le_rfl
      | some q => exact left_le (hposts q (List.mem_of_getElem? hq)) hnears
  | fails i k p c req err hp body awaits hc returned =>
    refine left_goto hp ?_ hsame j
    have hpos : 0 < p.pc.left := by
      cases hpc : p.pc <;> simp_all [AddEvent.awaits, AddEvent.left]
    rw [left_of_awaits awaits hc]
    exact Nat.lt_of_lt_of_le hpos (Nat.le_add_right _ _)
  | user i k p c req op_id hp body pc hc returned =>
    have hk : p.pc.awaits = some k := by rw [pc]; rfl
    refine left_goto hp ?_ (hcall _ _) j
    rw [left_of_awaits hk hc, left_of_awaits rfl (Db.getElem?_call_self s.db req.User .users), pc]
    exact Nat.lt_add_right _ (Nat.lt_succ_self 11)
  | component i k p c req op_id user_id hp body pc hc returned =>
    have hk : p.pc.awaits = some k := by rw [pc]; rfl
    refine left_goto hp ?_ (hcall _ _) j
    rw [left_of_awaits hk hc,
      left_of_awaits rfl (Db.getElem?_call_self s.db req.Component .components), pc]
    exact Nat.lt_add_right _ (Nat.lt_succ_self 6)
  | insert i k p c req op_id user_id component_id hp body pc hc returned =>
    have hk : p.pc.awaits = some k := by rw [pc]; rfl
    refine left_goto hp ?_ hsame j
    rw [left_of_awaits hk hc, left_of_not_awaits rfl, pc]
    exact Nat.lt_add_right _ (Nat.lt_succ_self 1)
  | refused i p req op_id user_id component_id err hp body pc refused =>
    refine left_goto hp ?_ hsame j
    rw [left_of_not_awaits rfl, left_of_not_awaits (by rw [pc]; rfl), pc]
    exact Nat.one_pos
  | stores i p req op_id user_id component_id hp body pc taken =>
    refine left_goto (s := { s with events := _ }) hp ?_ hsame j
    rw [left_of_not_awaits rfl, left_of_not_awaits (by rw [pc]; rfl), pc]
    exact Nat.one_pos

/-! ### Some request can go on -/

/-- A call that has not returned is waited for by a request. -/
def Awaited (s : Server) : Prop :=
  ∀ k c, s.db.calls[k]? = some c → ¬c.Returned → ∃ (i : Nat) (p : Post), s.posts[i]? = some p ∧
    p.pc.awaits = some k

/-- A request goes on that has not waited for a call that runs, and waits for the new ones. -/
lemma Awaited.goto {db : Db} (h : s.Awaited) (hp : s.posts[i]? = some p) {pc : AddEvent}
    (hold : ∀ k c, p.pc.awaits = some k → s.db.calls[k]? = some c → c.Returned)
    (hnew : ∀ k c, db.calls[k]? = some c → s.db.calls[k]? = some c ∨ pc.awaits = some k) :
    Awaited ({ s with db := db }.goto i p pc) := by
  intro k c hc hrunning
  have hlt := (List.getElem?_eq_some_iff.1 hp).1
  rcases hnew k c hc with hc | hawaits
  · obtain ⟨j, q, hq, hqk⟩ := h k c hc hrunning
    have hij : i ≠ j := by
      rintro rfl
      obtain rfl : p = q := Option.some.inj (hp.symm.trans hq)
      exact hrunning (hold k c hqk hc)
    exact ⟨j, q, (List.getElem?_set_ne hij).trans hq, hqk⟩
  · exact ⟨i, _, List.getElem?_set_self hlt, hawaits⟩

lemma Awaited.snoc {db : Db} (h : s.Awaited) {q : Post}
    (hnew : ∀ k c, db.calls[k]? = some c → s.db.calls[k]? = some c ∨ q.pc.awaits = some k) :
    Awaited { s with db := db, posts := s.posts ++ [q] } := by
  intro k c hc hrunning
  rcases hnew k c hc with hc | hawaits
  · obtain ⟨j, p, hp, hpk⟩ := h k c hc hrunning
    exact ⟨j, p, (List.getElem?_append_left (List.getElem?_eq_some_iff.1 hp).1).trans hp, hpk⟩
  · exact ⟨s.posts.length, q, by simp, hawaits⟩

lemma call_getElem? {db : Db} {name : String} {table : Table} {k : Nat} {c : Call}
    (hc : (db.call name table).calls[k]? = some c) :
    db.calls[k]? = some c ∨ some db.calls.length = some k := by
  rw [Db.call, List.getElem?_append] at hc
  split at hc
  · exact .inl hc
  · next hle =>
    have hlt := (List.getElem?_eq_some_iff.1 hc).1
    simp only [List.length_singleton] at hlt
    exact .inr (congrArg some (by omega))

/-- A step of a call changes no other one, and none that has returned. -/
lemma run_getElem? {db db' : Db} {k : Nat} (h : db.step (.run k) = some db') {j : Nat} {c : Call}
    (hc : db'.calls[j]? = some c) (hrunning : ¬c.Returned) :
    ∃ c, db.calls[j]? = some c ∧ ¬c.Returned := by
  by_cases hj : ∃ d, db.calls[j]? = some d ∧ ¬d.Returned
  · exact hj
  · have hgoto : ∀ (seq : Table → Nat) (d : Call) (pc : Pc), db.calls[k]? = some d →
        ¬d.Returned → ({ db with seq := seq }.goto k d pc).calls[j]? = some c → False := by
      intro seq d pc hd hrunning' hc
      rcases Db.getElem?_goto hc with ⟨rfl, -⟩ | ⟨-, hold⟩
      · exact hj ⟨d, hd, hrunning'⟩
      · exact hj ⟨c, hold, hrunning⟩
    have hnot : ∀ {d : Call}, (∀ res, d.pc ≠ .returned res) → ¬d.Returned :=
      fun hne ⟨res, hres⟩ => hne res hres
    cases Db.step_cases h with
    | begins i d hd hpc => exact (hgoto db.seq d _ hd (hnot (by simp [hpc])) hc).elim
    | selects i d hd hpc => exact (hgoto db.seq d _ hd (hnot (by simp [hpc])) hc).elim
    | inserts i d seq n id hd hpc => exact (hgoto seq d _ hd (hnot (by simp [hpc])) hc).elim
    | refuses i d seq err hd hpc => exact (hgoto seq d _ hd (hnot (by simp [hpc])) hc).elim
    | commits i d n id hd hpc => exact (hgoto db.seq d _ hd (hnot (by simp [hpc])) hc).elim
    | returns i d id hd hpc => exact (hgoto db.seq d _ hd (hnot (by simp [hpc])) hc).elim
    | fails i d err hd hpc => exact (hgoto db.seq d _ hd (hnot (by simp [hpc])) hc).elim

lemma returned_of {k : Nat} {c : Call} {res : Except String Nat} (hc : s.db.calls[k]? = some c)
    (hret : c.pc = .returned res) {pc : AddEvent} (hpc : pc.awaits = some k) :
    ∀ k d, pc.awaits = some k → s.db.calls[k]? = some d → d.Returned := by
  intro k' d hk' hd
  obtain rfl : k = k' := Option.some.inj (hpc.symm.trans hk')
  obtain rfl : c = d := Option.some.inj (hc.symm.trans hd)
  exact ⟨res, hret⟩

lemma awaited_step (h : s.Awaited) (hstep : step refuses s a = some s') : s'.Awaited := by
  cases step_cases hstep with
  | rejects body r wrong => exact h.snoc fun _ _ hc => .inl hc
  | begins req valid => exact h.snoc fun _ _ hc => call_getElem? hc
  | waits i k p c db hp awaits hc running hdb =>
    intro j d hd hrunning
    obtain ⟨d', hd', hrunning'⟩ := run_getElem? hdb hd hrunning
    exact h j d' hd' hrunning'
  | fails i k p c req err hp body awaits hc returned =>
    exact h.goto hp (returned_of hc returned awaits) fun _ _ hc => .inl hc
  | user i k p c req op_id hp body pc hc returned =>
    exact h.goto hp (returned_of hc returned (by rw [pc]; rfl)) fun _ _ hc => call_getElem? hc
  | component i k p c req op_id user_id hp body pc hc returned =>
    exact h.goto hp (returned_of hc returned (by rw [pc]; rfl)) fun _ _ hc => call_getElem? hc
  | insert i k p c req op_id user_id component_id hp body pc hc returned =>
    exact h.goto hp (returned_of hc returned (by rw [pc]; rfl)) fun _ _ hc => .inl hc
  | refused i p req op_id user_id component_id err hp body pc refused =>
    exact h.goto hp (by simp [pc, AddEvent.awaits]) fun _ _ hc => .inl hc
  | stores i p req op_id user_id component_id hp body pc taken =>
    exact Awaited.goto (s := { s with events := _ }) h hp (by simp [pc, AddEvent.awaits])
      fun _ _ hc => .inl hc

lemma await_ne_none {k : Nat} {c : Call} {next : Nat → Server} (hc : s.db.calls[k]? = some c)
    (hgo : ¬c.Returned → (s.db.step (.run k)).isSome) : s.await i p k next ≠ none := by
  simp only [await, hc]
  split
  · exact Option.some_ne_none _
  · exact Option.some_ne_none _
  · next hok herr =>
    obtain ⟨db, hdb⟩ := Option.isSome_iff_exists.1 (hgo fun ⟨res, hret⟩ => by
      cases res with
      | ok id => exact hok id hret
      | error err => exact herr err hret)
    rw [hdb, Option.map_some]
    exact Option.some_ne_none _

/-- Only its call keeps a request from going on. -/
lemma run_ne_none (hpost : PostOk s.db p) (hp : s.posts[i]? = some p)
    (hopen : ∀ r, p.pc ≠ .responded r) (hgo : ∀ k c, p.pc.awaits = some k →
      s.db.calls[k]? = some c → ¬c.Returned → (s.db.step (.run k)).isSome) :
    step refuses s (.run i) ≠ none := by
  rcases hpost with ⟨r, hr⟩ | ⟨req, hbody, -, hfound⟩
  · exact absurd hr (hopen r)
  · simp only [step, hp, Option.bind_some, hbody]
    cases hpc : p.pc with
    | responded r => exact absurd hpc (hopen r)
    | operation k =>
      rw [hpc] at hfound hgo
      obtain ⟨c, hc, -⟩ := hfound
      simp only [addEvent, hpc]
      exact await_ne_none hc (hgo k c rfl hc)
    | user op_id k =>
      rw [hpc] at hfound hgo
      obtain ⟨-, c, hc, -⟩ := hfound
      simp only [addEvent, hpc]
      exact await_ne_none hc (hgo k c rfl hc)
    | component op_id user_id k =>
      rw [hpc] at hfound hgo
      obtain ⟨-, -, c, hc, -⟩ := hfound
      simp only [addEvent, hpc]
      exact await_ne_none hc (hgo k c rfl hc)
    | insert op_id user_id component_id =>
      simp only [addEvent, hpc]
      split <;> exact Option.some_ne_none _

/-- A request that has no answer leads to one that can go on. -/
lemma goes_on (hposts : ∀ p ∈ s.posts, PostOk s.db p) (hawaited : s.Awaited)
    (hp : p ∈ s.posts) (hopen : ∀ r, p.pc ≠ .responded r) :
    ∃ i, step refuses s (.run i) ≠ none := by
  by_cases hcalls : ∃ c ∈ s.db.calls, ¬c.Returned
  · obtain ⟨k, hk⟩ := Db.progress hcalls
    obtain ⟨db, hdb⟩ := Option.isSome_iff_exists.1 hk
    obtain ⟨c, hc, hstep⟩ := Option.bind_eq_some_iff.1 hdb
    have hrunning : ¬c.Returned := by
      rintro ⟨res, hret⟩
      simp [Db.getOrCreateId, hret] at hstep
    obtain ⟨j, q, hq, hqk⟩ := hawaited k c hc hrunning
    refine ⟨j, run_ne_none (hposts q (List.mem_of_getElem? hq)) hq ?_ ?_⟩
    · intro r hr
      simp [hr, AddEvent.awaits] at hqk
    · intro k' c' hk' _ _
      obtain rfl : k = k' := Option.some.inj (hqk.symm.trans hk')
      exact hk
  · obtain ⟨i, hi⟩ := List.mem_iff_getElem?.1 hp
    refine ⟨i, run_ne_none (hposts p hp) hi hopen fun k c _ hc hrunning => ?_⟩
    exact absurd ⟨c, List.mem_of_getElem? hc, hrunning⟩ hcalls

/-! ### Names that cannot be had -/

/-- The call of a request has found no row of its name, and another transaction holds one. -/
def Overtakes (s : Server) (i : Nat) (name : String) (table : Table) : Prop :=
  ∃ p k n, s.posts[i]? = some p ∧ p.pc.awaits = some k ∧
    s.db.calls[k]? = some ⟨name, table, .insert⟩ ∧ Name.ofText name = some n ∧
    s.db.held table n = true

end Server

/-- The names that a request asks for. -/
def PostEventRequest.names (req : PostEventRequest) : List (String × Table) :=
  [(req.Op, .operations), (req.User, .users), (req.Component, .components)]

section

variable (refuses : PostEventRequest → Option String) (tables : Tables)

/-- At a moment of the run the name has been taken from under the request. -/
def Overtaken (as : List ServerAct) (i : Nat) (name : String) (table : Table) : Prop :=
  ∃ as₁ s₁, as₁ <+: as ∧ AllSteps (Server.step refuses) (.init tables) as₁ s₁ ∧
    s₁.Overtakes i name table

/-- The column does not hold the name as it is, or another transaction was first. -/
def Lost (as : List ServerAct) (i : Nat) (name : String) (table : Table) : Prop :=
  Name.ofText name = none ∨ Overtaken refuses tables as i name table

/-- What request `i` is answered: 400 where its body is wrong, 201 where Postgres takes its values,
an error where it does not, and 500 where one of its names cannot be had. -/
def Answers (as : List ServerAct) (i : Nat) (body : Except String PostEventRequest) (r : Response) :
    Prop :=
  wrong body = some r ∨ ∃ req, body = .ok req ∧ req.invalid = none ∧
    (r = created ∧ refuses req = none ∨
      (∃ err, refuses req = some err ∧ r = serviceError ("pg AddEvent query error: " ++ err)) ∨
      r = respondError 500 "Internal server error" "" ∧
        ∃ name ∈ req.names, Lost refuses tables as i name.1 name.2)

end

/-- No error of `getOrCreateId` looks like an unknown event type. -/
lemma serviceError_nameErrors {err : String} (h : err ∈ nameErrors) :
    serviceError ("pg AddEvent error: " ++ err) = respondError 500 "Internal server error" "" := by
  have hno : ∀ err ∈ nameErrors,
      contains ("failed to post event: " ++ ("pg AddEvent error: " ++ err)) "unknown event type" =
        false := by decide +kernel
  simp [serviceError, hno err h]

namespace Server

variable {s s' : Server} {i k : Nat} {p : Post} {c : Call} {a : ServerAct}
  {tables : Tables} {as : List ServerAct} {name : String}
  {table : Table}

lemma overtaken_snoc (h : Overtaken refuses tables as i name table) (a : ServerAct) :
    Overtaken refuses tables (as ++ [a]) i name table := by
  obtain ⟨as₁, s₁, hprefix, hrun, hmoment⟩ := h
  exact ⟨as₁, s₁, hprefix.trans (List.prefix_append as [a]), hrun, hmoment⟩

/-- Where an `INSERT` fails, the name is lost; before that its row is not there, or the name has
been taken from under the request. -/
def Explained (refuses : PostEventRequest → Option String) (tables : Tables)
    (as : List ServerAct) (db : Db) (i : Nat) (c : Call) : Prop :=
  match c.pc with
  | .insert => ∀ n, Name.ofText c.name = some n →
    db.rows c.table n = none ∨ Overtaken refuses tables as i c.name c.table
  | .fail _ | .returned (.error _) => Lost refuses tables as i c.name c.table
  | _ => True

def Tracked (refuses : PostEventRequest → Option String) (tables : Tables)
    (as : List ServerAct) (s : Server) : Prop :=
  ∀ (i k : Nat) (p : Post) (c : Call), s.posts[i]? = some p → p.pc.awaits = some k →
    s.db.calls[k]? = some c → Explained refuses tables as s.db i c

lemma lost_snoc (h : Lost refuses tables as i name table) (a : ServerAct) :
    Lost refuses tables (as ++ [a]) i name table :=
  h.imp_right fun h => overtaken_snoc h a

/-- Rows that are the same explain the same. -/
lemma Explained.snoc {db db' : Db} (h : Explained refuses tables as db i c)
    (hrows : db'.rows = db.rows) (a : ServerAct) :
    Explained refuses tables (as ++ [a]) db' i c := by
  cases hpc : c.pc with
  | insert =>
    simp only [Explained, hpc, hrows] at h ⊢
    exact fun n hn => (h n hn).imp_right fun h => overtaken_snoc h a
  | fail err =>
    simp only [Explained, hpc] at h ⊢
    exact lost_snoc h a
  | returned res =>
    cases res with
    | ok id => simp only [Explained, hpc]
    | error err =>
      simp only [Explained, hpc] at h ⊢
      exact lost_snoc h a
  | beginTx | select | commitFound | commitInserted => simp only [Explained, hpc]

lemma explained_selectId {db : Db} (as : List ServerAct) (i : Nat) (c : Call) :
    Explained refuses tables as db i { c with pc := db.selectId c } := by
  unfold Db.selectId
  split_ifs with hnul
  · refine .inl ?_
    rw [Name.ofText, dif_neg fun h => h.2 hnul]
  · cases hrow : (Name.ofText c.name).bind (db.rows c.table) with
    | some id => trivial
    | none =>
      intro n hn
      rw [hn, Option.bind_some] at hrow
      exact .inl hrow

/-- A step of a call: the commit of a row explains the failures to come of those whose `INSERT` is
next. -/
lemma explained_step {db : Db} (hrun : AllSteps (step refuses) (init tables) as s)
    (htracked : s.Tracked refuses tables as) (hp : s.posts[i]? = some p)
    (hk : p.pc.awaits = some k) {j : Nat} (hstep : s.db.step (.run j) = some db)
    (hc : db.calls[k]? = some c) (a : ServerAct) :
    Explained refuses tables (as ++ [a]) db i c := by
  have hgoto {seq' : Table → Nat} {d : Call} {pc : Pc} (hd : s.db.calls[j]? = some d)
      (hc : (Db.goto { s.db with seq := seq' } j d pc).calls[k]? = some c)
      (hmoved : k = j → Explained refuses tables (as ++ [a]) s.db i { d with pc := pc }) :
      Explained refuses tables (as ++ [a]) s.db i c := by
    rcases Db.getElem?_goto hc with ⟨hkj, rfl⟩ | ⟨-, hold⟩
    · exact hmoved hkj
    · exact (htracked i k p c hp hk hold).snoc rfl a
  cases Db.step_cases hstep with
  | begins j d hd hpc => exact hgoto hd hc fun _ => trivial
  | selects j d hd hpc => exact hgoto hd hc fun _ => explained_selectId (as ++ [a]) i d
  | inserts j d seq' n id hd hpc hname hheld hrow => exact hgoto hd hc fun _ => trivial
  | refuses j d seq' err hd hpc hrow =>
    refine hgoto hd hc fun hkj => ?_
    subst hkj
    cases hn : Name.ofText d.name with
    | none => exact .inl hn
    | some n =>
      have hexplained := htracked i k p d hp hk hd
      simp only [Explained, hpc] at hexplained
      have hlost := (hexplained n hn).resolve_left (hrow n (Name.assign_eq hn))
      exact .inr (overtaken_snoc hlost a)
  | commits j d n id hd hpc =>
    rcases Db.getElem?_goto hc with ⟨-, rfl⟩ | ⟨-, hold⟩
    · trivial
    · have hexplained := (htracked i k p c hp hk hold).snoc rfl a
      cases hpc' : c.pc with
      | insert =>
        simp only [Explained, hpc'] at hexplained ⊢
        intro n' hn'
        by_cases hsame : c.table = d.table ∧ n' = n
        · obtain ⟨htable, rfl⟩ := hsame
          have hheld : s.db.held c.table n' = true := by
            by_contra hfree
            exact Db.held_eq_false.1 (Bool.eq_false_iff.2 hfree) d (List.mem_of_getElem? hd) id hpc
              htable.symm
          refine .inr ⟨as, s, List.prefix_append as [a], hrun, p, k, n', hp, hk, ?_, hn', hheld⟩
          rw [hold, ← hpc']
        · have hrow : Function.update s.db.rows d.table
              (Function.update (s.db.rows d.table) n (some id)) c.table n' =
              s.db.rows c.table n' := by
            by_cases htable : c.table = d.table
            · rw [htable, Function.update_self,
                Function.update_of_ne fun hn => hsame ⟨htable, hn⟩]
            · rw [Function.update_of_ne htable]
          rw [hrow]
          exact hexplained n' hn'
      | fail err => simpa only [Explained, hpc'] using hexplained
      | returned res =>
        cases res with
        | ok id => simp only [Explained, hpc']
        | error err => simpa only [Explained, hpc'] using hexplained
      | beginTx | select | commitFound | commitInserted => simp only [Explained, hpc']
  | returns j d id hd hpc => exact hgoto hd hc fun _ => trivial
  | fails j d err hd hpc =>
    refine hgoto hd hc fun hkj => ?_
    subst hkj
    have hexplained := htracked i k p d hp hk hd
    simp only [Explained, hpc] at hexplained
    exact lost_snoc hexplained a

/-- What a request waits for after a step is what it waited for before, or a new call. -/
lemma Tracked.goto {db : Db} (h : s.Tracked refuses tables as)
    (hposts : ∀ p ∈ s.posts, PostOk s.db p) {pc : AddEvent}
    (hcalls : ∀ (k : Nat) (c : Call), s.db.calls[k]? = some c → db.calls[k]? = some c)
    (hrows : db.rows = s.db.rows)
    (hnew : ∀ (k : Nat) (c : Call), pc.awaits = some k → db.calls[k]? = some c → c.pc = .beginTx)
    (a : ServerAct) :
    Tracked refuses tables (as ++ [a]) ({ s with db := db }.goto i p pc) := by
  intro j k q c hq hk hc
  rcases getElem?_goto hq with ⟨-, rfl⟩ | ⟨-, hold⟩
  · simp only [Explained, hnew k c hk hc]
  · obtain ⟨d, hd⟩ := (hposts q (List.mem_of_getElem? hold)).exists_call hk
    obtain rfl : d = c := Option.some.inj ((hcalls k d hd).symm.trans hc)
    exact (h j k q d hold hk hd).snoc hrows a

lemma Tracked.snoc {db : Db} (h : s.Tracked refuses tables as)
    (hposts : ∀ p ∈ s.posts, PostOk s.db p) {q : Post}
    (hcalls : ∀ (k : Nat) (c : Call), s.db.calls[k]? = some c → db.calls[k]? = some c)
    (hrows : db.rows = s.db.rows)
    (hnew : ∀ (k : Nat) (c : Call), q.pc.awaits = some k → db.calls[k]? = some c → c.pc = .beginTx)
    (a : ServerAct) : Tracked refuses tables (as ++ [a])
      { s with db := db, posts := s.posts ++ [q] } := by
  intro j k p c hp hk hc
  rw [List.getElem?_append] at hp
  split at hp
  · obtain ⟨d, hd⟩ := (hposts p (List.mem_of_getElem? hp)).exists_call hk
    obtain rfl : d = c := Option.some.inj ((hcalls k d hd).symm.trans hc)
    exact (h j k p d hp hk hd).snoc hrows a
  · obtain rfl := List.mem_singleton.1 (List.mem_of_getElem? hp)
    simp only [Explained, hnew k c hk hc]

lemma beginTx_of_call {db : Db} {name : String} {table : Table} {pc : AddEvent}
    (hpc : pc.awaits = some db.calls.length) (k : Nat) (c : Call) (hk : pc.awaits = some k)
    (hc : (db.call name table).calls[k]? = some c) : c.pc = .beginTx := by
  obtain rfl : db.calls.length = k := Option.some.inj (hpc.symm.trans hk)
  rw [Db.getElem?_call_self] at hc
  rw [← Option.some.inj hc]

lemma tracked_step (hrun : AllSteps (step refuses) (init tables) as s)
    (hposts : ∀ p ∈ s.posts, PostOk s.db p) (h : s.Tracked refuses tables as)
    (hstep : step refuses s a = some s') : s'.Tracked refuses tables (as ++ [a]) := by
  have hsame : ∀ (k : Nat) (c : Call), s.db.calls[k]? = some c → s.db.calls[k]? = some c :=
    fun _ _ hc => hc
  have hcall : ∀ name table, ∀ (k : Nat) (c : Call), s.db.calls[k]? = some c →
      (s.db.call name table).calls[k]? = some c := fun _ _ _ _ hc => Db.getElem?_call hc
  cases step_cases hstep with
  | rejects body r wrong => exact h.snoc hposts hsame rfl (by simp [AddEvent.awaits]) _
  | begins req valid => exact h.snoc hposts (hcall _ _) rfl (beginTx_of_call rfl) _
  | waits i k p c db hp awaits hc running hdb =>
    exact fun j l q d hq hl hd => explained_step hrun h hq hl hdb hd _
  | fails i k p c req err hp body awaits hc returned =>
    exact h.goto hposts hsame rfl (by simp [AddEvent.awaits]) _
  | user i k p c req op_id hp body pc hc returned =>
    exact h.goto hposts (hcall _ _) rfl (beginTx_of_call rfl) _
  | component i k p c req op_id user_id hp body pc hc returned =>
    exact h.goto hposts (hcall _ _) rfl (beginTx_of_call rfl) _
  | insert i k p c req op_id user_id component_id hp body pc hc returned =>
    exact h.goto hposts hsame rfl (by simp [AddEvent.awaits]) _
  | refused i p req op_id user_id component_id err hp body pc refused =>
    exact h.goto hposts hsame rfl (by simp [AddEvent.awaits]) _
  | stores i p req op_id user_id component_id hp body pc taken =>
    exact Tracked.goto (s := { s with events := _ }) h hposts hsame rfl
      (by simp [AddEvent.awaits]) _

/-- A request waits for a call with one of its names. -/
lemma mem_names {req : PostEventRequest} (hfound : Found s.db req p.pc) (hk : p.pc.awaits = some k)
    (hc : s.db.calls[k]? = some c) : (c.name, c.table) ∈ req.names := by
  have hasks {name : String} {table : Table} (h : s.db.Asks k name table) :
      (c.name, c.table) = (name, table) := by
    obtain ⟨d, hd, rfl, rfl⟩ := h
    rw [Option.some.inj (hc.symm.trans hd)]
  cases hpc : p.pc <;> rw [hpc] at hk hfound <;> cases hk <;>
    rw [PostEventRequest.names, List.mem_cons, List.mem_cons, List.mem_singleton]
  · exact .inl (hasks hfound)
  · exact .inr (.inl (hasks hfound.2))
  · exact .inr (.inr (hasks hfound.2.2))

/-- What has been answered is right. -/
def Answered (refuses : PostEventRequest → Option String) (tables : Tables)
    (as : List ServerAct) (s : Server) : Prop :=
  ∀ (i : Nat) (p : Post) (r : Response), s.posts[i]? = some p → p.pc = .responded r →
    Answers refuses tables as i p.body r

lemma answers_snoc {body : Except String PostEventRequest} {r : Response}
    (h : Answers refuses tables as i body r) (a : ServerAct) :
    Answers refuses tables (as ++ [a]) i body r := by
  rcases h with hwrong | ⟨req, hbody, hvalid, hcreated | hrefused | ⟨hr, name, hname, hlost⟩⟩
  · exact .inl hwrong
  · exact .inr ⟨req, hbody, hvalid, .inl hcreated⟩
  · exact .inr ⟨req, hbody, hvalid, .inr (.inl hrefused)⟩
  · exact .inr ⟨req, hbody, hvalid, .inr (.inr ⟨hr, name, hname, lost_snoc hlost a⟩)⟩

lemma Answered.goto (h : s.Answered refuses tables as) (db : Db) {pc : AddEvent}
    (a : ServerAct)
    (hnew : ∀ r, pc = .responded r → Answers refuses tables (as ++ [a]) i p.body r) :
    Answered refuses tables (as ++ [a]) ({ s with db := db }.goto i p pc) := by
  intro j q r hq hr
  rcases getElem?_goto hq with ⟨rfl, rfl⟩ | ⟨-, hold⟩
  · exact hnew r hr
  · exact answers_snoc (h j q r hold hr) a

lemma Answered.snoc {db : Db} (h : s.Answered refuses tables as) {q : Post} (a : ServerAct)
    (hnew : ∀ r, q.pc = .responded r → wrong q.body = some r) : Answered refuses tables (as ++ [a])
      { s with db := db, posts := s.posts ++ [q] } := by
  intro j p r hp hr
  rw [List.getElem?_append] at hp
  split at hp
  · exact answers_snoc (h j p r hp hr) a
  · obtain rfl := List.mem_singleton.1 (List.mem_of_getElem? hp)
    exact .inl (hnew r hr)

lemma answered_step (hdb : s.db.Ok) (hposts : ∀ p ∈ s.posts, PostOk s.db p)
    (htracked : s.Tracked refuses tables as) (h : s.Answered refuses tables as)
    (hstep : step refuses s a = some s') : s'.Answered refuses tables (as ++ [a]) := by
  have hinsert {i : Nat} {p : Post} {req : PostEventRequest} {op_id user_id component_id : Nat}
      (hp : s.posts[i]? = some p) (hbody : p.body = .ok req)
      (hpc : p.pc = .insert op_id user_id component_id) : req.invalid = none :=
    ((hposts p (List.mem_of_getElem? hp)).found hbody hpc (by simp)).1
  cases step_cases hstep with
  | rejects body r wrong =>
    refine h.snoc _ fun r' hr' => ?_
    rw [← AddEvent.responded.inj hr']
    exact wrong
  | begins req valid => exact h.snoc _ (by simp)
  | waits i k p c db hp awaits hc running hdb =>
    exact fun j q r hq hr => answers_snoc (h j q r hq hr) _
  | fails i k p c req err hp body awaits hc returned =>
    refine h.goto _ _ fun r hr => ?_
    have hopen : ∀ r, p.pc ≠ .responded r := by
      intro r hr
      simp [hr, AddEvent.awaits] at awaits
    obtain ⟨hvalid, hfound⟩ := (hposts p (List.mem_of_getElem? hp)).found body rfl hopen
    have hlost := htracked i k p c hp awaits hc
    simp only [Explained, returned] at hlost
    have hsaid := hdb.told c (List.mem_of_getElem? hc)
    simp only [Db.Told, returned] at hsaid
    rw [← AddEvent.responded.inj hr, serviceError_nameErrors hsaid]
    exact .inr ⟨req, body, hvalid, .inr (.inr ⟨rfl, _, mem_names hfound awaits hc,
      lost_snoc hlost _⟩)⟩
  | user i k p c req op_id hp body pc hc returned => exact h.goto _ _ (by simp)
  | component i k p c req op_id user_id hp body pc hc returned => exact h.goto _ _ (by simp)
  | insert i k p c req op_id user_id component_id hp body pc hc returned =>
    exact h.goto _ _ (by simp)
  | refused i p req op_id user_id component_id err hp body pc refused =>
    refine h.goto _ _ fun r hr => ?_
    rw [← AddEvent.responded.inj hr]
    exact .inr ⟨req, body, hinsert hp body pc, .inr (.inl ⟨err, refused, rfl⟩)⟩
  | stores i p req op_id user_id component_id hp body pc taken =>
    refine Answered.goto (s := { s with events := _ }) h s.db _ fun r hr => ?_
    rw [← AddEvent.responded.inj hr]
    exact .inr ⟨req, body, hinsert hp body pc, .inl ⟨rfl, taken⟩⟩

/-- However the requests run side by side, each costs 17 steps at most, that of its arrival and 16
of its handler, and when none can go on all have been answered as they should be: with 201 where
Postgres takes the values and no name is lost. -/
theorem requests_answered (hrun : AllSteps (step refuses) (init tables) as s) :
    (∀ i, as.countP (ServerAct.isRun i) ≤ 16) ∧
    ((∀ i, step refuses s (.run i) = none) → ∀ (i : Nat) (p : Post), s.posts[i]? = some p →
      ∃ r, p.pc = .responded r ∧ Answers refuses tables as i p.body r) := by
  have hinv : AllSteps (step refuses) (init tables) as s ∧ s.Inv refuses ∧ s.Awaited ∧
      (∀ i, as.countP (ServerAct.isRun i) + s.left i ≤ 16) ∧ s.Tracked refuses tables as ∧
      s.Answered refuses tables as := by
    apply hrun.invariant (P := fun as s => AllSteps (step refuses) (init tables) as s ∧
      s.Inv refuses ∧ s.Awaited ∧ (∀ i, as.countP (ServerAct.isRun i) + s.left i ≤ 16) ∧
      s.Tracked refuses tables as ∧ s.Answered refuses tables as)
    · exact ⟨.nil, inv_init tables, by simp [Awaited, init, Db.init], fun _ => le_rfl,
        by simp [Tracked, init], by simp [Answered, init]⟩
    · rintro as s a s' ⟨hrun, hs, hawaited, hleft, htracked, hanswered⟩ - hstep
      refine ⟨hrun.snoc trivial hstep, hs.step hstep, awaited_step hawaited hstep, fun i => ?_,
        tracked_step hrun hs.posts htracked hstep,
        answered_step hs.db hs.posts htracked hanswered hstep⟩
      have hdown := left_step hs.posts hstep i
      have hbefore := hleft i
      rw [List.countP_append, List.countP_singleton]
      cases ha : a.isRun i <;> simp only [ha, Bool.toNat_true, Bool.toNat_false, if_true, if_false,
        Bool.false_eq_true] at hdown ⊢ <;> omega
  obtain ⟨-, hs, hawaited, hleft, -, hanswered⟩ := hinv
  refine ⟨fun i => Nat.le_of_add_right_le (hleft i), fun hstuck i p hp => ?_⟩
  rcases hs.posts p (List.mem_of_getElem? hp) with ⟨r, hr⟩ | ⟨req, -, -, hfound⟩
  · exact ⟨r, hr, hanswered i p r hp hr⟩
  · obtain ⟨j, hj⟩ := goes_on hs.posts hawaited (List.mem_of_getElem? hp) fun r hr => by
      simp [hr, Found] at hfound
    exact absurd (hstuck j) hj

/-- Two requests of one user at a time: the `INSERT` of the second one waits for the first and then
finds no row to return. -/
theorem requests_answered_two : ∃ as s,
    AllSteps (step fun _ => none) (init .empty) as s ∧
    s.posts.map Post.pc =
      [.responded created, .responded (respondError 500 "Internal server error" "")] ∧
    as.countP (ServerAct.isRun 0) ≤ 16 ∧
    ∀ (i : Nat) (p : Post), s.posts[i]? = some p → ∃ r, p.pc = .responded r ∧
      Answers (fun _ => none) .empty as i p.body r := by
  have hex : ∃ s, AllSteps (step fun _ => none) (init .empty)
      ([.post (.ok (readRequest "bob")), .post (.ok (readRequest "bob")), .run 0, .run 0, .run 1,
        .run 1] ++ List.replicate 14 (.run 0) ++ List.replicate 3 (.run 1)) s ∧
      s.posts.map Post.pc =
        [.responded created, .responded (respondError 500 "Internal server error" "")] :=
    steps_of_exec _ (by decide +kernel)
  obtain ⟨s, hrun, hposts⟩ := hex
  obtain ⟨hsteps, hanswered⟩ := requests_answered hrun
  refine ⟨_, s, hrun, hposts, hsteps 0, hanswered fun i => ?_⟩
  have hdone : ∀ p ∈ s.posts, ∃ r, p.pc = .responded r := by
    intro p hp
    have hpc := List.mem_map_of_mem (f := Post.pc) hp
    rw [hposts] at hpc
    rcases List.mem_cons.1 hpc with hpc | hpc
    · exact ⟨_, hpc⟩
    · exact ⟨_, List.mem_singleton.1 hpc⟩
  cases hp : s.posts[i]? with
  | none => simp [step, hp]
  | some p =>
    obtain ⟨r, hr⟩ := hdone p (List.mem_of_getElem? hp)
    simp only [step, hp, Option.bind_some]
    cases p.body with
    | error err => rfl
    | ok req => simp [addEvent, hr]

end Server

end TiPI.Auditor
