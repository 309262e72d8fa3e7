import TiPI.Lib.Run
import Mathlib.Logic.Function.Basic

/-!
# The ids of names

`getOrCreateId` looks a name up in one of three tables and adds it when it is not there, each
statement a round trip to Postgres in the transaction of the call. Between the statements of a call
those of others may run.

The database is what the statements of `init.sql` and `READ COMMITTED` make of it: a row is seen
from the commit of its transaction on, and an `INSERT` waits as long as a transaction that is not
over holds a row of its name. Connections and the two time stamps of a row are left out.
-/

namespace TiPI.Auditor

inductive Table
  | users
  | components
  | operations
  deriving DecidableEq, Repr

/-- A value of a column `name VARCHAR(255)`. -/
structure Name where
  text : String
  length_le : text.length ≤ 255
  no_nul : Char.ofNat 0 ∉ text.toList
  deriving DecidableEq

/-- The value of the column that equals a parameter. -/
def Name.ofText (s : String) : Option Name :=
  if h : s.length ≤ 255 ∧ Char.ofNat 0 ∉ s.toList then some ⟨s, h.1, h.2⟩ else none

/-- The value that is stored for a parameter: spaces behind the 255 characters are cut off, other
characters there are an error. -/
def Name.assign (s : String) : Option Name :=
  if (s.toList.drop 255).all (· = ' ') then Name.ofText (.ofList (s.toList.take 255)) else none

/-- The next statement of a call. -/
inductive Pc
  | beginTx
  | select
  | commitFound (id : Nat)
  | insert
  /-- the transaction holds the row of `name` -/
  | commitInserted (name : Name) (id : Nat)
  /-- the end of a transaction one of whose statements has failed -/
  | fail (err : String)
  | returned (res : Except String Nat)
  deriving DecidableEq

structure Call where
  name : String
  table : Table
  pc : Pc

/-- Tables whose ids are different, with the sequence behind them at the last of them or further. -/
structure Tables where
  rows : Table → Name → Option Nat
  seq : Table → Nat
  le : ∀ table n id, rows table n = some id → id ≤ seq table
  inj : ∀ table n n' id, rows table n = some id → rows table n' = some id → n = n'

def Tables.empty : Tables := ⟨fun _ _ => none, fun _ => 0, by simp, by simp⟩

structure Db where
  /-- the committed rows: the id of each name -/
  rows : Table → Name → Option Nat
  /-- the last values of the sequences behind the ids -/
  seq : Table → Nat
  calls : List Call

inductive Act
  | call (name : String) (table : Table)
  | run (i : Nat)

namespace Db

def init (tables : Tables) : Db := ⟨tables.rows, tables.seq, []⟩

def goto (s : Db) (i : Nat) (c : Call) (pc : Pc) : Db :=
  { s with calls := s.calls.set i { c with pc := pc } }

/-- Some transaction that is not over holds a row of this name. -/
def held (s : Db) (table : Table) (name : Name) : Bool :=
  s.calls.any fun c =>
    match c.pc with
    | .commitInserted name' _ => c.table = table ∧ name' = name
    | _ => false

/-- `SELECT id FROM table WHERE name = $1`. -/
def selectId (s : Db) (c : Call) : Pc :=
  if Char.ofNat 0 ∈ c.name.toList then
    .fail "getOrCreateId tx query error: ERROR: invalid byte sequence for encoding \"UTF8\": 0x00"
  else
    match (Name.ofText c.name).bind (s.rows c.table) with
    | some id => .commitFound id
    | none => .insert

/-- `INSERT INTO table (name) VALUES ($1) ON CONFLICT (name) DO NOTHING RETURNING id`; without a row
`Scan` gives `pgx.ErrNoRows`. A value of the sequence is used up either way. -/
def insertName (s : Db) (i : Nat) (c : Call) : Option Db :=
  match Name.assign c.name with
  | none =>
    some <| s.goto i c <| .fail
      "getOrCreateId tx insert error: ERROR: value too long for type character varying(255)"
  | some name =>
    if s.held c.table name then none
    else
      let id := s.seq c.table + 1
      let s := { s with seq := Function.update s.seq c.table id }
      match s.rows c.table name with
      | some _ => some (s.goto i c (.fail "getOrCreateId tx insert error: no rows in result set"))
      | none => some (s.goto i c (.commitInserted name id))

/-- The next statement of call `i`. -/
def getOrCreateId (s : Db) (i : Nat) (c : Call) : Option Db :=
  match c.pc with
  | .beginTx => some (s.goto i c .select)
  | .select => some (s.goto i c (s.selectId c))
  | .commitFound id => some (s.goto i c (.returned (.ok id)))
  | .insert => s.insertName i c
  | .commitInserted name id =>
    some { s.goto i c (.returned (.ok id)) with
      rows := Function.update s.rows c.table
        (Function.update (s.rows c.table) name (some id)) }
  | .fail err => some (s.goto i c (.returned (.error err)))
  | .returned _ => none

def step (s : Db) : Act → Option Db
  | .call name table => some { s with calls := s.calls ++ [⟨name, table, .beginTx⟩] }
  | .run i => (s.calls[i]?).bind fun c => s.getOrCreateId i c

end Db

/-! ### What a call should return -/

/-- The call has returned the id of the row of its name. -/
def Db.Right (s : Db) (c : Call) : Prop :=
  ∃ name id, Name.ofText c.name = some name ∧ s.rows c.table name = some id ∧
    c.pc = .returned (.ok id)

/-- The call has returned. -/
def Call.Returned (c : Call) : Prop := ∃ res, c.pc = .returned res

/-- Names are such that the column holds them, and when a call runs its `INSERT` no row of its name
has been committed since its `SELECT`. -/
def Db.Fresh (s : Db) : Act → Prop
  | .call _ _ => True
  | .run i => ∀ c ∈ s.calls[i]?,
    (c.pc = .select → Char.ofNat 0 ∉ c.name.toList) ∧
    (c.pc = .insert → ∃ name ∈ Name.ofText c.name, s.rows c.table name = none)

instance (s : Db) (a : Act) : Decidable (s.Fresh a) :=
  match a with
  | .call _ _ => inferInstanceAs (Decidable True)
  | .run i => inferInstanceAs (Decidable (∀ c ∈ s.calls[i]?,
      (c.pc = .select → Char.ofNat 0 ∉ c.name.toList) ∧
      (c.pc = .insert → ∃ name ∈ Name.ofText c.name, s.rows c.table name = none)))

/-! ### Steps -/

lemma Name.assign_eq {s : String} {name : Name} (h : Name.ofText s = some name) :
    Name.assign s = some name := by
  have hlen : s.length ≤ 255 := by
    unfold Name.ofText at h
    split at h
    · next hs => exact hs.1
    · cases h
  have hdrop : s.toList.drop 255 = [] := by
    rw [List.drop_eq_nil_iff, String.length_toList]
    exact hlen
  have htake : s.toList.take 255 = s.toList := by
    apply List.take_of_length_le
    rw [String.length_toList]
    exact hlen
  rw [Name.assign, hdrop, htake, String.ofList_toList, if_pos (by rfl), h]

namespace Db

variable {s s' : Db} {i : Nat} {c d : Call} {a : Act}

lemma held_eq_false {table : Table} {name : Name} :
    s.held table name = false ↔
      ∀ c ∈ s.calls, ∀ id, c.pc = .commitInserted name id → c.table ≠ table := by
  rw [held, List.any_eq_false]
  constructor
  · intro h c hc id hpc htable
    have hno := h c hc
    simp only [hpc, htable, and_self, decide_true, not_true_eq_false] at hno
  · intro h c hc
    split
    · next name' id hpc =>
      rw [decide_eq_true_eq]
      rintro ⟨htable, rfl⟩
      exact h c hc id hpc htable
    · exact Bool.false_ne_true

/-- What a step does: it starts a call, or moves one call on, whose commit may add a row. -/
inductive StepCase (s : Db) : Act → Db → Prop
  | call (name : String) (table : Table) :
      StepCase s (.call name table) { s with calls := s.calls ++ [⟨name, table, .beginTx⟩] }
  | begins (i : Nat) (c : Call) (hc : s.calls[i]? = some c) (hpc : c.pc = .beginTx) :
      StepCase s (.run i) (s.goto i c .select)
  | selects (i : Nat) (c : Call) (hc : s.calls[i]? = some c) (hpc : c.pc = .select) :
      StepCase s (.run i) (s.goto i c (s.selectId c))
  | inserts (i : Nat) (c : Call) (seq : Table → Nat) (name : Name) (id : Nat)
      (hc : s.calls[i]? = some c) (hpc : c.pc = .insert) (hname : Name.assign c.name = some name)
      (hheld : s.held c.table name = false) (hrow : s.rows c.table name = none) :
      StepCase s (.run i) ({ s with seq := seq }.goto i c (.commitInserted name id))
  | refuses (i : Nat) (c : Call) (seq : Table → Nat) (err : String)
      (hc : s.calls[i]? = some c) (hpc : c.pc = .insert)
      (hrow : ∀ name, Name.assign c.name = some name → s.rows c.table name ≠ none) :
      StepCase s (.run i) ({ s with seq := seq }.goto i c (.fail err))
  | commits (i : Nat) (c : Call) (name : Name) (id : Nat) (hc : s.calls[i]? = some c)
      (hpc : c.pc = .commitInserted name id) :
      StepCase s (.run i) { s.goto i c (.returned (.ok id)) with
        rows := Function.update s.rows c.table
          (Function.update (s.rows c.table) name (some id)) }
  | returns (i : Nat) (c : Call) (id : Nat) (hc : s.calls[i]? = some c)
      (hpc : c.pc = .commitFound id) : StepCase s (.run i) (s.goto i c (.returned (.ok id)))
  | fails (i : Nat) (c : Call) (err : String) (hc : s.calls[i]? = some c) (hpc : c.pc = .fail err) :
      StepCase s (.run i) (s.goto i c (.returned (.error err)))

lemma step_cases (h : s.step a = some s') : StepCase s a s' := by
  cases a with
  | call name table =>
    obtain rfl := Option.some.inj h
    exact .call name table
  | run i =>
    obtain ⟨c, hc, h⟩ := Option.bind_eq_some_iff.1 h
    unfold getOrCreateId at h
    split at h
    · next hpc =>
      obtain rfl := Option.some.inj h
      exact .begins i c hc hpc
    · next hpc =>
      obtain rfl := Option.some.inj h
      exact .selects i c hc hpc
    · next id hpc =>
      obtain rfl := Option.some.inj h
      exact .returns i c id hc hpc
    · next hpc =>
      unfold insertName at h
      split at h
      · next hname =>
        obtain rfl := Option.some.inj h
        exact .refuses i c s.seq _ hc hpc (by simp [hname])
      · next name hname =>
        split at h
        · cases h
        · next hheld =>
          simp only at h
          split at h
          · next id hrow =>
            obtain rfl := Option.some.inj h
            refine .refuses i c _ _ hc hpc ?_
            intro name' hname'
            obtain rfl : name = name' := Option.some.inj (hname.symm.trans hname')
            rw [hrow]
            exact Option.some_ne_none id
          · next hrow =>
            obtain rfl := Option.some.inj h
            exact .inserts i c _ name _ hc hpc hname (by simpa using hheld) hrow
    · next name id hpc =>
      obtain rfl := Option.some.inj h
      exact .commits i c name id hc hpc
    · next err hpc =>
      obtain rfl := Option.some.inj h
      exact .fails i c err hc hpc
    · cases h

lemma getElem?_goto {pc : Pc} {j : Nat} (hd : (s.goto i c pc).calls[j]? = some d) :
    (j = i ∧ d = { c with pc := pc }) ∨ (j ≠ i ∧ s.calls[j]? = some d) := by
  rw [goto, List.getElem?_set] at hd
  split_ifs at hd with hij
  · exact .inl ⟨hij.symm, (Option.some.inj hd).symm⟩
  · exact .inr ⟨Ne.symm hij, hd⟩

lemma getElem?_snoc {name : String} {table : Table} {j : Nat}
    (hd : (s.calls ++ [⟨name, table, .beginTx⟩])[j]? = some d) :
    s.calls[j]? = some d ∨ d = ⟨name, table, .beginTx⟩ := by
  rw [List.getElem?_append] at hd
  split at hd
  · exact .inl hd
  · exact .inr (List.mem_singleton.1 (List.mem_of_getElem? hd))

/-! ### Rows that wait for their commit -/

/-- A row that waits for its commit is the only one of its name. -/
structure Sound (s : Db) : Prop where
  fresh : ∀ (i : Nat) (c : Call) (name : Name) (id : Nat), s.calls[i]? = some c →
    c.pc = .commitInserted name id →
    s.rows c.table name = none
  alone : ∀ (i j : Nat) (c d : Call) (name : Name) (id id' : Nat), s.calls[i]? = some c →
    s.calls[j]? = some d → c.pc = .commitInserted name id → d.pc = .commitInserted name id' →
    c.table = d.table → i = j

lemma sound_init (tables : Tables) : (init tables).Sound := by
  constructor <;> simp [init]

lemma Sound.goto (h : s.Sound) {pc : Pc} (hpc : ∀ name id, pc ≠ .commitInserted name id) :
    (s.goto i c pc).Sound := by
  constructor
  · intro j d name id hd hdpc
    rcases getElem?_goto hd with ⟨-, rfl⟩ | ⟨-, hd⟩
    · exact absurd hdpc (hpc name id)
    · exact h.fresh j d name id hd hdpc
  · intro j k d e name id id' hd he hdpc hepc htable
    rcases getElem?_goto hd with ⟨-, rfl⟩ | ⟨-, hd⟩
    · exact absurd hdpc (hpc name id)
    · rcases getElem?_goto he with ⟨-, rfl⟩ | ⟨-, he⟩
      · exact absurd hepc (hpc name id')
      · exact h.alone j k d e name id id' hd he hdpc hepc htable

lemma Sound.call (h : s.Sound) (name : String) (table : Table) :
    Sound { s with calls := s.calls ++ [⟨name, table, .beginTx⟩] } := by
  constructor
  · intro j d name id hd hdpc
    rcases getElem?_snoc hd with hd | rfl
    · exact h.fresh j d name id hd hdpc
    · cases hdpc
  · intro j k d e name id id' hd he hdpc hepc htable
    rcases getElem?_snoc hd with hd | rfl
    · rcases getElem?_snoc he with he | rfl
      · exact h.alone j k d e name id id' hd he hdpc hepc htable
      · cases hepc
    · cases hdpc

lemma Sound.insert (h : s.Sound) {name : Name} {id : Nat} (hheld : s.held c.table name = false)
    (hrow : s.rows c.table name = none) : (s.goto i c (.commitInserted name id)).Sound := by
  rw [held_eq_false] at hheld
  constructor
  · intro j d name' id' hd hdpc
    rcases getElem?_goto hd with ⟨-, rfl⟩ | ⟨-, hd⟩
    · obtain ⟨rfl, -⟩ := Pc.commitInserted.inj hdpc
      exact hrow
    · exact h.fresh j d name' id' hd hdpc
  · intro j k d e name' id' id'' hd he hdpc hepc htable
    rcases getElem?_goto hd with ⟨hj, rfl⟩ | ⟨-, hd'⟩
    · rcases getElem?_goto he with ⟨hk, -⟩ | ⟨-, he'⟩
      · exact hj.trans hk.symm
      · obtain ⟨rfl, -⟩ := Pc.commitInserted.inj hdpc
        exact absurd htable.symm (hheld e (List.mem_of_getElem? he') _ hepc)
    · rcases getElem?_goto he with ⟨-, rfl⟩ | ⟨-, he'⟩
      · obtain ⟨rfl, -⟩ := Pc.commitInserted.inj hepc
        exact absurd htable (hheld d (List.mem_of_getElem? hd') _ hdpc)
      · exact h.alone j k d e name' id' id'' hd' he' hdpc hepc htable

lemma Sound.commit (h : s.Sound) {name : Name} {id : Nat} (hc : s.calls[i]? = some c)
    (hpc : c.pc = .commitInserted name id) :
    Sound { s.goto i c (.returned (.ok id)) with
      rows := Function.update s.rows c.table
        (Function.update (s.rows c.table) name (some id)) } := by
  have hgoto : (s.goto i c (.returned (.ok id))).Sound := h.goto (by simp)
  refine ⟨?_, hgoto.alone⟩
  intro j d name' id' hd hdpc
  rcases getElem?_goto hd with ⟨-, rfl⟩ | ⟨hj, hd'⟩
  · cases hdpc
  · have hrow := h.fresh j d name' id' hd' hdpc
    by_cases htable : d.table = c.table
    · have hname : name' ≠ name := by
        intro hname
        rw [hname] at hdpc
        exact hj (h.alone j i d c name id' id hd' hc hdpc hpc htable)
      simp only [htable, Function.update_self, Function.update_of_ne hname, ← hrow]
    · simp only [Function.update_of_ne htable, hrow]

lemma Sound.step (h : s.Sound) (hstep : s.step a = some s') : s'.Sound := by
  cases step_cases hstep with
  | call name table => exact h.call name table
  | begins i c hc hpc => exact h.goto (by simp)
  | selects i c hc hpc =>
    apply h.goto
    intro name id
    unfold selectId
    split_ifs
    · simp
    · split <;> simp
  | inserts i c seq name id hc hpc hname hheld hrow =>
    have hseq : Sound { s with seq := seq } := ⟨h.fresh, h.alone⟩
    exact hseq.insert hheld hrow
  | refuses i c seq err hc hpc hrow =>
    have hseq : Sound { s with seq := seq } := ⟨h.fresh, h.alone⟩
    exact hseq.goto (by simp)
  | commits i c name id hc hpc => exact h.commit hc hpc
  | returns i c id hc hpc => exact h.goto (by simp)
  | fails i c err hc hpc => exact h.goto (by simp)

/-- Rows stay: a commit adds one under a name that had none. -/
lemma Sound.rows_step (h : s.Sound) (hstep : s.step a = some s') {table : Table} {name : Name}
    {id : Nat} (hrow : s.rows table name = some id) : s'.rows table name = some id := by
  cases step_cases hstep with
  | commits i c name' id' hc hpc =>
    have hnone := h.fresh i c name' id' hc hpc
    by_cases htable : table = c.table
    · subst htable
      have hname : name ≠ name' := by
        rintro rfl
        rw [hrow] at hnone
        cases hnone
      simp only [Function.update_self, Function.update_of_ne hname, hrow]
    · simp only [Function.update_of_ne htable, hrow]
  | _ => exact hrow

/-! ### Runs without conflicts -/

/-- A call that is on its way to the id of its name. -/
def Good (s : Db) (c : Call) : Prop :=
  match c.pc with
  | .commitFound id => ∃ name, Name.ofText c.name = some name ∧ s.rows c.table name = some id
  | .commitInserted name _ => Name.ofText c.name = some name
  | .fail _ => False
  | .returned _ => s.Right c
  | _ => True

lemma Good.mono (h : s.Good c)
    (hrows : ∀ table name id, s.rows table name = some id → s'.rows table name = some id) :
    s'.Good c := by
  unfold Good at h ⊢
  split
  · next id hpc =>
    simp only [hpc] at h
    obtain ⟨name, hname, hrow⟩ := h
    exact ⟨name, hname, hrows _ _ _ hrow⟩
  · next name id hpc => simpa only [hpc] using h
  · next err hpc => simp only [hpc] at h
  · next res hpc =>
    simp only [hpc] at h
    obtain ⟨name, id, hname, hrow, hret⟩ := h
    exact ⟨name, id, hname, hrows _ _ _ hrow, hret⟩
  · trivial

/-- What holds of the calls there were holds of all when the one that goes on has it. -/
lemma forall_goto {pc : Pc} {P : Call → Prop} (hold : ∀ d ∈ s.calls, P d)
    (hnew : P { c with pc := pc }) :
    ∀ d ∈ (s.goto i c pc).calls, P d := by
  intro d hd
  rcases List.mem_or_eq_of_mem_set hd with hd | rfl
  · exact hold d hd
  · exact hnew

lemma good_selectId (hnul : Char.ofNat 0 ∉ c.name.toList) (pc : Pc) (hpc : s.selectId c = pc) :
    s.Good { c with pc := pc } := by
  subst hpc
  unfold selectId
  rw [if_neg hnul]
  split
  · next id hid => exact Option.bind_eq_some_iff.1 hid
  · trivial

lemma good_step (hs : s.Sound) (hgood : ∀ c ∈ s.calls, s.Good c) (hok : s.Fresh a)
    (hstep : s.step a = some s') : ∀ c ∈ s'.calls, s'.Good c := by
  have hrows : ∀ table name id, s.rows table name = some id → s'.rows table name = some id :=
    fun _ _ _ hrow => hs.rows_step hstep hrow
  have hold : ∀ d ∈ s.calls, s'.Good d := fun d hd => (hgood d hd).mono hrows
  cases step_cases hstep with
  | call name table =>
    intro d hd
    rcases List.mem_append.1 hd with hd | hd
    · exact hold d hd
    · obtain rfl := List.mem_singleton.1 hd
      trivial
  | begins i c hc hpc => exact forall_goto hold trivial
  | selects i c hc hpc => exact forall_goto hold (good_selectId ((hok c hc).1 hpc) _ rfl)
  | inserts i c seq name id hc hpc hname hheld hrow =>
    apply @forall_goto { s with seq := seq } i c _ _ hold
    obtain ⟨name', hname', -⟩ := (hok c hc).2 hpc
    obtain rfl : name = name' := Option.some.inj (hname.symm.trans (Name.assign_eq hname'))
    exact hname'
  | refuses i c seq err hc hpc hrow =>
    obtain ⟨name, hname, hnone⟩ := (hok c hc).2 hpc
    exact absurd hnone (hrow name (Name.assign_eq hname))
  | commits i c name id hc hpc =>
    apply forall_goto hold
    have hc' := hgood c (List.mem_of_getElem? hc)
    simp only [Good, hpc] at hc'
    refine ⟨name, id, hc', ?_, rfl⟩
    simp only [Function.update_self]
  | returns i c id hc hpc =>
    apply forall_goto hold
    have hc' := hgood c (List.mem_of_getElem? hc)
    simp only [Good, hpc] at hc'
    obtain ⟨name, hname, hrow⟩ := hc'
    exact ⟨name, id, hname, hrow, rfl⟩
  | fails i c err hc hpc =>
    have hc' := hgood c (List.mem_of_getElem? hc)
    simp only [Good, hpc] at hc'

variable {tables : Tables} {as : List Act}

lemma good_run (hrun : Steps step Fresh (init tables) as s) :
    s.Sound ∧ ∀ c ∈ s.calls, s.Good c := by
  apply hrun.invariant (P := fun _ s => s.Sound ∧ ∀ c ∈ s.calls, s.Good c)
  · exact ⟨sound_init tables, by simp [init]⟩
  · rintro _ s a s' ⟨hsound, hgood⟩ hok hstep
    exact ⟨hsound.step hstep, good_step hsound hgood hok hstep⟩

/-! ### Conflicts -/

/-- A call that cannot get to the id of its name any more. -/
def Bad (c : Call) : Prop :=
  match c.pc with
  | .commitInserted _ _ => Name.ofText c.name = none
  | .fail _ => True
  | .returned (.ok _) => Name.ofText c.name = none
  | .returned (.error _) => True
  | _ => False

def HasBad (s : Db) : Prop := ∃ (j : Nat) (d : Call), s.calls[j]? = some d ∧ Bad d

lemma hasBad_goto {pc : Pc} (hc : s.calls[i]? = some c) (hbad : Bad { c with pc := pc }) :
    (s.goto i c pc).HasBad := by
  have hlt := (List.getElem?_eq_some_iff.1 hc).1
  exact ⟨i, _, List.getElem?_set_self hlt, hbad⟩

/-- A call that goes on stays bad, and the others are as they were. -/
lemma HasBad.goto {pc : Pc} (h : s.HasBad) (hc : s.calls[i]? = some c)
    (hpc : Bad c → Bad { c with pc := pc }) : (s.goto i c pc).HasBad := by
  obtain ⟨j, d, hd, hbad⟩ := h
  by_cases hij : i = j
  · subst hij
    obtain rfl : c = d := Option.some.inj (hc.symm.trans hd)
    exact hasBad_goto hc (hpc hbad)
  · exact ⟨j, d, (List.getElem?_set_ne hij).trans hd, hbad⟩

lemma HasBad.step (h : s.HasBad) (hstep : s.step a = some s') : s'.HasBad := by
  cases step_cases hstep with
  | call name table =>
    obtain ⟨j, d, hd, hbad⟩ := h
    have hlt := (List.getElem?_eq_some_iff.1 hd).1
    exact ⟨j, d, (List.getElem?_append_left hlt).trans hd, hbad⟩
  | begins i c hc hpc => exact h.goto hc (by simp [Bad, hpc])
  | selects i c hc hpc => exact h.goto hc (by simp [Bad, hpc])
  | inserts i c seq name id hc hpc hname hheld hrow =>
    exact @HasBad.goto { s with seq := seq } i c _ h hc (by simp [Bad, hpc])
  | refuses i c seq err hc hpc hrow =>
    exact @HasBad.goto { s with seq := seq } i c _ h hc (by simp [Bad, hpc])
  | commits i c name id hc hpc => exact h.goto hc (by simp [Bad, hpc])
  | returns i c id hc hpc => exact h.goto hc (by simp [Bad, hpc])
  | fails i c err hc hpc => exact h.goto hc (by simp [Bad, hpc])

lemma fresh_of_pc (hc : s.calls[i]? = some c) (hsel : c.pc ≠ .select) (hins : c.pc ≠ .insert) :
    s.Fresh (.run i) := by
  intro d hd
  obtain rfl : c = d := Option.some.inj (hc.symm.trans hd)
  exact ⟨fun h => absurd h hsel, fun h => absurd h hins⟩

lemma hasBad_of_not_fresh (hok : ¬s.Fresh a) (hstep : s.step a = some s') : s'.HasBad := by
  cases step_cases hstep with
  | call name table => exact absurd trivial hok
  | selects i c hc hpc =>
    by_cases hnul : Char.ofNat 0 ∈ c.name.toList
    · apply hasBad_goto hc
      simp [Bad, selectId, hnul]
    · refine absurd ?_ hok
      intro d hd
      obtain rfl : c = d := Option.some.inj (hc.symm.trans hd)
      exact ⟨fun _ => hnul, fun hins => by simp [hpc] at hins⟩
  | inserts i c seq name id hc hpc hname hheld hrow =>
    apply @hasBad_goto { s with seq := seq } i c _ hc
    by_contra hbad
    obtain ⟨name', hname'⟩ := Option.ne_none_iff_exists'.1 hbad
    obtain rfl : name = name' := Option.some.inj (hname.symm.trans (Name.assign_eq hname'))
    refine hok ?_
    intro d hd
    obtain rfl : c = d := Option.some.inj (hc.symm.trans hd)
    exact ⟨fun hsel => by simp [hpc] at hsel, fun _ => ⟨name, hname', hrow⟩⟩
  | refuses i c seq err hc hpc hrow => exact @hasBad_goto { s with seq := seq } i c _ hc trivial
  | begins i c hc hpc => exact absurd (fresh_of_pc hc (by simp [hpc]) (by simp [hpc])) hok
  | commits i c name id hc hpc => exact absurd (fresh_of_pc hc (by simp [hpc]) (by simp [hpc])) hok
  | returns i c id hc hpc => exact absurd (fresh_of_pc hc (by simp [hpc]) (by simp [hpc])) hok
  | fails i c err hc hpc => exact absurd (fresh_of_pc hc (by simp [hpc]) (by simp [hpc])) hok

/-- A run all of whose steps are fresh, or one with a call that has met a conflict. -/
lemma fresh_or_hasBad (hrun : AllSteps step (init tables) as s) :
    Steps step Fresh (init tables) as s ∨ s.HasBad := by
  induction hrun with
  | nil => exact .inl .nil
  | @snoc as s s' a run _ hstep ih =>
    rcases ih with hfresh | hbad
    · by_cases hok : s.Fresh a
      · exact .inl (hfresh.snoc hok hstep)
      · exact .inr (hasBad_of_not_fresh hok hstep)
    · exact .inr (hbad.step hstep)

lemma not_right_of_bad (h : Bad c) : ¬s.Right c := by
  rintro ⟨name, id, hname, -, hpc⟩
  simp [Bad, hpc, hname] at h

/-- Calls for one name in one table that have returned what they should have returned the same. -/
lemma Right.eq (hc : s.Right c) (hd : s.Right d) (hname : c.name = d.name)
    (htable : c.table = d.table) : c.pc = d.pc := by
  obtain ⟨n, id, hn, hrow, hpc⟩ := hc
  obtain ⟨n', id', hn', hrow', hpc'⟩ := hd
  rw [← hname] at hn'
  obtain rfl : n = n' := Option.some.inj (hn.symm.trans hn')
  rw [← htable, hrow] at hrow'
  rw [hpc, hpc', Option.some.inj hrow']

/-- As long as each `INSERT` finds its name still free, every call that returns gives the id of the
row of its name; and where all calls have returned that, each `INSERT` did. -/
theorem getOrCreateId_iff (hrun : AllSteps step (init tables) as s) :
    (Steps step Fresh (init tables) as s → ∀ c ∈ s.calls, c.Returned → s.Right c) ∧
    ((∀ c ∈ s.calls, s.Right c) → Steps step Fresh (init tables) as s) := by
  constructor
  · rintro hfresh c hc ⟨res, hpc⟩
    have hgood := (good_run hfresh).2 c hc
    simpa only [Good, hpc] using hgood
  · intro hright
    rcases fresh_or_hasBad hrun with hfresh | ⟨j, d, hd, hbad⟩
    · exact hfresh
    · exact absurd (hright d (List.mem_of_getElem? hd)) (not_right_of_bad hbad)

/-- A call that comes when the first has committed its row. -/
theorem getOrCreateId_two : ∃ s : Db, (∀ c ∈ s.calls, s.Right c) ∧ s.calls.length = 2 := by
  have hex : ∃ s, Steps step Fresh (init .empty)
      [.call "bob" .users, .run 0, .run 0, .run 0, .run 0, .call "bob" .users, .run 1, .run 1,
        .run 1] s ∧
      s.calls.length = 2 ∧ ∀ c ∈ s.calls, c.pc = .returned (.ok 1) :=
    steps_of_exec _ (by decide +kernel)
  obtain ⟨s, hrun, hlen, hdone⟩ := hex
  refine ⟨s, ?_, hlen⟩
  intro c hc
  exact (getOrCreateId_iff (hrun.mono fun _ _ _ => trivial)).1 hrun c hc ⟨_, hdone c hc⟩

/-- Two first callers: the second finds no row and runs its `INSERT` behind the commit of the first,
which gives it an error. -/
theorem getOrCreateId_conflict : ∃ as s, AllSteps step (init .empty) as s ∧
    ∃ c ∈ s.calls, c.name = "bob" ∧
      c.pc = .returned (.error "getOrCreateId tx insert error: no rows in result set") := by
  refine ⟨[.call "bob" .users, .call "bob" .users, .run 0, .run 0, .run 1, .run 1, .run 0, .run 0,
    .run 1, .run 1], ?_⟩
  exact steps_of_exec _ (by decide +kernel)

/-! ### Progress -/

/-- A call that has not returned can go on, or waits for one that can. -/
theorem progress (h : ∃ c ∈ s.calls, ¬c.Returned) : ∃ i, (s.step (.run i)).isSome := by
  obtain ⟨c, hc, hret⟩ := h
  obtain ⟨i, hi⟩ := List.mem_iff_getElem?.1 hc
  by_cases hheld : ∃ d ∈ s.calls, ∃ name id, d.pc = .commitInserted name id
  · obtain ⟨d, hd, name, id, hpc⟩ := hheld
    obtain ⟨j, hj⟩ := List.mem_iff_getElem?.1 hd
    refine ⟨j, ?_⟩
    simp [step, hj, getOrCreateId, hpc]
  · have hfree : ∀ table name, s.held table name = false := by
      intro table name
      rw [held_eq_false]
      intro d hd id hpc
      exact absurd ⟨d, hd, name, id, hpc⟩ hheld
    refine ⟨i, ?_⟩
    simp only [step, hi, Option.bind_some, getOrCreateId]
    split
    · rfl
    · rfl
    · rfl
    · unfold insertName
      split
      · rfl
      · simp only [hfree, Bool.false_eq_true, if_false]
        split <;> rfl
    · rfl
    · rfl
    · next res hpc => exact absurd ⟨res, hpc⟩ hret

end Db

end TiPI.Auditor
