import TiPI.DB.Logger

/-!
# Opening an existing log

`LogCommit` has zap append one JSON object a line, its `uint64` fields as numbers. `InitOrRestore`
reads one line back and asks for strings. The two agree on the empty file alone.
-/

namespace TiPI.DB

/-- A field of a line as `json.Unmarshal` decodes it into `any`. -/
inductive Json
  | string (s : String)
  | number (n : Nat)
  deriving DecidableEq, Repr

/-- The object of a line: the arguments of `Infow`, the message under `op`. -/
def RaftLogEntry.json (e : RaftLogEntry) : List (String × Json) :=
  [("op", .string e.op.text), ("operand", .string e.operand), ("value1", .string e.value1),
    ("value2", .string e.value2), ("index", .number e.ind), ("term", .number e.term),
    ("prev_index", .number e.prevInd), ("prev_term", .number e.prevTerm)]

/-- `strconv.ParseUint(s, 10, 64)` without its error: `0` on a syntax error, the largest value on
one that is out of range. -/
def parseUint (s : String) : Nat :=
  if s.isEmpty || !s.all Char.isDigit then 0
  else min (s.foldl (fun n c => 10 * n + (c.toNat - '0'.toNat)) 0) (2 ^ 64 - 1)

/-- `json.UnmarshalTypeError` with this `Value`. -/
structure UnmarshalTypeError where
  value : String
  deriving DecidableEq, Repr

/-- The field `key` of a line, which has to be a string. -/
def uintField (m : List (String × Json)) (key : String) : Except UnmarshalTypeError Nat :=
  match m.lookup key with
  | some (.string s) => .ok (parseUint s)
  | some (.number _) | none => .error ⟨key⟩

namespace Logger

/-- The entry `InitOrRestore` makes out of a line. `Op` and the operands stay empty. -/
def restoreEntry (m : List (String × Json)) : Except UnmarshalTypeError RaftLogEntry := do
  let term ← uintField m "term"
  let ind ← uintField m "index"
  let prevTerm ← uintField m "prev_term"
  let prevInd ← uintField m "prev_index"
  return { RaftLogEntry.zero with term, ind, prevTerm, prevInd }

/-- `InitOrRestore` on a path; `none` is a path without a file. -/
def initOrRestore (file : Option (List RaftLogEntry)) : Except UnmarshalTypeError Logger :=
  match file with
  | none => .ok ⟨[], .zero, []⟩
  | some lines =>
    match lines with
    | [] => .ok ⟨[], .zero, []⟩
    | top :: _ =>
      -- `Scan` is `false` on a first line that is too long for its buffer
      if top.lineLen < maxScanTokenSize then do
        let last ← restoreEntry top.json
        return ⟨lines, last, []⟩
      else .ok ⟨lines, .zero, []⟩

/-! ### Calls -/

inductive Call
  | logOp (msg : RaftLogEntry)
  | logCommit
  | flushUncommited
  deriving DecidableEq, Repr

def call (l : Logger) : Call → Logger
  | .logOp msg => l.logOp msg
  | .logCommit => l.logCommit
  | .flushUncommited => l.flushUncommited

def calls (l : Logger) (cs : List Call) : Logger := cs.foldl call l

/-- The index fields `LogOp` gives to an entry. -/
def nextStamp (l : Logger) (msg : RaftLogEntry) : Option (Nat × Nat × Nat) :=
  (l.logOp msg).toCommit.getLast?.map fun e => (e.ind, e.prevInd, e.prevTerm)

/-- Opening the file again gives a logger that goes on like this one without its buffer. -/
def Recovers (l : Logger) : Prop :=
  ∃ r, initOrRestore (some l.file) = .ok r ∧ r.lastOp = l.flushUncommited.lastOp ∧
    r.lenCommited = l.flushUncommited.lenCommited ∧
    ∀ msg, r.nextStamp msg = l.flushUncommited.nextStamp msg

/-- No `LogCommit` finds an entry in `to_commit`; `pending` tells whether there is one. -/
def commitsNothing (pending : Bool) : List Call → Bool
  | [] => true
  | .logOp _ :: cs => commitsNothing true cs
  | .logCommit :: cs => !pending && commitsNothing false cs
  | .flushUncommited :: cs => commitsNothing false cs

/-- A written line has a number where the reader asks for a string. -/
lemma restoreEntry_json (e : RaftLogEntry) : restoreEntry e.json = .error ⟨"term"⟩ := rfl

lemma recovers_of_empty {l : Logger} (hc : l.Chained) (hf : l.file = []) : l.Recovers := by
  have hsame : l.flushUncommited = fresh := by
    rw [flushUncommited, lastEntry_nil hc hf, hf]
    rfl
  refine ⟨fresh, by rw [hf]; rfl, ?_⟩
  rw [hsame]
  exact ⟨rfl, rfl, fun _ => rfl⟩

/-- A non-empty file is refused, or its entries are forgotten when the first line is too long. -/
lemma not_recovers_of_ne_nil {l : Logger} (hc : l.Chained) (hf : l.file ≠ []) : ¬ l.Recovers := by
  rintro ⟨r, hr, hlast, -⟩
  have hop := (lastEntry_of_ne_nil hc hf).2.1
  obtain ⟨top, rest, hfile⟩ := List.exists_cons_of_ne_nil hf
  rw [hfile] at hr
  simp only [initOrRestore] at hr
  split at hr
  · simp [restoreEntry_json, bind, Except.bind] at hr
  · obtain rfl := Except.ok.inj hr
    rw [lastOp, lastOp, flushUncommited_lastEntry] at hlast
    exact hop (by rw [← hlast]; rfl)

lemma recovers_iff {l : Logger} (hc : l.Chained) : l.Recovers ↔ l.file = [] := by
  constructor
  · intro hr
    by_contra hf
    exact not_recovers_of_ne_nil hc hf hr
  · exact recovers_of_empty hc

lemma Chained.call {l : Logger} (h : l.Chained) {c : Call}
    (hop : ∀ msg, c = .logOp msg → msg.op ≠ .none) : (l.call c).Chained := by
  cases c with
  | logOp msg => exact h.logOp (hop msg rfl)
  | logCommit => exact h.logCommit
  | flushUncommited => exact h.flushUncommited

lemma Chained.calls {l : Logger} (h : l.Chained) {cs : List Call}
    (hop : ∀ msg, .logOp msg ∈ cs → msg.op ≠ .none) : (l.calls cs).Chained := by
  induction cs generalizing l with
  | nil => exact h
  | cons c cs ih =>
    refine ih (h.call ?_) fun msg hmem => hop msg (List.mem_cons_of_mem _ hmem)
    rintro msg rfl
    exact hop msg List.mem_cons_self

/-! ### The numbers of the entries -/

/-- The entries are numbered from `0` on without a gap, and each refers to its predecessor. -/
structure IndexChain (es : List RaftLogEntry) : Prop where
  ind : ∀ (i : Nat) (e : RaftLogEntry), es[i]? = some e → e.ind = i
  prevInd : ∀ e ∈ es, e.prevInd = e.ind - 1
  firstTerm : ∀ e : RaftLogEntry, es[0]? = some e → e.prevTerm = 0
  prevTerm : ∀ (i : Nat) (p e : RaftLogEntry), es[i]? = some p → es[i + 1]? = some e →
    e.prevTerm = p.term

lemma lastTerm_take {es : List RaftLogEntry} {i : Nat} {p : RaftLogEntry} (hp : es[i]? = some p) :
    lastTerm (es.take (i + 1)) = p.term := by
  rw [lastTerm, List.take_add_one, hp]
  simp

lemma Chained.indexChain {l : Logger} (h : l.Chained) : IndexChain l.log := by
  constructor
  · intro _ _ he
    exact h.ind he
  · intro e hmem
    obtain ⟨i, he⟩ := List.mem_iff_getElem?.1 hmem
    rw [h.stamped i e he]
    rfl
  · intro e he
    rw [h.stamped 0 e he]
    rfl
  · intro i p e hp he
    rw [h.stamped (i + 1) e he]
    exact lastTerm_take hp

/-- Whatever the order of the calls, the committed entries followed by the pending ones are numbered
without a gap, and the two lengths count them. -/
theorem calls_indexChain (cs : List Call) (hop : ∀ msg, .logOp msg ∈ cs → msg.op ≠ .none) :
    IndexChain (fresh.calls cs).log ∧
      (fresh.calls cs).lenCommited = (fresh.calls cs).file.length ∧
      (fresh.calls cs).lenUncommited =
        (fresh.calls cs).lenCommited + (fresh.calls cs).toCommit.length := by
  have hc := chained_fresh.calls hop
  refine ⟨hc.indexChain, lenCommited_eq hc, ?_⟩
  rw [lenUncommited_eq hc, lenCommited_eq hc, log, List.length_append]

theorem calls_indexChain_two :
    IndexChain (fresh.calls [.logOp { RaftLogEntry.zero with op := .create, term := 3 }, .logCommit,
      .logOp { RaftLogEntry.zero with op := .delete, term := 5 }]).log := by
  refine (calls_indexChain _ ?_).1
  intro msg hmem
  simp only [List.mem_cons, Call.logOp.injEq, reduceCtorEq, List.not_mem_nil, or_false,
    false_or] at hmem
  rcases hmem with rfl | rfl
  · decide
  · decide

/-- The file only grows. -/
lemma file_prefix_calls (l : Logger) (cs : List Call) : l.file <+: (l.calls cs).file := by
  induction cs generalizing l with
  | nil => exact List.prefix_rfl
  | cons c cs ih =>
    refine List.IsPrefix.trans ?_ (ih (l.call c))
    cases c with
    | logOp msg => simp [call]
    | logCommit =>
      simp only [call, logCommit]
      split
      · exact List.prefix_rfl
      · exact List.prefix_append _ _
    | flushUncommited => exact List.prefix_rfl

lemma calls_file_eq_nil {l : Logger} (hf : l.file = []) (cs : List Call) :
    (l.calls cs).file = [] ↔ commitsNothing (!l.toCommit.isEmpty) cs = true := by
  induction cs generalizing l with
  | nil => simp [calls, hf, commitsNothing]
  | cons c cs ih =>
    have hcalls : l.calls (c :: cs) = (l.call c).calls cs := rfl
    rw [hcalls]
    cases c with
    | logOp msg =>
      rw [ih (by simp [call, hf])]
      have hpending : (l.call (.logOp msg)).toCommit.isEmpty = false := by simp [call, logOp]
      rw [hpending]
      rfl
    | flushUncommited =>
      rw [ih (by simpa [call] using hf)]
      rfl
    | logCommit =>
      cases hp : l.toCommit with
      | nil =>
        have hsame : l.call .logCommit = l := by simp [call, logCommit, hp]
        rw [hsame, ih hf, hp]
        rfl
      | cons m rest =>
        have hnext : (l.call .logCommit).file = [m] := by simp [call, logCommit, hp, hf]
        have hpre := file_prefix_calls (l.call .logCommit) cs
        simp only [commitsNothing, List.isEmpty_cons, Bool.not_false, Bool.not_true,
          Bool.false_and, Bool.false_eq_true, iff_false]
        intro hnil
        rw [hnil, hnext] at hpre
        simpa using hpre.length_le

/-- A log opened on a fresh path can be opened again in exactly the cases in which no call has
committed an entry. -/
theorem recovers_iff_commitsNothing (cs : List Call)
    (hop : ∀ msg, .logOp msg ∈ cs → msg.op ≠ .none) :
    (fresh.calls cs).Recovers ↔ commitsNothing false cs = true := by
  rw [recovers_iff (chained_fresh.calls hop), calls_file_eq_nil rfl]
  rfl

/-- The entry of a `create` of `k`. -/
def creates : RaftLogEntry :=
  { RaftLogEntry.zero with op := .create, operand := "k", value1 := "x" }

theorem recovers_flushed :
    (fresh.calls [.logOp creates, .flushUncommited, .logCommit]).Recovers := by
  refine (recovers_iff_commitsNothing _ ?_).mpr rfl
  intro msg hmem
  simp only [List.mem_cons, Call.logOp.injEq, reduceCtorEq, List.not_mem_nil, or_self,
    or_false] at hmem
  rw [hmem]
  decide

theorem not_recovers_committed : ¬ (fresh.calls [.logOp creates, .logCommit]).Recovers := by
  rintro ⟨r, hr, -⟩
  have herr : initOrRestore (some (fresh.calls [.logOp creates, .logCommit]).file) =
      .error ⟨"term"⟩ := by decide
  rw [herr] at hr
  exact absurd hr (by simp)

end Logger

end TiPI.DB
