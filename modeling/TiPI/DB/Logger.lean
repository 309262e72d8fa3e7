import TiPI.Lib.Replicas
import Mathlib.Algebra.Order.Ring.Nat

/-!
# The Raft log of a node

`Logger` keeps the committed entries in a file, one JSON line an entry, and the entries that
still wait for a quorum in `toCommit`. The index, the previous index and the previous term of an
entry are set by `logOp`, never by its caller.

Lengths and indices are `uint64` in the source and natural numbers here: they count log entries
and stay below `2 ^ 64`. Only the subtraction `x - 1` of the source can wrap, at zero
(`Logger.pred`).
-/

namespace TiPI.DB

/-- The operation of a log entry. `none` is the empty string of a default entry. -/
inductive Opertn
  | none
  | create
  | update
  | read
  | delete
  | CAS
  | other (name : String)
  deriving DecidableEq, Repr

structure RaftLogEntry where
  op : Opertn
  operand : String
  value1 : String
  value2 : String
  term : Nat
  ind : Nat
  prevInd : Nat
  prevTerm : Nat
  deriving DecidableEq, Repr

/-- Go's zero value of `RaftLogEntry`. -/
def RaftLogEntry.zero : RaftLogEntry := ⟨.none, "", "", "", 0, 0, 0, 0⟩

/-- What a client's request put into an entry; `Ind`, `PrevInd` and `PrevTerm` are left out. -/
def RaftLogEntry.payload (e : RaftLogEntry) : Opertn × String × String × String × Nat :=
  (e.op, e.operand, e.value1, e.value2, e.term)

structure Logger where
  /-- the lines of the log file, oldest first -/
  file : List RaftLogEntry
  lastEntry : RaftLogEntry
  toCommit : List RaftLogEntry
  deriving DecidableEq, Repr

namespace Logger

/-- `InitOrRestore` on a path where no file exists. -/
def fresh : Logger := ⟨[], .zero, []⟩

/-- `x - 1` on `uint64`. -/
def pred (x : Nat) : Nat := if x = 0 then 2 ^ 64 - 1 else x - 1

def logOp (l : Logger) (msg : RaftLogEntry) : Logger :=
  let msg :=
    match l.toCommit.getLast? with
    | some last =>
      { msg with ind := last.ind + 1, prevInd := last.ind + 1 - 1, prevTerm := last.term }
    | none =>
      if l.lastEntry.op = .none then
        { msg with ind := 0, prevInd := 0, prevTerm := 0 }
      else
        { msg with
          ind := l.lastEntry.ind + 1
          prevInd := l.lastEntry.ind + 1 - 1
          prevTerm := l.lastEntry.term }
  { l with toCommit := l.toCommit ++ [msg] }

def logCommit (l : Logger) : Logger :=
  match l.toCommit with
  | [] => l
  | m :: rest => { file := l.file ++ [m], lastEntry := m, toCommit := rest }

def lastOp (l : Logger) : RaftLogEntry := l.lastEntry

def lenCommited (l : Logger) : Nat :=
  if l.lastEntry.op = .none then l.lastEntry.ind else l.lastEntry.ind + 1

def flushUncommited (l : Logger) : Logger := { l with toCommit := [] }

def lenUncommited (l : Logger) : Nat := l.lenCommited + l.toCommit.length

def uncommitedOps (l : Logger) : List RaftLogEntry := l.toCommit

end Logger

/-! ### Reading the file back -/

/-- Bytes zap's `safeAddString` writes for one character. -/
def escapedLen (c : Char) : Nat :=
  if c = '\\' ∨ c = '"' ∨ c = '\n' ∨ c = '\r' ∨ c = '\t' then 2
  else if c.toNat < 0x20 then 6
  else c.utf8Size

/-- Bytes of a quoted JSON string. -/
def jsonStringLen (s : String) : Nat := (s.toList.map escapedLen).sum + 2

def Opertn.text : Opertn → String
  | .none => ""
  | .create => "create"
  | .update => "update"
  | .read => "read"
  | .delete => "delete"
  | .CAS => "CAS"
  | .other name => name

/-- The keys `LogCommit` hands to zap, in its order, each followed by its value. -/
def RaftLogEntry.lineLen (e : RaftLogEntry) : Nat :=
  let string (key val : String) := jsonStringLen key + 1 + jsonStringLen val
  let uint64 (key : String) (val : Nat) := jsonStringLen key + 1 + (Nat.repr val).length
  let fields := [string "op" e.op.text, string "operand" e.operand, string "value1" e.value1,
    string "value2" e.value2, uint64 "index" e.ind, uint64 "term" e.term,
    uint64 "prev_index" e.prevInd, uint64 "prev_term" e.prevTerm]
  fields.sum + 7 + 2

/-- `bufio.MaxScanTokenSize`: a scanner with its default buffer stops at a longer line. -/
def maxScanTokenSize : Nat := 64 * 1024

/-- `Ops(index)`: the argument only guards the call, the whole file is read. -/
def Logger.ops (l : Logger) (index : Nat) : List RaftLogEntry :=
  if index > l.lastEntry.ind then []
  else l.file.takeWhile fun e => e.lineLen < maxScanTokenSize

/-! ### The index chain

With entries that have an operation, position and index coincide along the committed entries
followed by the pending ones, and the two lengths count them. -/

/-- Term of the last entry of a list, `0` for the empty one. -/
def lastTerm (es : List RaftLogEntry) : Nat := es.getLast?.elim 0 RaftLogEntry.term

/-- An entry under the index fields it gets behind the entries `es`. -/
def RaftLogEntry.stamp (msg : RaftLogEntry) (es : List RaftLogEntry) : RaftLogEntry :=
  { msg with ind := es.length, prevInd := es.length - 1, prevTerm := lastTerm es }

@[simp] lemma RaftLogEntry.stamp_payload (msg : RaftLogEntry) (es : List RaftLogEntry) :
    (msg.stamp es).payload = msg.payload := rfl

@[simp] lemma RaftLogEntry.stamp_ind (msg : RaftLogEntry) (es : List RaftLogEntry) :
    (msg.stamp es).ind = es.length := rfl

namespace Logger

/-- The committed entries followed by the pending ones. -/
def log (l : Logger) : List RaftLogEntry := l.file ++ l.toCommit

/-- Each entry is stamped with its place, and `lastEntry` caches the last line of the file. -/
structure Chained (l : Logger) : Prop where
  stamped : ∀ (i : Nat) (e : RaftLogEntry), l.log[i]? = some e → e = e.stamp (l.log.take i)
  op : ∀ e ∈ l.log, e.op ≠ .none
  last : l.lastEntry = l.file.getLast?.getD .zero

lemma Chained.ind {l : Logger} (h : l.Chained) {i : Nat} {e : RaftLogEntry}
    (hi : l.log[i]? = some e) : e.ind = i := by
  have hlt := (List.getElem?_eq_some_iff.mp hi).1
  rw [h.stamped i e hi, RaftLogEntry.stamp_ind, List.length_take]
  omega

/-- The place and the entries before it fix the index fields: logs that agree on what the requests
put into them hold the very same entries. -/
lemma Chained.entry_eq {l l' : Logger} (h : l.Chained) (h' : l'.Chained) {k : Nat}
    {a b : RaftLogEntry} (ha : l.log[k]? = some a) (hb : l'.log[k]? = some b)
    (hpay : ∀ i ≤ k, ∀ x y, l.log[i]? = some x → l'.log[i]? = some y → x.payload = y.payload) :
    a = b := by
  have hlt := (List.getElem?_eq_some_iff.mp ha).1
  have hlt' := (List.getElem?_eq_some_iff.mp hb).1
  have hprev : lastTerm (l.log.take k) = lastTerm (l'.log.take k) := by
    cases k with
    | zero => rfl
    | succ k =>
      obtain ⟨p, hget⟩ : ∃ p, l.log[k]? = some p := ⟨_, List.getElem?_eq_getElem (by omega)⟩
      obtain ⟨q, hget'⟩ : ∃ q, l'.log[k]? = some q := ⟨_, List.getElem?_eq_getElem (by omega)⟩
      have hterm := congrArg (·.2.2.2.2) (hpay k (Nat.le_succ k) _ _ hget hget')
      rw [lastTerm, lastTerm, List.getLast?_take, List.getLast?_take, if_neg (Nat.succ_ne_zero k),
        if_neg (Nat.succ_ne_zero k), Nat.add_sub_cancel, hget, hget']
      exact hterm
  have hlen : (l.log.take k).length = (l'.log.take k).length := by
    rw [List.length_take, List.length_take]
    omega
  have heq := hpay k le_rfl a b ha hb
  simp only [RaftLogEntry.payload, Prod.mk.injEq] at heq
  rw [h.stamped k a ha, h'.stamped k b hb]
  simp only [RaftLogEntry.stamp, hprev, hlen]
  obtain ⟨hop, hoperand, hv1, hv2, hterm⟩ := heq
  rw [hop, hoperand, hv1, hv2, hterm]

lemma chained_fresh : fresh.Chained := by
  constructor <;> simp [fresh, log]

lemma file_prefix_log (l : Logger) : l.file <+: l.log := ⟨l.toCommit, rfl⟩

lemma log_of_file {l : Logger} {i : Nat} {e : RaftLogEntry} (hi : l.file[i]? = some e) :
    l.log[i]? = some e :=
  getElem?_mono l.file_prefix_log hi

lemma lastEntry_nil {l : Logger} (h : l.Chained) (hf : l.file = []) : l.lastEntry = .zero := by
  rw [h.last, hf]
  rfl

lemma lastEntry_of_ne_nil {l : Logger} (h : l.Chained) (hf : l.file ≠ []) :
    l.lastEntry.ind + 1 = l.file.length ∧ l.lastEntry.op ≠ .none ∧
      l.lastEntry.term = lastTerm l.file := by
  have hlast : l.lastEntry = l.file.getLast hf := by
    rw [h.last, List.getLast?_eq_some_getLast hf]
    rfl
  have hpos : 0 < l.file.length := List.length_pos_of_ne_nil hf
  have hget : l.file[l.file.length - 1]? = some l.lastEntry := by
    rw [hlast, List.getLast_eq_getElem]
    exact List.getElem?_eq_getElem (by omega)
  refine ⟨?_, h.op _ (List.mem_of_getElem? (log_of_file hget)), ?_⟩
  · rw [h.ind (log_of_file hget)]
    omega
  · rw [lastTerm, List.getLast?_eq_some_getLast hf, hlast]
    rfl

lemma lenCommited_eq {l : Logger} (h : l.Chained) : l.lenCommited = l.file.length := by
  by_cases hf : l.file = []
  · rw [lenCommited, lastEntry_nil h hf, hf]
    rfl
  · obtain ⟨hind, hop, _⟩ := lastEntry_of_ne_nil h hf
    rw [lenCommited, if_neg hop, hind]

lemma lenUncommited_eq {l : Logger} (h : l.Chained) : l.lenUncommited = l.log.length := by
  rw [lenUncommited, lenCommited_eq h, log, List.length_append]

/-- On a chained log `logOp` appends the message under the stamp of its place. -/
lemma logOp_eq {l : Logger} (h : l.Chained) (msg : RaftLogEntry) :
    l.logOp msg = { l with toCommit := l.toCommit ++ [msg.stamp l.log] } := by
  unfold logOp
  rcases List.eq_nil_or_concat l.toCommit with hnil | ⟨init, last, hlast⟩
  · by_cases hf : l.file = []
    · simp [lastEntry_nil h hf, RaftLogEntry.zero, RaftLogEntry.stamp, lastTerm, log, hf, hnil]
    · obtain ⟨hind, hop, hterm⟩ := lastEntry_of_ne_nil h hf
      simp [hop, hind, hterm, log, hnil, RaftLogEntry.stamp]
  · have hget : l.log[l.file.length + init.length]? = some last := by
      rw [log, hlast]
      simp
    have hind : last.ind + 1 = l.log.length := by
      rw [h.ind hget, log, hlast]
      simp [Nat.add_assoc]
    have hterm : last.term = lastTerm l.log := by
      simp [lastTerm, log, hlast, ← List.append_assoc]
    simp [hlast, hind, hterm, RaftLogEntry.stamp]

lemma logOp_log {l : Logger} (h : l.Chained) (msg : RaftLogEntry) :
    (l.logOp msg).log = l.log ++ [msg.stamp l.log] := by
  rw [logOp_eq h]
  simp [log]

@[simp] lemma logOp_file (l : Logger) (msg : RaftLogEntry) : (l.logOp msg).file = l.file := by
  simp [logOp]

@[simp] lemma logOp_lastEntry (l : Logger) (msg : RaftLogEntry) :
    (l.logOp msg).lastEntry = l.lastEntry := by simp [logOp]

@[simp] lemma flushUncommited_file (l : Logger) : l.flushUncommited.file = l.file := rfl

@[simp] lemma flushUncommited_lastEntry (l : Logger) :
    l.flushUncommited.lastEntry = l.lastEntry := rfl

@[simp] lemma flushUncommited_toCommit (l : Logger) : l.flushUncommited.toCommit = [] := rfl

@[simp] lemma flushUncommited_log (l : Logger) : l.flushUncommited.log = l.file := by
  simp [log]

/-- Committing moves the boundary between file and buffer, not the entries. -/
@[simp] lemma logCommit_log (l : Logger) : l.logCommit.log = l.log := by
  unfold logCommit log
  split <;> simp_all

lemma Chained.logOp {l : Logger} (h : l.Chained) {msg : RaftLogEntry} (hop : msg.op ≠ .none) :
    (l.logOp msg).Chained := by
  refine ⟨?_, ?_, ?_⟩
  · intro i e hi
    rw [logOp_log h, List.getElem?_append] at hi
    rw [logOp_log h]
    split at hi
    · next hlt =>
      rw [List.take_append_of_le_length (by omega)]
      exact h.stamped i e hi
    · next hge =>
      obtain ⟨hlt, heq⟩ := List.getElem?_eq_some_iff.mp hi
      simp only [List.length_singleton] at hlt
      obtain rfl : i = l.log.length := by omega
      obtain rfl : msg.stamp l.log = e := by simpa using heq
      rw [List.take_left]
      rfl
  · intro e he
    rw [logOp_log h, List.mem_append, List.mem_singleton] at he
    rcases he with hold | rfl
    · exact h.op e hold
    · exact hop
  · rw [logOp_lastEntry, logOp_file]
    exact h.last

lemma Chained.logCommit {l : Logger} (h : l.Chained) : l.logCommit.Chained := by
  refine ⟨?_, ?_, ?_⟩
  · rw [logCommit_log]
    exact h.stamped
  · rw [logCommit_log]
    exact h.op
  · unfold Logger.logCommit
    split
    · exact h.last
    · simp

lemma Chained.flushUncommited {l : Logger} (h : l.Chained) : l.flushUncommited.Chained := by
  refine ⟨?_, ?_, h.last⟩
  · intro i e hi
    rw [flushUncommited_log] at hi ⊢
    have hlt := (List.getElem?_eq_some_iff.mp hi).1
    have hold := h.stamped i e (log_of_file hi)
    rwa [log, List.take_append_of_le_length (by omega)] at hold
  · intro e he
    rw [flushUncommited_log] at he
    exact h.op e (List.mem_append_left _ he)

end Logger

end TiPI.DB
