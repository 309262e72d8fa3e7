import TiPI.DB.Recovery
import Mathlib.Data.List.TakeWhile

/-!
# The committed history

What the calls of a logger commit, without its file and its counters: a list of committed entries
and a list of pending ones. `Ops` reads the committed ones back line by line.
-/

namespace TiPI.DB

/-- The entries of a log, each stamped with its place. -/
structure History where
  committed : List RaftLogEntry
  pending : List RaftLogEntry

namespace History

def empty : History := ⟨[], []⟩

def call (h : History) : Logger.Call → History
  | .logOp msg => { h with pending := h.pending ++ [msg.stamp (h.committed ++ h.pending)] }
  | .logCommit => ⟨h.committed ++ h.pending.take 1, h.pending.drop 1⟩
  | .flushUncommited => { h with pending := [] }

def calls (h : History) (cs : List Logger.Call) : History := cs.foldl call h

end History

namespace Logger

/-- The logger has this history. -/
structure Keeps (l : Logger) (h : History) : Prop where
  chained : l.Chained
  file : l.file = h.committed
  toCommit : l.toCommit = h.pending

variable {l : Logger} {h : History}

lemma keeps_fresh : fresh.Keeps .empty := ⟨chained_fresh, rfl, rfl⟩

lemma Keeps.call (hk : l.Keeps h) {c : Call} (hop : ∀ msg, c = .logOp msg → msg.op ≠ .none) :
    (l.call c).Keeps (h.call c) := by
  refine ⟨hk.chained.call hop, ?_, ?_⟩
  · cases c with
    | logOp msg => exact (logOp_file l msg).trans hk.file
    | logCommit =>
      simp only [Logger.call, logCommit, History.call, ← hk.file, ← hk.toCommit]
      split
      · next hnil => simp [hnil]
      · next m rest hrest => simp [hrest]
    | flushUncommited => exact hk.file
  · cases c with
    | logOp msg =>
      simp only [Logger.call, logOp_eq hk.chained, History.call, ← hk.file, ← hk.toCommit]
      rfl
    | logCommit =>
      simp only [Logger.call, logCommit, History.call, ← hk.toCommit]
      split
      · next hnil => simp [hnil]
      · next m rest hrest => simp [hrest]
    | flushUncommited => rfl

lemma Keeps.calls (hk : l.Keeps h) {cs : List Call}
    (hop : ∀ msg, .logOp msg ∈ cs → msg.op ≠ .none) :
    (l.calls cs).Keeps (h.calls cs) := by
  induction cs generalizing l h with
  | nil => exact hk
  | cons c cs ih =>
    refine ih (hk.call ?_) fun msg hmem => hop msg (List.mem_cons_of_mem _ hmem)
    rintro msg rfl
    exact hop msg List.mem_cons_self

/-- All lines are short enough for the scanner, or the first that is not ends the result. -/
lemma ops_eq_file_iff (l : Logger) :
    l.ops 0 = l.file ↔ ∀ e ∈ l.file, e.lineLen < maxScanTokenSize := by
  simp [ops, List.takeWhile_eq_self_iff]

/-- `Ops(0)` returns the committed history, and as many entries as `LenCommited` counts, exactly
when the lines of all of them are shorter than 64 KiB. -/
theorem ops_eq_history_iff (cs : List Call) (hop : ∀ msg, .logOp msg ∈ cs → msg.op ≠ .none) :
    ((fresh.calls cs).ops 0 = (History.empty.calls cs).committed ∧
      ((fresh.calls cs).ops 0).length = (fresh.calls cs).lenCommited) ↔
    ∀ e ∈ (History.empty.calls cs).committed, e.lineLen < maxScanTokenSize := by
  have hk := keeps_fresh.calls hop
  rw [lenCommited_eq hk.chained, ← hk.file, ← ops_eq_file_iff]
  exact and_iff_left_of_imp fun h => by rw [h]

theorem ops_eq_history_one :
    (fresh.calls [.logOp creates, .logCommit]).ops 0 =
      (History.empty.calls [.logOp creates, .logCommit]).committed := by
  refine ((ops_eq_history_iff [.logOp creates, .logCommit] ?_).2 (by decide)).1
  intro msg hmem
  obtain rfl : msg = creates := by simpa using hmem
  decide

/-- A `create` with a value of `n` bytes. -/
def long (n : Nat) : RaftLogEntry := { creates with value1 := .ofList (List.replicate n 'x') }

lemma le_lineLen_long (n : Nat) (es : List RaftLogEntry) : n ≤ ((long n).stamp es).lineLen := by
  have hx : escapedLen 'x' = 1 := by decide
  have hvalue : n ≤ jsonStringLen ((long n).stamp es).value1 := by
    simp [jsonStringLen, long, RaftLogEntry.stamp, hx]
  simp only [RaftLogEntry.lineLen, List.sum_cons]
  omega

lemma ops_ne_history {n : Nat} (hn : maxScanTokenSize ≤ n) :
    (fresh.calls [.logOp (long n), .logCommit]).ops 0 ≠
      (History.empty.calls [.logOp (long n), .logCommit]).committed := by
  have hk : (fresh.calls [.logOp (long n), .logCommit]).Keeps
      (History.empty.calls [.logOp (long n), .logCommit]) :=
    keeps_fresh.calls (by simp [long, creates])
  intro heq
  rw [← hk.file, ops_eq_file_iff, hk.file] at heq
  have hshort := heq ((long n).stamp []) (by simp [History.calls, History.call, History.empty])
  exact absurd (hn.trans (le_lineLen_long n [])) (not_le.2 hshort)

theorem ops_drops_long :
    (fresh.calls [.logOp (long maxScanTokenSize), .logCommit]).ops 0 ≠
      (History.empty.calls [.logOp (long maxScanTokenSize), .logCommit]).committed :=
  ops_ne_history le_rfl

end Logger

end TiPI.DB
