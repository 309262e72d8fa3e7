import Mathlib.Data.UInt
import TiPI.Lib.Chars

/-!
# Tasks as strings

The 32 bytes that a client of the echo server sends for a task: the special symbol, the descriptor
as an `int` (low byte first), and the message. The task that is made of them holds the address of
the task string and reads the bytes when it runs.
-/

namespace TiPI.ThreadPool

/-- `TASKMSG_SIZE` -/
def taskmsgSize : Nat := 32

/-- `SPCL_SYMB` -/
def spclSymb : UInt8 := 16

/-- The bytes of an `int`. -/
def intBytes (x : Int32) : List UInt8 := lowBytes 4 x.toUInt32.toNat

/-- The `int` at an address. -/
def intAt (l : List UInt8) : Int32 := (UInt32.ofNat (ofLowBytes (l.take 4))).toInt32

/-- A call of `write`. -/
structure Write where
  fd : Int32
  buf : List UInt8
  deriving DecidableEq

/-- What memory holds, by address. -/
abbrev Memory := Nat → UInt8

/-- The `n` bytes at an address. -/
def Memory.read (mem : Memory) (a n : Nat) : List UInt8 := (List.range' a n).map mem

structure TaskString where
  s : List UInt8
  length_s : s.length = taskmsgSize

namespace TaskString

def new (dest : Int32) (msg : List UInt8) : TaskString where
  s := spclSymb :: (intBytes dest ++ strncpy msg (taskmsgSize - 4 - 1))
  length_s := by simp [intBytes, taskmsgSize]

/-- What `operator Task` makes: `[=]` takes `this` along, not the array. -/
structure Task where
  this : Nat

/-- The task reads memory as it is when the task runs. -/
def Task.run (t : Task) (mem : Memory) : Write where
  fd := intAt (mem.read (t.this + 1) 4)
  buf := mem.read (t.this + 2 * 4) (taskmsgSize - 2 * 4)

/-- What memory can hold when the task runs: the array of the task string, as long as that exists.
The place of one that does not exist any more can hold anything. -/
def Holds (ts : TaskString) (alive : Bool) (t : Task) (mem : Memory) : Prop :=
  alive = true → mem.read t.this taskmsgSize = ts.s

/-- `behind` is what memory holds behind the array. -/
def taskToMsg (ts : TaskString) (behind : List UInt8) : List UInt8 := strAt (ts.s ++ behind)

def taskFromMsg (msg : List UInt8) : TaskString where
  s := strncpy msg taskmsgSize
  length_s := length_strncpy msg taskmsgSize

/-! ### Descriptors -/

lemma intAt_intBytes (x : Int32) (l : List UInt8) : intAt (intBytes x ++ l) = x := by
  have htake : (intBytes x ++ l).take 4 = intBytes x := List.take_left' (length_lowBytes 4 _)
  rw [intAt, htake, intBytes, ofLowBytes_lowBytes x.toUInt32.toNat_lt, UInt32.ofNat_toNat,
    Int32.toInt32_toUInt32]

lemma intBytes_intAt {bytes : List UInt8} (hlen : bytes.length = 4) (l : List UInt8) :
    intBytes (intAt (bytes ++ l)) = bytes := by
  have hlt : ofLowBytes bytes < 2 ^ 32 := by
    have hbytes := ofLowBytes_lt bytes
    rwa [hlen] at hbytes
  have hword : (intAt (bytes ++ l)).toUInt32.toNat = ofLowBytes bytes := by
    rw [intAt, List.take_left' hlen, UInt32.toUInt32_toInt32]
    exact UInt32.toNat_ofNat_of_lt' hlt
  rw [intBytes, hword, ← hlen, lowBytes_ofLowBytes]

/-! ### The round trip -/

variable {dest : Int32} {msg behind : List UInt8}

/-- The task string that the server makes of a client's message. -/
def received (dest : Int32) (msg behind : List UInt8) : TaskString :=
  taskFromMsg ((new dest msg).taskToMsg behind)

/-- What comes through: the message, unless a byte of the descriptor is zero. -/
lemma received_s : (received dest msg behind).s = spclSymb :: (strncpy (intBytes dest) 4 ++
    if 0 ∈ intBytes dest then List.replicate 27 0 else strncpy msg 27) := by
  have hlen : (intBytes dest).length = 4 := length_lowBytes 4 _
  have hcopy := strncpy_append (intBytes dest) (strncpy msg 27 ++ behind) 27
  rw [hlen, strncpy_strncpy_append] at hcopy
  calc (received dest msg behind).s
      = strncpy (spclSymb :: (intBytes dest ++ (strncpy msg 27 ++ behind))) 32 := by
        simp only [received, taskFromMsg, taskToMsg, new, strncpy_strAt, List.cons_append,
          List.append_assoc]
        rfl
    _ = spclSymb :: strncpy (intBytes dest ++ (strncpy msg 27 ++ behind)) 31 :=
        strncpy_cons (by decide)
    _ = _ := by rw [hcopy]

/-! ### The task -/

lemma Memory.drop_read (mem : Memory) (a k n : Nat) :
    (mem.read a n).drop k = mem.read (a + k) (n - k) := by
  rw [Memory.read, ← List.map_drop, List.drop_range', Nat.mul_one, Memory.read]

lemma Memory.take_read (mem : Memory) (a : Nat) {k n : Nat} (h : k ≤ n) :
    (mem.read a n).take k = mem.read a k := by
  rw [Memory.read, ← List.map_take, List.take_range'_of_length_ge h, Memory.read]

/-- Memory with a task string at `a`. -/
def inMemory (ts : TaskString) (a : Nat) : Memory := fun i => ts.s.getD (i - a) 0

lemma read_inMemory (ts : TaskString) (a : Nat) : (ts.inMemory a).read a taskmsgSize = ts.s := by
  rw [← ts.length_s]
  apply List.ext_getElem
  · rw [Memory.read, List.length_map, List.length_range']
  · intro i _ hi
    simp [Memory.read, inMemory, hi]

variable {t : Task} {mem : Memory} {ts : TaskString}

lemma fd_run (hmem : mem.read t.this taskmsgSize = ts.s) :
    (t.run mem).fd = intAt (ts.s.drop 1) := by
  rw [Task.run, intAt, intAt, ← hmem, Memory.drop_read, Memory.take_read _ _ (by decide),
    Memory.take_read _ _ (by decide)]

lemma buf_run (hmem : mem.read t.this taskmsgSize = ts.s) : (t.run mem).buf = ts.s.drop 8 := by
  rw [Task.run, ← hmem, Memory.drop_read]

lemma intAt_received : intAt ((received dest msg behind).s.drop 1) = dest ↔
    (intBytes dest).Pairwise fun b c => b = 0 → c = 0 := by
  have hlen : (intBytes dest).length = 4 := length_lowBytes 4 _
  have hfd : intAt ((received dest msg behind).s.drop 1) = dest ↔
      strncpy (intBytes dest) 4 = intBytes dest := by
    simp only [received_s, List.drop_one, List.tail_cons]
    constructor
    · intro h
      have hbytes := congrArg intBytes h
      rwa [intBytes_intAt (length_strncpy (intBytes dest) 4)] at hbytes
    · intro h
      rw [h, intAt_intBytes]
  rw [hfd, ← hlen]
  exact strncpy_eq_self_iff

/-- The constructor puts the message three bytes before the place where the task reads it. -/
lemma drop_received : (received dest msg behind).s.drop 8 =
    (if 0 ∈ intBytes dest then List.replicate 27 0 else strncpy msg 27).drop 3 := by
  have hlen := length_strncpy (intBytes dest) 4
  rw [received_s, List.drop_succ_cons, List.drop_append,
    List.drop_eq_nil_of_le (by rw [hlen]; decide), hlen, List.nil_append]

lemma prefix_received (hmsg : 0 ∉ msg) :
    msg <+: (received dest msg behind).s.drop 8 ↔ msg = [] := by
  constructor
  · intro h
    rw [drop_received] at h
    split at h
    · refine List.eq_nil_iff_forall_not_mem.2 fun c hc => hmsg ?_
      have hzero : c ∈ List.replicate 27 0 := List.mem_of_mem_drop (h.subset hc)
      rwa [List.eq_of_mem_replicate hzero] at hc
    · exact eq_nil_of_prefix_drop hmsg (by decide) h
  · rintro rfl
    exact List.nil_prefix

/-- The place of a task string that does not exist any more can hold another descriptor. -/
lemma exists_holds_ne (ts : TaskString) (t : Task) (dest : Int32) :
    ∃ mem, ts.Holds false t mem ∧ (t.run mem).fd ≠ dest := by
  by_cases hdest : dest = 0
  · exact ⟨fun _ => 1, nofun, hdest ▸ show intAt [1, 1, 1, 1] ≠ 0 by decide +kernel⟩
  · exact ⟨fun _ => 0, nofun, Ne.symm hdest⟩

/-- The task of the round trip writes the message to its descriptor, whatever memory can hold then,
exactly when the task string still exists, the message is empty, and every byte of the descriptor
behind a zero byte is zero. -/
theorem received_iff (dest : Int32) {msg : List UInt8} (hmsg : 0 ∉ msg) (behind : List UInt8)
    (alive : Bool) (t : Task) :
    (∀ mem, (received dest msg behind).Holds alive t mem →
      (t.run mem).fd = dest ∧ msg <+: (t.run mem).buf) ↔
      alive = true ∧ msg = [] ∧ (intBytes dest).Pairwise fun b c => b = 0 → c = 0 := by
  have hrun {mem : Memory} (hmem : mem.read t.this taskmsgSize = (received dest msg behind).s) :
      ((t.run mem).fd = dest ∧ msg <+: (t.run mem).buf) ↔
        msg = [] ∧ (intBytes dest).Pairwise fun b c => b = 0 → c = 0 := by
    rw [fd_run hmem, buf_run hmem, intAt_received, prefix_received hmsg]
    exact and_comm
  cases alive with
  | false =>
    obtain ⟨mem, hmem, hfd⟩ := exists_holds_ne (received dest msg behind) t dest
    exact iff_of_false (fun h => hfd (h mem hmem).1) (fun h => nomatch h.1)
  | true =>
    have hread := read_inMemory (received dest msg behind) t.this
    exact ⟨fun h => ⟨rfl, (hrun hread).1 (h _ fun _ => hread)⟩,
      fun h mem hmem => (hrun (hmem rfl)).2 h.2⟩

theorem received_three :
    (Task.run ⟨64⟩ ((received 3 [] []).inMemory 64)).fd = 3 ∧
      [] <+: (Task.run ⟨64⟩ ((received 3 [] []).inMemory 64)).buf :=
  (received_iff 3 List.not_mem_nil [] true ⟨64⟩).2 ⟨rfl, rfl, by decide +kernel⟩ _
    fun _ => read_inMemory _ _

/-- The message `"0"` of a client comes out as zeros. -/
theorem received_zero_digit :
    (received 3 [48] []).Holds true ⟨64⟩ ((received 3 [48] []).inMemory 64) ∧
      Task.run ⟨64⟩ ((received 3 [48] []).inMemory 64) = ⟨3, List.replicate 24 0⟩ ∧
      ¬ [48] <+: (Task.run ⟨64⟩ ((received 3 [48] []).inMemory 64)).buf := by
  refine ⟨fun _ => read_inMemory _ _, ?_, ?_⟩ <;> decide +kernel

end TaskString

end TiPI.ThreadPool
