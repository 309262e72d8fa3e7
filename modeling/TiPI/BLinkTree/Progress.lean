import TiPI.BLinkTree.Replies
import TiPI.Lib.Progress

/-!
# Threads that wait

Threads wait for locks only from a node to one to its right or above, so however many there are, one
of them can go on. Every step brings the calls nearer to their ends, the splits of the other threads
included, so all threads make all their calls, whatever the scheduler does.
-/

namespace TiPI.BLinkTree

variable {L : Nat} {T T' : Tree} {M : Key → Option Value} {m m' : Tid → Nat} {skip : Prop}
  {key : Key} {value : Value}

namespace Thread

/-- The lock that the next step takes. -/
def wants (th : Thread L) : Option Offset :=
  match th.job with
  | none => none
  | some (.write _ _ pc) => pc.wants
  | some (.read _ pc) => pc.wants

/-- There are calls to make, or one that has not returned. -/
def Busy (th : Thread L) : Prop := th.job ≠ none ∨ th.todo ≠ []

end Thread

/-- The lock under which a call waits for another one. -/
def WritePc.base : WritePc L → Option Offset
  | .wrLockParent v _ | .wrLockRoot v _ _ _ => some v.lock
  | _ => none

/-- A thread that waits under a lock waits for one of a higher rank. -/
def Thread.rank (T : Tree) (th : Thread L) : Nat :=
  match th.job with
  | some (.write _ _ pc) => pc.base.elim 0 fun o => T.level o + 1
  | _ => 0

namespace System

variable {s s' : System L} {t : Tid} {a : Act}

/-- The next step of the thread neither loses its way nor loses children. -/
def Regular (s : System L) (a : Act) : Prop :=
  ((s.thread a.1).Live ∧ (s.thread a.1).Copies) ∧ (s.thread a.1).HasParent

instance (s : System L) (a : Act) : Decidable (s.Regular a) :=
  inferInstanceAs (Decidable ((_ ∧ _) ∧ _))

lemma Inv.regular_step (h : Inv True s T M m) (hL : 0 < L) (hok : s.Regular a)
    (hstep : s.step a = some s') :
    ∃ T' M' m', Inv True s' T' M' m' ∧ (∀ t, t ≠ a.1 → m' t = m t) ∧
      StepEffect True (s.thread a.1) (s'.thread a.1) T T' M M' (m a.1) (m' a.1) ∧
      Changes s a.1 T T' :=
  h.step_changes hL hstep hok.1.1 hok.1.2 hok.2 (.inl trivial)

/-! ### Who waits for whom -/

/-- What a thread wants that cannot have it, some thread holds. -/
lemma Locked.holder (h : s.Locked) {o : Offset} (ho : ¬s.store.Free o) :
    ∃ t, o ∈ (s.thread t).writeLocks ∨ o ∈ (s.thread t).readLocks := by
  by_cases hw : (s.store.lock o).writer = none
  · obtain ⟨t, ht⟩ := List.exists_mem_of_ne_nil _ fun hr => ho ⟨hw, hr⟩
    exact ⟨t, .inr ((h.reader o t).1 ht)⟩
  · obtain ⟨t, ht⟩ := Option.ne_none_iff_exists'.1 hw
    exact ⟨t, .inl ((h.writer o t).1 ht)⟩

/-- A thread that wants a lock has none but the one under which it waits. -/
lemma held_of_wants {o o' : Offset} (hwants : o' ∈ (s.thread t).wants)
    (ho : o ∈ (s.thread t).writeLocks ∨ o ∈ (s.thread t).readLocks) :
    ∃ key value pc, (s.thread t).job = some (.write key value pc) ∧ pc.base = some o := by
  unfold Thread.wants at hwants
  split at hwants
  · exact absurd hwants (by simp)
  · next key value pc hjob =>
    simp only [Thread.writeLocks, Thread.readLocks, hjob] at ho
    refine ⟨key, value, pc, hjob, ?_⟩
    cases pc with
    | rdLock | wrLockLeaf => simp [WritePc.writeLocks, WritePc.readLocks] at ho
    | wrLockParent v p =>
      obtain rfl : o = v.lock := by simpa [WritePc.writeLocks, WritePc.readLocks] using ho
      rfl
    | wrLockRoot v left right root =>
      obtain rfl : o = v.lock := by simpa [WritePc.writeLocks, WritePc.readLocks] using ho
      rfl
    | _ => exact absurd hwants (by simp [WritePc.wants])
  · next key pc hjob =>
    simp only [Thread.writeLocks, Thread.readLocks, hjob] at ho
    cases pc with
    | rdLock => simp [ReadPc.readLocks] at ho
    | _ => exact absurd hwants (by simp [ReadPc.wants])

lemma Inv.base_mem (h : Inv skip s T M m) {pc : WritePc L} {o : Offset}
    (hjob : (s.thread t).job = some (.write key value pc)) (ho : pc.base = some o) :
    o ∈ T.nodes := by
  have hok := h.okWrite hjob
  cases pc with
  | wrLockParent v p =>
    obtain rfl : v.lock = o := Option.some.inj ho
    exact hok.1.mem
  | wrLockRoot v left right root =>
    obtain rfl : v.lock = o := Option.some.inj ho
    exact hok.1.mem
  | _ => exact absurd ho (by simp [WritePc.base])

/-- The lock that a thread wants is of a node of its rank's level, or of no node of the tree. -/
lemma Inv.rank_le_of_wants (h : Inv skip s T M m) {o : Offset}
    (hwants : o ∈ (s.thread t).wants) (ho : o ∈ T.nodes) :
    (s.thread t).rank T ≤ T.level o := by
  unfold Thread.wants at hwants
  split at hwants
  · exact absurd hwants (by simp)
  · next key value pc hjob =>
    have hok := h.okWrite hjob
    simp only [Thread.rank, hjob]
    cases pc with
    | rdLock | wrLockLeaf => exact Nat.zero_le _
    | wrLockParent v p =>
      obtain rfl : p = o := Option.some.inj hwants
      exact hok.2.level.ge
    | wrLockRoot v left right root =>
      obtain rfl : root = o := Option.some.inj hwants
      have hres : root ∈ (s.thread t).reserved := by
        rw [(owned_eq hjob).1]
        exact .inr rfl
      exact absurd ho (h.reserved t root hres).1
    | _ => exact absurd hwants (by simp [WritePc.wants])
  · next key pc hjob =>
    simp only [Thread.rank, hjob]
    exact Nat.zero_le _

lemma Inv.rank_le_top (h : Inv skip s T M m) (t : Tid) :
    (s.thread t).rank T ≤ T.top + 1 := by
  unfold Thread.rank
  split
  · next key value pc hjob =>
    cases hbase : pc.base with
    | none => exact Nat.zero_le _
    | some o => exact Nat.succ_le_succ (h.valid.level_le o (h.base_mem hjob hbase))
  · exact Nat.zero_le _

/-! ### Threads that do not wait -/

lemma Inv.write_steps (h : Inv skip s T M m) {pc : WritePc L}
    (hjob : (s.thread t).job = some (.write key value pc)) (hret : pc ≠ .ret)
    (hfree : ∀ o ∈ pc.wants, s.store.Free o) (fresh : Memory) :
    ∃ r, pc.step key value t fresh s.store = some r := by
  have hok := h.okWrite hjob
  obtain ⟨-, -, hd⟩ := owned_eq hjob
  have hnode : ∀ o ∈ T.nodes, o ∈ pc.writeLocks ∨ o ∈ pc.readLocks → o ∉ pc.dirty →
      ∃ node, s.store.file.node o = some node := by
    intro o ho hheld hdirty
    rw [← writeLocks_eq hjob, ← readLocks_eq hjob] at hheld
    obtain ⟨node, hnode, -⟩ := h.node_of_held ho hheld (hd ▸ hdirty)
    exact ⟨node, hnode⟩
  refine WritePc.progress hret ?_ hfree ?_ key value t fresh
  · rintro rfl
    exact hok
  · intro o ho
    cases pc with
    | readNode stk o' =>
      obtain rfl : o' = o := Option.some.inj ho
      exact hnode _ hok.mem (.inr (by simp [WritePc.readLocks])) (by simp [WritePc.dirty])
    | readLeaf stk lock o' =>
      obtain rfl : o' = o := Option.some.inj ho
      obtain ⟨rfl, hdesc, -⟩ := hok
      exact hnode _ hdesc.mem (.inl (by simp [WritePc.writeLocks])) (by simp [WritePc.dirty])
    | readParent v p =>
      obtain rfl : p = o := Option.some.inj ho
      exact hnode _ hok.2.mem (.inl (by simp [WritePc.writeLocks])) (by simp [WritePc.dirty])
    | _ => exact absurd ho (by simp [WritePc.reads])

lemma Inv.read_steps (h : Inv skip s T M m) {pc : ReadPc L}
    (hjob : (s.thread t).job = some (.read key pc)) (hret : ∀ res, pc ≠ .ret res)
    (hfree : ∀ o ∈ pc.wants, s.store.Free o) (fresh : Memory) :
    ∃ r, pc.step key t fresh s.store = some r := by
  have hok := h.okRead hjob
  have hd : (s.thread t).dirty = ∅ := by rw [Thread.dirty, hjob]
  refine ReadPc.progress hret hfree ?_ key t fresh
  intro o ho
  cases pc with
  | readNode atLeaf o' =>
    obtain rfl : o' = o := Option.some.inj ho
    have hheld : o' ∈ (s.thread t).readLocks := by simp [Thread.readLocks, hjob, ReadPc.readLocks]
    obtain ⟨node, hnode, -⟩ := h.node_of_held hok.1 (.inr hheld) (by simp [hd])
    exact ⟨node, hnode⟩
  | _ => exact absurd ho (by simp [ReadPc.reads])

/-- A thread with something to do that waits for no lock has a next step. -/
lemma Inv.steps_of_free (h : Inv skip s T M m) (hbusy : (s.thread t).Busy)
    (hfree : ∀ o ∈ (s.thread t).wants, s.store.Free o) (fresh : Memory) :
    ∃ s', s.step (t, fresh) = some s' := by
  have hthread : ∃ r, (s.thread t).step t fresh s.store = some r := by
    unfold Thread.step
    split
    · next hjob =>
      split
      · next htodo => exact absurd htodo (hbusy.resolve_left fun hne => hne hjob)
      · exact ⟨_, rfl⟩
    · exact ⟨_, rfl⟩
    · next key value pc hret hjob =>
      simp only [Thread.wants, hjob] at hfree
      obtain ⟨r, hr⟩ := h.write_steps hjob hret hfree fresh
      exact ⟨_, by rw [hr, Option.map_some]⟩
    · exact ⟨_, rfl⟩
    · next key pc hret hjob =>
      simp only [Thread.wants, hjob] at hfree
      obtain ⟨r, hr⟩ := h.read_steps hjob hret hfree fresh
      exact ⟨_, by rw [hr, Option.map_some]⟩
  obtain ⟨r, hr⟩ := hthread
  exact ⟨_, by rw [System.step, hr, Option.map_some]⟩

lemma busy_of_held {o : Offset}
    (h : o ∈ (s.thread t).writeLocks ∨ o ∈ (s.thread t).readLocks) : (s.thread t).Busy := by
  left
  intro hjob
  simp [Thread.writeLocks, Thread.readLocks, hjob] at h

/-- Not all threads with something to do wait for each other. -/
lemma Inv.some_thread_steps (h : Inv skip s T M m) (hbusy : (s.thread t).Busy) :
    ∃ t', ∀ fresh, ∃ s', s.step (t', fresh) = some s' := by
  by_cases hfree : ∀ o ∈ (s.thread t).wants, s.store.Free o
  · exact ⟨t, h.steps_of_free hbusy hfree⟩
  · refine exists_free_of_rank (fun t => ∃ o ∈ (s.thread t).wants, ¬s.store.Free o)
      (fun t => (s.thread t).rank T) (fun t _ => h.rank_le_top t) ?_ (t := t) (by simpa using hfree)
    rintro t ⟨o, hwants, hnot⟩
    obtain ⟨t', hheld⟩ := h.locked.holder hnot
    refine ⟨t', ?_⟩
    by_cases hfree' : ∀ o ∈ (s.thread t').wants, s.store.Free o
    · exact .inl (h.steps_of_free (busy_of_held hheld) hfree')
    · obtain ⟨o', hwants', hnot'⟩ : ∃ o ∈ (s.thread t').wants, ¬s.store.Free o := by
        simpa using hfree'
      obtain ⟨key, value, pc, hjob, hbase⟩ := held_of_wants hwants' hheld
      -- the holder waits under the lock that `t` waits for
      have hrank : (s.thread t').rank T = T.level o + 1 := by
        simp only [Thread.rank, hjob, hbase, Option.elim_some]
      have hle := h.rank_le_of_wants hwants (h.base_mem hjob hbase)
      exact .inr ⟨⟨o', hwants', hnot'⟩, by omega⟩

end System

/-! ### Nearer to the end -/

namespace WritePc

/-- The phases of a call that began in a tree of height `m`, counted down. A call stays in a phase
only while it moves down, or to the right. -/
def phases (m : Nat) : WritePc L → Nat
  | .rdLock _ _ | .readNode _ _ | .whileNotLeaf _ _ _ | .unLockPrev _ _ _ => 30 + 8 * m
  | .unLockLeaf _ _ _ | .wrLockLeaf _ _ _ | .readLeaf _ _ _ | .unLockLeft _ _ _ => 29 + 8 * m
  | .isSafe _ _ _ => 28 + 8 * m
  | .wrLockParent v _ | .readParent v _ | .unLockParent v _ _ => 26 + 8 * v.stk.length
  | .addNode v _ _ => 25 + 8 * v.stk.length
  | .writeLeft v _ _ _ _ => 24 + 8 * v.stk.length
  | .writeRight v _ _ _ _ => 23 + 8 * v.stk.length
  | .unLockChild _ v => 22 + 8 * v.stk.length
  | .whileUnsafe v => 20 + 8 * v.stk.length
  | .addRootRight _ => 10
  | .writeRootLeft _ _ _ => 9
  | .writeRootRight _ _ _ => 8
  | .addRoot _ _ _ => 7
  | .wrLockRoot _ _ _ _ => 6
  | .setRootOffset _ _ _ _ => 5
  | .writeRoot _ _ _ _ => 4
  | .unLockOldRoot _ _ | .writeLeaf _ _ | .writeParent _ => 3
  | .unLockRoot _ | .unLock _ => 2
  | .ret => 1
  | .getRootOffset | .topOfEmpty => 0

/-- The node at which a phase is, and the steps it makes there. -/
def moving : WritePc L → Option (Offset × Nat)
  | .unLockPrev _ _ o | .unLockLeft _ _ o => some (o, 3)
  | .rdLock _ o | .unLockLeaf _ o _ | .unLockParent _ _ o => some (o, 2)
  | .readNode _ o | .wrLockLeaf _ o _ | .wrLockParent _ o => some (o, 1)
  | .whileNotLeaf _ o _ | .readLeaf _ o _ | .readParent _ o => some (o, 0)
  | _ => none

end WritePc

namespace ReadPc

def begins : ReadPc L → Bool
  | .getRootOffset => true
  | _ => false

def phases : ReadPc L → Nat
  | .rdLock false _ | .readNode false _ | .whileNotLeaf _ _ | .unLockPrev false _ _ => 4
  | .rdLock true _ | .readNode true _ | .whileRight _ _ | .unLockPrev true _ _ => 3
  | .unLock _ _ => 2
  | .ret _ => 1
  | .getRootOffset => 0

def moving : ReadPc L → Option (Offset × Nat)
  | .unLockPrev _ _ o => some (o, 3)
  | .rdLock _ o => some (o, 2)
  | .readNode _ o => some (o, 1)
  | .whileNotLeaf o _ | .whileRight o _ => some (o, 0)
  | _ => none

end ReadPc

/-- The steps ahead that do not leave a phase, at most. -/
noncomputable def distance (T : Tree) (p : Option (Offset × Nat)) : Nat :=
  p.elim 0 fun p => 4 * T.ahead p.1 + p.2

namespace Thread

/-- The calls that have not begun; one that has yet to read the root offset counts half. -/
def unbegun (th : Thread L) : Nat :=
  2 * th.todo.length + match th.job with
    | none => 0
    | some (.write _ _ pc) => pc.begins.toNat
    | some (.read _ pc) => pc.begins.toNat

def phases (m : Nat) (th : Thread L) : Nat :=
  match th.job with
  | none => 0
  | some (.write _ _ pc) => pc.phases m
  | some (.read _ pc) => pc.phases

def moving (th : Thread L) : Option (Offset × Nat) :=
  match th.job with
  | none => none
  | some (.write _ _ pc) => pc.moving
  | some (.read _ pc) => pc.moving

end Thread

/-- A phase goes on at the same node, or at one further down or to the right. -/
def Nearer (T : Tree) (p p' : Option (Offset × Nat)) : Prop :=
  ∃ o i o' i', p = some (o, i) ∧ p' = some (o', i') ∧
    (o' = o ∧ i' < i ∨ o' ∈ T.nodes ∧ T.Before o o' ∧ i' < 4)

lemma Nearer.distance_lt {p p' : Option (Offset × Nat)} (hfin : T.nodes.Finite)
    (h : Nearer T p p') : distance T p' < distance T p := by
  obtain ⟨o, i, o', i', rfl, rfl, ⟨rfl, hlt⟩ | ⟨hmem, hbefore, hlt⟩⟩ := h
  · exact Nat.add_lt_add_left hlt _
  · have hahead := BLink.ahead_lt hfin hmem hbefore
    simp only [distance, Option.elim_some]
    omega

section Begins

variable {t : Tid} {fresh : Memory} {s s' : Store L}

lemma WriteCase.not_begins {pc pc' : WritePc L} (h : WriteCase key value t fresh s pc s' pc')
    (hno : ¬pc.Strays key) : pc'.begins = false := by
  cases h with
  | noChild stk lock current inner child => exact absurd ⟨inner, child⟩ hno
  | _ => rfl

lemma ReadCase.not_begins {pc pc' : ReadPc L} (h : ReadCase key t fresh s pc s' pc')
    (hno : ¬pc.Strays key) : pc'.begins = false := by
  cases h with
  | noChild lock current inner child => exact absurd ⟨inner, child⟩ hno
  | _ => rfl

end Begins

namespace System

variable {s s' : System L} {t : Tid} {a : Act} {fresh : Memory} {store : Store L}

/-- A step of `write` leaves its phase, or it moves on without having a new node. -/
lemma Inv.write_nearer (h : Inv skip s T M m) {pc pc' : WritePc L}
    (hjob : (s.thread t).job = some (.write key value pc))
    (hcase : WriteCase key value t fresh s.store pc store pc') (hlive : pc.Live key)
    (hno : ¬pc.Strays key) (hbegins : pc.begins = false) :
    pc'.phases (m t) < pc.phases (m t) ∨ pc'.phases (m t) = pc.phases (m t) ∧
      pc.reserved = ∅ ∧ Nearer T pc.moving pc'.moving := by
  have hok := h.okWrite hjob
  obtain ⟨-, -, hd⟩ := owned_eq hjob
  cases hcase with
  | noChild stk lock current inner child => exact absurd ⟨inner, child⟩ hno
  | topOfEmpty v full root empty => exact absurd ⟨full, root, empty⟩ hno
  | getRootOffset => exact Bool.noConfusion hbegins
  | rdLock stk o | readNode stk o | unLockPrev stk prev o | unLockLeaf stk o
  | wrLockLeaf stk o | unLockLeft stk prev o | wrLockParent v o | unLockParent v p o =>
    exact .inr ⟨rfl, rfl, o, _, o, _, rfl, rfl, .inl ⟨rfl, by decide⟩⟩
  | toChild stk lock current inner child =>
    obtain ⟨hdesc, hnode⟩ := hok
    obtain ⟨hkid, -, -⟩ := h.child hdesc.mem hdesc.low hnode inner (hlive current rfl inner)
    have hlevel := h.valid.kid_level lock hdesc.mem _ hkid
    exact .inr ⟨rfl, rfl, lock, _, _, _, rfl, rfl, .inr ⟨h.valid.kid_mem lock hdesc.mem _ hkid,
      .inl (by omega), by decide⟩⟩
  | leafToRight stk lock o current read right high =>
    obtain ⟨rfl, hdesc, h0⟩ := hok
    have hnode := h.readNode hdesc.mem
      (.inl (by simp [writeLocks_eq hjob, WritePc.writeLocks])) hd read
    have hnext := hnode.next_eq right
    exact .inr ⟨rfl, rfl, o, _, _, _, rfl, rfl, .inr ⟨h.valid.next_mem o hdesc.mem _ hnext,
      .inr ⟨h.valid.next_level o hdesc.mem _ hnext, h.valid.next_low o hdesc.mem _ hnext⟩,
      by decide⟩⟩
  | parentToRight v p parent read right high =>
    obtain ⟨-, habove⟩ := hok
    have hnode := h.readNode habove.mem
      (.inl (by simp [writeLocks_eq hjob, WritePc.writeLocks])) hd read
    have hnext := hnode.next_eq right
    exact .inr ⟨rfl, rfl, p, _, _, _, rfl, rfl, .inr ⟨h.valid.next_mem p habove.mem _ hnext,
      .inr ⟨h.valid.next_level p habove.mem _ hnext, h.valid.next_low p habove.mem _ hnext⟩,
      by decide⟩⟩
  | unsafeLeaf stk lock current full =>
    obtain ⟨hdesc, h0, -⟩ := hok
    have hlen := hdesc.stack.length
    refine .inl (?_ : 20 + 8 * stk.length < 28 + 8 * m t)
    omega
  | popParent v full root p stk top =>
    refine .inl (?_ : 26 + 8 * stk.length < 20 + 8 * v.stk.length)
    rw [top, List.length_cons]
    omega
  | _ =>
    left
    simp only [WritePc.phases, SplitVars.next]
    omega

lemma Inv.read_nearer (h : Inv skip s T M m) {pc pc' : ReadPc L}
    (hjob : (s.thread t).job = some (.read key pc))
    (hcase : ReadCase key t fresh s.store pc store pc') (hlive : pc.Live key)
    (hno : ¬pc.Strays key) (hbegins : pc.begins = false) :
    pc'.phases < pc.phases ∨ pc'.phases = pc.phases ∧ Nearer T pc.moving pc'.moving := by
  have hok := h.okRead hjob
  cases hcase with
  | noChild lock current inner child => exact absurd ⟨inner, child⟩ hno
  | getRootOffset => exact Bool.noConfusion hbegins
  | rdLock atLeaf o | unLockPrev atLeaf prev o =>
    refine .inr ⟨?_, o, _, o, _, rfl, rfl, .inl ⟨rfl, by decide⟩⟩
    cases atLeaf <;> rfl
  | readNode o | readLeaf o =>
    exact .inr ⟨rfl, o, _, o, _, rfl, rfl, .inl ⟨rfl, by decide⟩⟩
  | atLeaf | whileRight | unLock =>
    left
    simp [ReadPc.phases]
  | toChild lock current inner child =>
    obtain ⟨hmem, hlow, hnode⟩ := hok
    obtain ⟨hkid, -, -⟩ := h.child hmem hlow hnode inner (hlive current rfl inner)
    have hlevel := h.valid.kid_level lock hmem _ hkid
    exact .inr ⟨rfl, lock, _, _, _, rfl, rfl, .inr ⟨h.valid.kid_mem lock hmem _ hkid,
      .inl (by omega), by decide⟩⟩
  | toRight lock current right high =>
    obtain ⟨hmem, hlow, h0, hnode⟩ := hok
    have hnext := hnode.next_eq right
    exact .inr ⟨rfl, lock, _, _, _, rfl, rfl, .inr ⟨h.valid.next_mem lock hmem _ hnext,
      .inr ⟨h.valid.next_level lock hmem _ hnext, h.valid.next_low lock hmem _ hnext⟩,
      by decide⟩⟩

/-- A step of a thread begins a call, or leaves a phase of one, or moves on in it. -/
lemma Inv.thread_nearer (h : Inv skip s T M m) {th : Thread L}
    (hcase : ThreadCase t fresh s.store (s.thread t) store th) (hlive : (s.thread t).Live)
    (hno : ¬(s.thread t).Strays) {k : Nat} (hk : k = if (s.thread t).begins then T.top else m t) :
    th.unbegun < (s.thread t).unbegun ∨ th.unbegun = (s.thread t).unbegun ∧
      (th.phases k < (s.thread t).phases (m t) ∨ th.phases k = (s.thread t).phases (m t) ∧
        (s.thread t).reserved = ∅ ∧ Nearer T (s.thread t).moving th.moving) := by
  cases hcase with
  | call op todo idle next =>
    left
    cases op <;> simp [Thread.unbegun, idle, next, Op.call, WritePc.begins, ReadPc.begins] <;> omega
  | writeRet key value job =>
    exact .inr ⟨by simp [Thread.unbegun, job, WritePc.begins],
      .inl (by simp [Thread.phases, job, WritePc.phases])⟩
  | readRet key res job =>
    exact .inr ⟨by simp [Thread.unbegun, job, ReadPc.begins],
      .inl (by simp [Thread.phases, job, ReadPc.phases])⟩
  | write key value pc pc' _ job step =>
    have hpc : ¬pc.Strays key := by simpa [Thread.Strays, job] using hno
    have hafter := step.not_begins hpc
    rw [Thread.begins, job] at hk
    cases hbegins : pc.begins with
    | true => exact .inl (by simp [Thread.unbegun, job, hbegins, hafter])
    | false =>
      obtain rfl : k = m t := by simpa [hbegins] using hk
      have hnear := h.write_nearer job step (live_write job hlive) hpc hbegins
      exact .inr ⟨by simp [Thread.unbegun, job, hbegins, hafter],
        by simpa [Thread.phases, Thread.moving, Thread.reserved, job] using hnear⟩
  | read key pc pc' _ job step =>
    have hpc : ¬pc.Strays key := by simpa [Thread.Strays, job] using hno
    have hafter := step.not_begins hpc
    cases hbegins : pc.begins with
    | true => exact .inl (by simp [Thread.unbegun, job, hbegins, hafter])
    | false =>
      have hnear := h.read_nearer job step (live_read job hlive) hpc hbegins
      exact .inr ⟨by simp [Thread.unbegun, job, hbegins, hafter],
        by simpa [Thread.phases, Thread.moving, Thread.reserved, job] using hnear⟩

lemma Inv.moving_mem (h : Inv skip s T M m) (t : Tid) :
    ∀ p ∈ (s.thread t).moving, p.1 ∈ T.nodes := by
  intro p hp
  unfold Thread.moving at hp
  split at hp
  · exact absurd hp (by simp)
  · next key value pc hjob =>
    have hok := h.okWrite hjob
    cases pc with
    | unLockPrev | rdLock | readNode =>
      obtain rfl := Option.some.inj hp
      exact hok.mem
    | whileNotLeaf | unLockLeft =>
      obtain rfl := Option.some.inj hp
      exact hok.1.mem
    | unLockLeaf | wrLockLeaf | readLeaf =>
      obtain rfl := Option.some.inj hp
      exact hok.2.1.mem
    | unLockParent | wrLockParent | readParent =>
      obtain rfl := Option.some.inj hp
      exact hok.2.mem
    | _ => exact absurd hp (by simp [WritePc.moving])
  · next key pc hjob =>
    have hok := h.okRead hjob
    cases pc with
    | unLockPrev | rdLock | readNode | whileNotLeaf | whileRight =>
      obtain rfl := Option.some.inj hp
      exact hok.1
    | _ => exact absurd hp (by simp [ReadPc.moving])

/-- What the first `n` threads have ahead. -/
noncomputable def ahead (n : Nat) (s : System L) (T : Tree) (m : Tid → Nat) :
    Nat ×ₗ Nat ×ₗ Nat :=
  sums (Finset.range n) (fun t => (s.thread t).unbegun) (fun t => (s.thread t).phases (m t))
    fun t => distance T (s.thread t).moving

lemma distance_eq (hgrows : T.Grows T') (hold : ∀ o ∈ T'.nodes, o ∈ T.nodes)
    {p : Option (Offset × Nat)} (hp : ∀ q ∈ p, q.1 ∈ T.nodes) : distance T' p = distance T p := by
  cases p with
  | none => rfl
  | some q => simp only [distance, Option.elim_some, hgrows.ahead_eq hold (hp q rfl)]

lemma Inv.ahead_lt (h : Inv skip s T M m) {n : Nat} (hn : a.1 < n) {M' : Key → Option Value}
    (h' : Inv skip s' T' M' m') (hstep : s.step a = some s') (hlive : (s.thread a.1).Live)
    (hparent : (s.thread a.1).HasParent) (hm : ∀ t, t ≠ a.1 → m' t = m t)
    (hdepth : m' a.1 = if (s.thread a.1).begins then T.top else m a.1)
    (hchanges : Changes s a.1 T T') : s'.ahead n T' m' < s.ahead n T m := by
  have hother : ∀ t, t ≠ a.1 → s'.thread t = s.thread t := fun t ht => step_thread hstep ht
  obtain ⟨store, th, hcase, hself⟩ : ∃ store th,
      ThreadCase a.1 a.2 s.store (s.thread a.1) store th ∧ s'.thread a.1 = th := by
    obtain ⟨store, th, hcase, rfl⟩ := step_cases hstep
    exact ⟨store, th, hcase, Function.update_self ..⟩
  have hno := h.not_strays hcase hlive hparent
  have hnear := h.thread_nearer hcase hlive hno hdepth
  refine sums_lt (Finset.mem_range.2 hn) (fun t _ ht => by rw [hother t ht])
    (fun t _ ht => by rw [hother t ht, hm t ht]) ?_
  rw [hself]
  refine hnear.imp_right fun ⟨hunbegun, hphases⟩ => ⟨hunbegun, ?_⟩
  refine hphases.imp_right fun ⟨hphases, hres, hnear⟩ => ⟨hphases, ?_⟩
  -- the step has brought no new node into the tree, so the distances are the same in both
  have hold : ∀ o ∈ T'.nodes, o ∈ T.nodes := by
    intro o ho
    rcases hchanges.new o ho with ho | ho
    · exact ho
    · rw [hres] at ho
      exact ho.elim
  have hdist : ∀ t, distance T' (s'.thread t).moving = distance T (s'.thread t).moving :=
    fun t => distance_eq hchanges.toGrows hold fun q hq => hold _ (h'.moving_mem t q hq)
  constructor
  · rw [← hself, hdist, hself]
    exact hnear.distance_lt h.valid.finite
  · intro t _ ht
    rw [hdist, hother t ht]

/-! ### Whole runs -/

/-- No thread from the `n`th on has anything to do. -/
def Within (n : Nat) (s : System L) : Prop := ∀ t, n ≤ t → ¬(s.thread t).Busy

lemma busy_of_step (hstep : s.step a = some s') : (s.thread a.1).Busy := by
  obtain ⟨store, th, hcase, -⟩ := step_cases hstep
  cases hcase with
  | call op todo idle next => exact .inr (by simp [next])
  | writeRet _ _ job | readRet _ _ job => exact .inl (by simp [job])
  | write _ _ _ _ _ job | read _ _ _ _ job => exact .inl (by simp [job])

lemma Within.step {n : Nat} (h : Within n s) (hstep : s.step a = some s') : Within n s' := by
  intro t ht
  have hne : t ≠ a.1 := by
    rintro rfl
    exact h _ ht (busy_of_step hstep)
  rw [step_thread hstep hne]
  exact h t ht

lemma within_init {program : Tid → List Op} {n : Nat} (hn : ∀ t, n ≤ t → program t = []) :
    Within n (init L program) := by
  intro t ht
  simp [Thread.Busy, init, hn t ht]

/-- The supply takes a step as long as there is one, and its steps are regular. -/
structure Scheduled (L : Nat) (program : Tid → List Op) (acts : Nat → Act) : Prop where
  regular : ∀ i s, trace System.step (init L program) acts i = some s → s.Regular (acts i)
  goes : ∀ i s, trace System.step (init L program) acts i = some s →
    (∃ a s', s.step a = some s') → ∃ s', s.step (acts i) = some s'

lemma exists_inv_step (hL : 0 < L) (h : ∃ T M m, Inv True s T M m) (hok : s.Regular a)
    (hstep : s.step a = some s') : ∃ T M m, Inv True s' T M m := by
  obtain ⟨T, M, m, hs⟩ := h
  obtain ⟨T', M', m', hs', -⟩ := hs.regular_step hL hok hstep
  exact ⟨T', M', m', hs'⟩

/-- However many threads call `write` and `read`: as long as not all calls have returned, some
thread has a next step. -/
theorem no_deadlock (hL : 0 < L) {program : Tid → List Op}
    (hrun : Run System.step Regular (init L program) s) (hbusy : (s.thread t).Busy) :
    ∃ t', ∀ fresh, ∃ s', s.step (t', fresh) = some s' := by
  obtain ⟨T, M, m, h⟩ : ∃ T M m, Inv True s T M m :=
    Run.invariant (P := fun s => ∃ T M m, Inv True s T M m) hrun
      ⟨_, _, _, inv_init L program True⟩ fun _ _ _ hs hok hstep => exists_inv_step hL hs hok hstep
  exact h.some_thread_steps hbusy

/-- Thread `1` reads the root, thread `0` waits for its write lock. -/
def waitingRun : List Act :=
  List.replicate 4 (1, Watch.zeroed) ++ List.replicate 6 (0, Watch.zeroed)

theorem no_deadlock_waiting : ∃ s : System 2,
    Run System.step Regular (init 2 Watch.twoWriters) s ∧
      (s.step (0, Watch.zeroed)).isNone = true ∧
      ∃ t', ∀ fresh, ∃ s', s.step (t', fresh) = some s' := by
  obtain ⟨s, hrun, hwaits, hjob⟩ : ∃ s : System 2,
      Run System.step Regular (init 2 Watch.twoWriters) s ∧
        ((s.step (0, Watch.zeroed)).isNone = true ∧ (s.thread 0).job.isSome = true) :=
    exists_of_exec waitingRun (by decide +kernel)
  exact ⟨s, hrun, hwaits, no_deadlock Nat.two_pos hrun (t := 0)
    (.inl (Option.isSome_iff_ne_none.1 hjob))⟩

/-- What a run keeps: the invariant, the calls of every thread, and that threads without calls do
nothing. -/
structure Ongoing (program : Tid → List Op) (n : Nat) (s : System L) : Prop where
  inv : ∃ T M m, Inv True s T M m
  within : Within n s
  calls : ∀ t, (s.thread t).calls = program t

lemma Ongoing.step (hL : 0 < L) {program : Tid → List Op} {n : Nat} (h : Ongoing program n s)
    (hok : s.Regular a) (hstep : s.step a = some s') : Ongoing program n s' where
  inv := exists_inv_step hL h.inv hok hstep
  within := h.within.step hstep
  calls t := by
    obtain ⟨store, th, hcase, rfl⟩ := step_cases hstep
    by_cases ht : t = a.1
    · subst ht
      simp only [Function.update_self]
      rw [hcase.calls_eq, h.calls]
    · simp only [Function.update_of_ne ht]
      exact h.calls t

lemma ongoing_init {program : Tid → List Op} {n : Nat} (hn : ∀ t, n ≤ t → program t = []) :
    Ongoing program n (init L program) where
  inv := ⟨_, _, _, inv_init L program True⟩
  within := within_init hn
  calls _ := rfl

/-- Every supply of regular steps comes to a step that is not there. -/
lemma regular_ends (hL : 0 < L) {program : Tid → List Op} {n : Nat}
    (hn : ∀ t, n ≤ t → program t = []) {acts : Nat → Act}
    (hok : ∀ i s, trace System.step (init L program) acts i = some s → s.Regular (acts i)) :
    ∃ i s, trace System.step (init L program) acts i = some s ∧ s.step (acts i) = none := by
  refine trace_ends (P := fun b s => Within n s ∧ ∃ T M m, Inv True s T M m ∧ s.ahead n T m = b)
    (r := (· < ·)) wellFounded_lt hok ?_
    ⟨within_init hn, _, _, _, inv_init L program True, rfl⟩
  rintro b s a s' ⟨hwithin, T, M, m, hs, rfl⟩ hregular hstep
  obtain ⟨T', M', m', hs', hm, heffect, hchanges⟩ := hs.regular_step hL hregular hstep
  have hlt : a.1 < n := by
    by_contra hle
    exact hwithin a.1 (not_lt.1 hle) (busy_of_step hstep)
  exact ⟨_, ⟨hwithin.step hstep, T', M', m', hs', rfl⟩,
    hs.ahead_lt hlt hs' hstep hregular.1.1 hregular.2 hm heffect.depth hchanges⟩

/-- However many threads call `write` and `read`, and whatever the scheduler does, the run comes to
a state in which every thread has made its calls, each of them once and in their order. -/
theorem all_calls_return (hL : 0 < L) {program : Tid → List Op} {n : Nat}
    (hn : ∀ t, n ≤ t → program t = []) {acts : Nat → Act} (hacts : Scheduled L program acts) :
    ∃ i s, trace System.step (init L program) acts i = some s ∧
      ∀ t, (s.thread t).job = none ∧ (s.thread t).todo = [] ∧
        (s.thread t).done.map Prod.fst = program t := by
  obtain ⟨i, s, hs, hstuck⟩ := regular_ends hL hn hacts.regular
  have hongoing : Ongoing program n s :=
    trace_invariant (ongoing_init hn) hacts.regular (fun _ _ _ hr hok hstep => hr.step hL hok hstep)
      hs
  have hidle : ∀ t, ¬(s.thread t).Busy := by
    intro t hbusy
    obtain ⟨T, M, m, hinv⟩ := hongoing.inv
    obtain ⟨t', hsteps⟩ := hinv.some_thread_steps hbusy
    obtain ⟨s', hs'⟩ := hacts.goes i s hs ⟨_, hsteps (acts i).2⟩
    exact absurd (hstuck.symm.trans hs') (by simp)
  refine ⟨i, s, hs, fun t => ?_⟩
  obtain ⟨hjob, htodo⟩ : (s.thread t).job = none ∧ (s.thread t).todo = [] := by
    simpa [Thread.Busy] using hidle t
  have hcalls := hongoing.calls t
  rw [Thread.calls, Thread.current, hjob, htodo] at hcalls
  exact ⟨hjob, htodo, by simpa using hcalls⟩

/-- The threads below `n` have returned from all their calls. -/
def returnedBelow (n : Nat) (s : System L) : Bool :=
  (List.range n).all fun t => (s.thread t).todo.isEmpty && (s.thread t).job.isNone

lemma regular_of_idle (s : System L) (a : Act) (h : (s.thread a.1).job = none) : s.Regular a := by
  simp [Regular, Thread.Live, Thread.Copies, Thread.HasParent, Thread.descent, Thread.splitting,
    Thread.climbing, h]

/-- A list of actions that is executed to its end, as the beginning of a supply. -/
lemma scheduled_of_exec {program : Tid → List Op} {n : Nat} (hn : ∀ t, n ≤ t → program t = [])
    (as : List Act)
    (h : (exec System.step Regular (init L program) as).any (returnedBelow n) = true) :
    Scheduled L program fun i => as.getD i (0, Watch.zeroed) := by
  obtain ⟨r, hr, hreturned⟩ := (Option.any_eq_true _ _).1 h
  have hrun := Steps.of_exec hr
  obtain ⟨htrace, hguard⟩ := hrun.trace_eq (f := fun i => as.getD i (0, Watch.zeroed))
    fun i a hi => by simp [hi]
  have hwithin : Within n r :=
    hrun.invariant (P := fun _ => Within n) (within_init hn) fun _ _ _ _ hs _ hstep => hs.step hstep
  have hidle : ∀ t, ¬(r.thread t).Busy := by
    intro t
    by_cases ht : t < n
    · simpa [Thread.Busy, and_comm] using List.all_eq_true.1 hreturned t (List.mem_range.2 ht)
    · exact hwithin t (not_lt.1 ht)
  have hstuck : ∀ a, System.step r a = none := by
    intro a
    refine Option.eq_none_iff_forall_ne_some.2 fun s' hs' => ?_
    exact hidle a.1 (busy_of_step hs')
  have hlast : ∀ i s, as.length ≤ i →
      trace System.step (init L program) (fun i => as.getD i (0, Watch.zeroed)) i = some s →
      s = r := by
    intro i s hle hs
    rcases hle.eq_or_lt with rfl | hlt
    · exact Option.some.inj (hs.symm.trans htrace)
    · exact absurd (hs.symm.trans (trace_of_stuck htrace (hstuck _) hlt)) (by simp)
  constructor
  · intro i s hs
    by_cases hi : i < as.length
    · exact hguard i s hi hs
    · obtain rfl := hlast i s (not_lt.1 hi) hs
      exact regular_of_idle _ _ (by simpa [Thread.Busy] using fun hb => (hidle _ (.inl hb)))
  · rintro i s hs ⟨a, s', hs'⟩
    by_cases hi : i < as.length
    · by_contra hnone
      have hnone : System.step s (as.getD i (0, Watch.zeroed)) = none := by
        simpa [Option.eq_none_iff_forall_ne_some] using hnone
      exact absurd ((trace_of_stuck hs hnone hi).symm.trans htrace) (by simp)
    · obtain rfl := hlast i s (not_lt.1 hi) hs
      exact absurd ((hstuck a).symm.trans hs') (by simp)

theorem two_writers_return : ∃ i, ∃ s : System 2,
    trace System.step (init 2 Watch.twoWriters)
      (fun i => Watch.twoWritersRun.getD i (0, Watch.zeroed)) i = some s ∧
      ∀ t, (s.thread t).job = none ∧ (s.thread t).todo = [] ∧
        (s.thread t).done.map Prod.fst = Watch.twoWriters t := by
  have hn : ∀ t, 2 ≤ t → Watch.twoWriters t = [] := by
    intro t ht
    obtain ⟨k, rfl⟩ := Nat.exists_eq_add_of_le' ht
    rfl
  exact all_calls_return Nat.two_pos hn
    (scheduled_of_exec hn Watch.twoWritersRun (by decide +kernel))

end System

end TiPI.BLinkTree
