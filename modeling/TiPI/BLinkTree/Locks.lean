import TiPI.BLinkTree.Steps
import Mathlib.Data.List.Perm.Basic

/-!
# Who holds which lock

Where a thread is in its call says which locks it holds. The state of every lock agrees with that,
so a write lock excludes all other threads.
-/

namespace TiPI.BLinkTree

variable {L : Nat}

namespace WritePc

def readLocks : WritePc L → List Offset
  | .readNode _ lock | .whileNotLeaf _ lock _ | .unLockPrev _ lock _ | .unLockLeaf _ lock _ =>
    [lock]
  | _ => []

def writeLocks : WritePc L → List Offset
  | .readLeaf _ lock _ | .unLockLeft _ lock _ | .isSafe _ lock _ | .writeLeaf lock _
  | .unLock lock | .unLockRoot lock => [lock]
  | .whileUnsafe v | .wrLockParent v _ | .writeParent v | .addRootRight v | .writeRootLeft v _ _
  | .writeRootRight v _ _ | .addRoot v _ _ | .wrLockRoot v _ _ _ => [v.lock]
  | .readParent v parentOffset | .unLockParent v parentOffset _ | .addNode v parentOffset _
  | .writeLeft v parentOffset _ _ _ | .writeRight v parentOffset _ _ _ => [parentOffset, v.lock]
  | .unLockChild prev v => [v.lock, prev]
  | .setRootOffset v _ _ rootOffset | .writeRoot v _ _ rootOffset => [rootOffset, v.lock]
  | .unLockOldRoot lock rootOffset => [rootOffset, lock]
  | _ => []

/-- The call is at an internal node whose child for the key is no node, or is to take a parent from
the empty stack. -/
def Strays (key : Key) : WritePc L → Prop
  | .whileNotLeaf _ _ current =>
    current.btnodeFlag LEAF_NODE = false ∧ current.btnodeChildByKey key = INVALID_OFFSET
  | .whileUnsafe v =>
    v.current.keyBuffSize = 2 * L ∧ v.current.btnodeFlag ROOT_NODE = false ∧ v.stk = []
  | _ => False

end WritePc

namespace ReadPc

def readLocks : ReadPc L → List Offset
  | .readNode _ lock | .whileNotLeaf lock _ | .whileRight lock _ | .unLockPrev _ lock _
  | .unLock lock _ => [lock]
  | _ => []

def Strays (key : Key) : ReadPc L → Prop
  | .whileNotLeaf _ current =>
    current.btnodeFlag LEAF_NODE = false ∧ current.btnodeChildByKey key = INVALID_OFFSET
  | _ => False

end ReadPc

namespace Thread

def readLocks (th : Thread L) : List Offset :=
  match th.job with
  | none => []
  | some (.write _ _ pc) => pc.readLocks
  | some (.read _ pc) => pc.readLocks

def writeLocks (th : Thread L) : List Offset :=
  match th.job with
  | some (.write _ _ pc) => pc.writeLocks
  | _ => []

def Strays (th : Thread L) : Prop :=
  match th.job with
  | none => False
  | some (.write key _ pc) => pc.Strays key
  | some (.read key pc) => pc.Strays key

end Thread

/-- What a step of a thread does to the locks, and to the locks it holds before and after. -/
inductive LockStep (t : Tid) (s s' : Store L) (r w r' w' : List Offset) : Prop
  | keep (lock : s'.lock = s.lock) (reads : r' = r) (writes : w' = w)
  | rdLock (o : Offset) (free : (s.lock o).writer = none)
      (lock : s'.lock = Function.update s.lock o
        { s.lock o with readers := t :: (s.lock o).readers })
      (before : r = []) (reads : r' = [o]) (writes : w' = w)
  | wrLock (o : Offset) (free : (s.lock o).writer = none) (alone : (s.lock o).readers = [])
      (lock : s'.lock = Function.update s.lock o { s.lock o with writer := some t })
      (reads : r' = r) (writes : w' = o :: w)
  | unRead (o : Offset) (lock : s'.lock = (s.unLock t o).lock) (before : r = [o])
      (reads : r' = []) (none : w = []) (writes : w' = [])
  | unWrite (o : Offset) (lock : s'.lock = (s.unLock t o).lock) (reads : r' = r)
      (writes : w.Perm (o :: w'))

lemma rdLock_eq {s s' : Store L} {t : Tid} {o : Offset} (h : s.rdLock t o = some s') :
    (s.lock o).writer = none ∧ s'.file = s.file ∧ s'.lock = Function.update s.lock o
      { s.lock o with readers := t :: (s.lock o).readers } := by
  simp only [Store.rdLock] at h
  split_ifs at h with hfree
  obtain rfl := Option.some.inj h
  exact ⟨hfree, rfl, rfl⟩

lemma wrLock_eq {s s' : Store L} {t : Tid} {o : Offset} (h : s.wrLock t o = some s') :
    (s.lock o).writer = none ∧ (s.lock o).readers = [] ∧ s'.file = s.file ∧
      s'.lock = Function.update s.lock o { s.lock o with writer := some t } := by
  simp only [Store.wrLock] at h
  split_ifs at h with hfree
  obtain rfl := Option.some.inj h
  exact ⟨hfree.1, hfree.2, rfl, rfl⟩

variable {key : Key} {value : Value} {t : Tid} {fresh : Memory} {s s' : Store L}

lemma WriteCase.lockStep {pc pc' : WritePc L} (h : WriteCase key value t fresh s pc s' pc')
    (hno : ¬pc.Strays key) :
    LockStep t s s' pc.readLocks pc.writeLocks pc'.readLocks pc'.writeLocks := by
  cases h with
  | noChild stk lock current inner child => exact absurd ⟨inner, child⟩ hno
  | topOfEmpty v full root empty => exact absurd ⟨full, root, empty⟩ hno
  | rdLock stk offset _ free =>
    obtain ⟨hfree, -, hlock⟩ := rdLock_eq free
    exact .rdLock offset hfree hlock rfl rfl rfl
  | wrLockLeaf _ lock _ _ free =>
    obtain ⟨hfree, halone, -, hlock⟩ := wrLock_eq free
    exact .wrLock lock hfree halone hlock rfl rfl
  | wrLockParent _ parentOffset _ free =>
    obtain ⟨hfree, halone, -, hlock⟩ := wrLock_eq free
    exact .wrLock parentOffset hfree halone hlock rfl rfl
  | wrLockRoot _ _ _ rootOffset _ free =>
    obtain ⟨hfree, halone, -, hlock⟩ := wrLock_eq free
    exact .wrLock rootOffset hfree halone hlock rfl rfl
  | unLockPrev _ prev _ => exact .unRead prev rfl rfl rfl rfl rfl
  | unLockLeaf _ lock _ => exact .unRead lock rfl rfl rfl rfl rfl
  | unLockLeft _ prev _ => exact .unWrite prev rfl rfl (.refl _)
  | unLock lock => exact .unWrite lock rfl rfl (.refl _)
  | unLockParent _ parentOffset _ => exact .unWrite parentOffset rfl rfl (.refl _)
  | unLockChild prev v => exact .unWrite prev rfl rfl (.swap ..)
  | unLockOldRoot lock rootOffset => exact .unWrite lock rfl rfl (.swap ..)
  | unLockRoot rootOffset => exact .unWrite rootOffset rfl rfl (.refl _)
  | _ => exact .keep rfl rfl rfl

lemma ReadCase.lockStep {pc pc' : ReadPc L} (h : ReadCase key t fresh s pc s' pc')
    (hno : ¬pc.Strays key) : LockStep t s s' pc.readLocks [] pc'.readLocks [] := by
  cases h with
  | noChild lock current inner child => exact absurd ⟨inner, child⟩ hno
  | rdLock atLeaf offset _ free =>
    obtain ⟨hfree, -, hlock⟩ := rdLock_eq free
    exact .rdLock offset hfree hlock rfl rfl rfl
  | unLockPrev _ prev _ => exact .unRead prev rfl rfl rfl rfl rfl
  | unLock lock _ => exact .unRead lock rfl rfl rfl rfl rfl
  | _ => exact .keep rfl rfl rfl

lemma ThreadCase.lockStep {th th' : Thread L} (h : ThreadCase t fresh s th s' th')
    (hno : ¬th.Strays) :
    LockStep t s s' th.readLocks th.writeLocks th'.readLocks th'.writeLocks := by
  cases h with
  | call op todo idle next =>
    cases op <;> exact .keep rfl (by simp [Thread.readLocks, idle, Op.call]; rfl)
      (by simp [Thread.writeLocks, idle, Op.call]; try rfl)
  | writeRet key value job =>
    exact .keep rfl (by simp [Thread.readLocks, job]; rfl) (by simp [Thread.writeLocks, job]; rfl)
  | readRet key res job =>
    exact .keep rfl (by simp [Thread.readLocks, job]; rfl) (by simp [Thread.writeLocks, job])
  | write key value pc pc' _ job step =>
    have hpc : ¬pc.Strays key := by simpa [Thread.Strays, job] using hno
    simpa [Thread.readLocks, Thread.writeLocks, job] using step.lockStep hpc
  | read key pc pc' _ job step =>
    have hpc : ¬pc.Strays key := by simpa [Thread.Strays, job] using hno
    simpa [Thread.readLocks, Thread.writeLocks, job] using step.lockStep hpc

namespace System

/-- The locks are as the threads' places say. -/
structure Locked (s : System L) : Prop where
  writer : ∀ o t, (s.store.lock o).writer = some t ↔ o ∈ (s.thread t).writeLocks
  reader : ∀ o t, t ∈ (s.store.lock o).readers ↔ o ∈ (s.thread t).readLocks
  alone : ∀ o t, (s.store.lock o).writer = some t → (s.store.lock o).readers = []
  nodup : ∀ t, (s.thread t).writeLocks.Nodup
  readersNodup : ∀ o, (s.store.lock o).readers.Nodup

lemma locked_init (L : Nat) (program : Tid → List Op) : (init L program).Locked where
  writer o t := by simp [init, Thread.writeLocks]
  reader o t := by simp [init, Thread.readLocks]
  alone o t h := rfl
  nodup t := List.nodup_nil
  readersNodup o := List.nodup_nil

variable {sys : System L}

/-- A write lock excludes the other threads. -/
lemma Locked.exclusive (h : sys.Locked) {t t' : Tid} {o : Offset}
    (ho : o ∈ (sys.thread t).writeLocks) (hne : t' ≠ t) :
    o ∉ (sys.thread t').writeLocks ∧ o ∉ (sys.thread t').readLocks := by
  have hw := (h.writer o t).2 ho
  refine ⟨fun ho' => ?_, fun ho' => ?_⟩
  · have hw' := (h.writer o t').2 ho'
    exact hne (Option.some.inj (hw'.symm.trans hw))
  · have hr := (h.reader o t').2 ho'
    simp [h.alone o t hw] at hr

/-- The locks of a system after thread `t` went to `th`. -/
lemma locked_iff {store : Store L} {t : Tid} {th : Thread L} :
    Locked { store := store, thread := Function.update sys.thread t th } ↔
      (∀ o, ((store.lock o).writer = some t ↔ o ∈ th.writeLocks) ∧
        (t ∈ (store.lock o).readers ↔ o ∈ th.readLocks)) ∧
      (∀ o t', t' ≠ t → ((store.lock o).writer = some t' ↔ o ∈ (sys.thread t').writeLocks) ∧
        (t' ∈ (store.lock o).readers ↔ o ∈ (sys.thread t').readLocks)) ∧
      (∀ o t, (store.lock o).writer = some t → (store.lock o).readers = []) ∧
      (th.writeLocks.Nodup ∧ ∀ t', t' ≠ t → (sys.thread t').writeLocks.Nodup) ∧
      ∀ o, (store.lock o).readers.Nodup := by
  have hself : Function.update sys.thread t th t = th := Function.update_self ..
  have hother : ∀ t', t' ≠ t → Function.update sys.thread t th t' = sys.thread t' :=
    fun t' ht' => Function.update_of_ne ht' _ _
  constructor
  · rintro ⟨hw, hr, halone, hnodup, hreaders⟩
    refine ⟨fun o => ?_, fun o t' ht' => ?_, halone, ⟨?_, fun t' ht' => ?_⟩, hreaders⟩
    · simpa only [hself] using And.intro (hw o t) (hr o t)
    · simpa only [hother t' ht'] using And.intro (hw o t') (hr o t')
    · simpa only [hself] using hnodup t
    · simpa only [hother t' ht'] using hnodup t'
  · rintro ⟨ht, hne, halone, hnodup, hreaders⟩
    refine ⟨fun o t' => ?_, fun o t' => ?_, halone, fun t' => ?_, hreaders⟩
    · by_cases ht' : t' = t
      · simpa only [ht', hself] using (ht o).1
      · simpa only [hother t' ht'] using (hne o t' ht').1
    · by_cases ht' : t' = t
      · simpa only [ht', hself] using (ht o).2
      · simpa only [hother t' ht'] using (hne o t' ht').2
    · by_cases ht' : t' = t
      · simpa only [ht', hself] using hnodup.1
      · simpa only [hother t' ht'] using hnodup.2 t' ht'

/-- What the locks need to agree with the threads again after one of them took or gave back the
lock of `o`. -/
lemma Locked.update (h : sys.Locked) {store : Store L} {t : Tid} {th : Thread L} {o : Offset}
    {lock : RwLock} (hlock : store.lock = Function.update sys.store.lock o lock)
    (hother : ∀ t', t' ≠ t → (lock.writer = some t' ↔ (sys.store.lock o).writer = some t') ∧
      (t' ∈ lock.readers ↔ t' ∈ (sys.store.lock o).readers))
    (hself : (lock.writer = some t ↔ o ∈ th.writeLocks) ∧ (t ∈ lock.readers ↔ o ∈ th.readLocks))
    (hkeep : ∀ o', o' ≠ o → (o' ∈ th.writeLocks ↔ o' ∈ (sys.thread t).writeLocks) ∧
      (o' ∈ th.readLocks ↔ o' ∈ (sys.thread t).readLocks))
    (halone : ∀ t, lock.writer = some t → lock.readers = []) (hnodup : th.writeLocks.Nodup)
    (hreaders : lock.readers.Nodup) :
    Locked { store := store, thread := Function.update sys.thread t th } := by
  have hat : store.lock o = lock := by rw [hlock, Function.update_self]
  have hoff : ∀ o', o' ≠ o → store.lock o' = sys.store.lock o' := fun o' ho' => by
    rw [hlock, Function.update_of_ne ho']
  refine locked_iff.2 ⟨fun o' => ?_, fun o' t' ht' => ?_, fun o' t' => ?_,
    ⟨hnodup, fun t' _ => h.nodup t'⟩, fun o' => ?_⟩
  · by_cases ho' : o' = o
    · rwa [ho', hat]
    · rw [hoff o' ho', (hkeep o' ho').1, (hkeep o' ho').2]
      exact ⟨h.writer o' t, h.reader o' t⟩
  · by_cases ho' : o' = o
    · rw [ho', hat, (hother t' ht').1, (hother t' ht').2]
      exact ⟨h.writer o t', h.reader o t'⟩
    · rw [hoff o' ho']
      exact ⟨h.writer o' t', h.reader o' t'⟩
  · by_cases ho' : o' = o
    · rw [ho', hat]
      exact halone t'
    · rw [hoff o' ho']
      exact h.alone o' t'
  · by_cases ho' : o' = o
    · rwa [ho', hat]
    · rw [hoff o' ho']
      exact h.readersNodup o'

lemma Locked.lockStep (h : sys.Locked) {store : Store L} {t : Tid} {th : Thread L}
    (hs : LockStep t sys.store store (sys.thread t).readLocks (sys.thread t).writeLocks
      th.readLocks th.writeLocks) :
    Locked { store := store, thread := Function.update sys.thread t th } := by
  cases hs with
  | keep lock reads writes =>
    refine locked_iff.2 ⟨fun o => ?_, fun o t' _ => ?_, ?_, ⟨writes ▸ h.nodup t,
      fun t' _ => h.nodup t'⟩, ?_⟩
    · rw [lock, reads, writes]
      exact ⟨h.writer o t, h.reader o t⟩
    · rw [lock]
      exact ⟨h.writer o t', h.reader o t'⟩
    · rw [lock]
      exact h.alone
    · rw [lock]
      exact h.readersNodup
  | rdLock o free lock before reads writes =>
    have hno : t ∉ (sys.store.lock o).readers := by simp [h.reader, before]
    refine h.update lock (fun t' ht' => ⟨Iff.rfl, by simp [ht']⟩)
      ⟨?_, by simp [reads]⟩ (fun o' ho' => ⟨by rw [writes], by simp [reads, before, ho']⟩)
      (fun t' ht' => ?_) (writes ▸ h.nodup t) (List.nodup_cons.2 ⟨hno, h.readersNodup o⟩)
    · rw [writes]
      exact h.writer o t
    · exact absurd (free.symm.trans ht') (by simp)
  | wrLock o free alone lock reads writes =>
    have hno : o ∉ (sys.thread t).writeLocks := by rw [← h.writer, free]; simp
    refine h.update lock (fun t' ht' => ⟨?_, Iff.rfl⟩) ⟨by simp [writes], ?_⟩
      (fun o' ho' => ⟨by simp [writes, ho'], by rw [reads]⟩) (fun _ _ => alone) ?_
      (h.readersNodup o)
    · rw [free]
      simp [ht'.symm]
    · rw [reads]
      exact h.reader o t
    · rw [writes]
      exact List.nodup_cons.2 ⟨hno, h.nodup t⟩
  | unRead o lock before reads none writes =>
    have hw : (sys.store.lock o).writer ≠ some t := by
      rw [Ne, h.writer, none]
      simp
    rw [Store.unLock] at lock
    simp only [hw, if_false] at lock
    refine h.update lock (fun t' ht' => ⟨Iff.rfl, List.mem_erase_of_ne ht'⟩)
      ⟨by simp [hw, writes], ?_⟩
      (fun o' ho' => ⟨by rw [writes, none], by simp [reads, before, ho']⟩) (fun t' ht' => ?_)
      (writes ▸ List.nodup_nil) ((h.readersNodup o).erase t)
    · simp [reads, (h.readersNodup o).mem_erase_iff]
    · rw [h.alone o t' ht', List.erase_nil]
  | unWrite o lock reads writes =>
    have hw : (sys.store.lock o).writer = some t := (h.writer o t).2 (writes.mem_iff.2 (by simp))
    have hnodup := List.nodup_cons.1 (writes.nodup_iff.1 (h.nodup t))
    rw [Store.unLock] at lock
    simp only [hw, if_true] at lock
    refine h.update lock (fun t' ht' => ⟨?_, Iff.rfl⟩) ⟨by simp [hnodup.1], ?_⟩
      (fun o' ho' => ⟨?_, by rw [reads]⟩) (fun t' ht' => absurd ht' (by simp)) hnodup.2
      (h.readersNodup o)
    · rw [hw]
      simp [ht'.symm]
    · rw [reads]
      exact h.reader o t
    · rw [writes.mem_iff]
      simp [ho']

lemma Locked.step {sys' : System L} {a : Act} (h : sys.Locked) (hstep : sys.step a = some sys')
    (hno : ¬(sys.thread a.1).Strays) : sys'.Locked := by
  obtain ⟨store, th, hcase, rfl⟩ := step_cases hstep
  exact h.lockStep (hcase.lockStep hno)

end System

end TiPI.BLinkTree
