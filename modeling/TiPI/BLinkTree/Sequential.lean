import TiPI.BLinkTree.Straight

/-!
# One thread alone

With no other thread every lock that a call asks for is free and every node it reads is there. Each
step brings the call nearer to its end, so a single thread makes all its calls.
-/

namespace TiPI.BLinkTree

variable {L : Nat} {T T' : Tree} {M M' : Key → Option Value} {m m' : Tid → Nat} {skip : Prop}
  {key : Key} {value : Value} {k : Nat}

/-! ### Steps are there -/

/-- The lock that the next step takes. -/
def WritePc.wants : WritePc L → Option Offset
  | .rdLock _ o | .wrLockLeaf _ o _ | .wrLockParent _ o | .wrLockRoot _ _ _ o => some o
  | _ => none

/-- The node that the next step reads. -/
def WritePc.reads : WritePc L → Option Offset
  | .readNode _ o | .readLeaf _ _ o | .readParent _ o => some o
  | _ => none

def ReadPc.wants : ReadPc L → Option Offset
  | .rdLock _ o => some o
  | _ => none

def ReadPc.reads : ReadPc L → Option Offset
  | .readNode _ o => some o
  | _ => none

/-- Nobody holds the lock. -/
def Store.Free (s : Store L) (o : Offset) : Prop :=
  (s.lock o).writer = none ∧ (s.lock o).readers = []

section Progress

variable {s : Store L} {o : Offset}

lemma Store.rdLock_free (h : s.Free o) (t : Tid) : ∃ s', s.rdLock t o = some s' :=
  ⟨_, if_pos h.1⟩

lemma Store.wrLock_free (h : s.Free o) (t : Tid) : ∃ s', s.wrLock t o = some s' :=
  ⟨_, if_pos h⟩

lemma ServiceFile.readNode_some {file : ServiceFile L} {node : BTNode L}
    (h : file.node o = some node) (fresh : Memory) :
    ∃ node', file.readNode o fresh = some node' := by
  rw [readNode, h]
  exact ⟨_, rfl⟩

lemma WritePc.progress {pc : WritePc L} (hret : pc ≠ .ret) (htop : pc ≠ .topOfEmpty)
    (hwants : ∀ o ∈ pc.wants, s.Free o)
    (hreads : ∀ o ∈ pc.reads, ∃ node, s.file.node o = some node)
    (key : Key) (value : Value) (t : Tid) (fresh : Memory) :
    ∃ r, pc.step key value t fresh s = some r := by
  cases pc with
  | ret => exact absurd rfl hret
  | topOfEmpty => exact absurd rfl htop
  | rdLock stk o =>
    obtain ⟨s', hs⟩ := Store.rdLock_free (hwants o rfl) t
    exact ⟨_, by rw [step, hs, Option.map_some]⟩
  | wrLockLeaf stk o =>
    obtain ⟨s', hs⟩ := Store.wrLock_free (hwants o rfl) t
    exact ⟨_, by rw [step, hs, Option.map_some]⟩
  | wrLockParent v o =>
    obtain ⟨s', hs⟩ := Store.wrLock_free (hwants o rfl) t
    exact ⟨_, by rw [step, hs, Option.map_some]⟩
  | wrLockRoot v left right o =>
    obtain ⟨s', hs⟩ := Store.wrLock_free (hwants o rfl) t
    exact ⟨_, by rw [step, hs, Option.map_some]⟩
  | readNode stk o =>
    obtain ⟨node, hnode⟩ := hreads o rfl
    obtain ⟨node', hread⟩ := ServiceFile.readNode_some hnode fresh
    exact ⟨_, by rw [step, hread, Option.map_some]⟩
  | readLeaf stk lock o =>
    obtain ⟨node, hnode⟩ := hreads o rfl
    obtain ⟨node', hread⟩ := ServiceFile.readNode_some hnode fresh
    exact ⟨_, by rw [step, hread, Option.map_some]⟩
  | readParent v o =>
    obtain ⟨node, hnode⟩ := hreads o rfl
    obtain ⟨node', hread⟩ := ServiceFile.readNode_some hnode fresh
    exact ⟨_, by rw [step, hread, Option.map_some]⟩
  | whileNotLeaf stk lock current =>
    simp only [step]
    split_ifs <;> exact ⟨_, rfl⟩
  | isSafe stk lock current =>
    simp only [step]
    split_ifs <;> exact ⟨_, rfl⟩
  | whileUnsafe v =>
    simp only [step]
    split_ifs
    · exact ⟨_, rfl⟩
    · split <;> exact ⟨_, rfl⟩
    · exact ⟨_, rfl⟩
  | _ => exact ⟨_, rfl⟩

lemma ReadPc.progress {pc : ReadPc L} (hret : ∀ res, pc ≠ .ret res)
    (hwants : ∀ o ∈ pc.wants, s.Free o)
    (hreads : ∀ o ∈ pc.reads, ∃ node, s.file.node o = some node)
    (key : Key) (t : Tid) (fresh : Memory) : ∃ r, pc.step key t fresh s = some r := by
  cases pc with
  | ret res => exact absurd rfl (hret res)
  | rdLock atLeaf o =>
    obtain ⟨s', hs⟩ := Store.rdLock_free (hwants o rfl) t
    exact ⟨_, by rw [step, hs, Option.map_some]⟩
  | readNode atLeaf o =>
    obtain ⟨node, hnode⟩ := hreads o rfl
    obtain ⟨node', hread⟩ := ServiceFile.readNode_some hnode fresh
    exact ⟨_, by rw [step, hread, Option.map_some]⟩
  | whileNotLeaf lock current =>
    simp only [step]
    split_ifs <;> exact ⟨_, rfl⟩
  | whileRight lock current =>
    simp only [step]
    split_ifs <;> exact ⟨_, rfl⟩
  | _ => exact ⟨_, rfl⟩

end Progress

namespace System

variable {s : System L} {pc : WritePc L} {fresh : Memory} {store : Store L}

/-- What thread `0` does not hold is free. -/
lemma Sole.free (hsole : s.Sole) (hlocked : s.Locked) {o : Offset}
    (hw : o ∉ (s.thread 0).writeLocks) (hr : o ∉ (s.thread 0).readLocks) : s.store.Free o := by
  have hnone : ∀ t, o ∉ (s.thread t).writeLocks ∧ o ∉ (s.thread t).readLocks := by
    intro t
    by_cases ht : t = 0
    · exact ht ▸ ⟨hw, hr⟩
    · simp [Thread.writeLocks, Thread.readLocks, (hsole t ht).1]
  constructor
  · refine Option.eq_none_iff_forall_ne_some.2 ?_
    intro t ht
    exact (hnone t).1 ((hlocked.writer o t).1 ht)
  · refine List.eq_nil_iff_forall_not_mem.2 ?_
    intro t ht
    exact (hnone t).2 ((hlocked.reader o t).1 ht)

lemma Sole.node (hsole : s.Sole) (h : Inv skip s T M m) (hclean : (s.thread 0).dirty = ∅)
    {o : Offset} (ho : o ∈ T.nodes) : ∃ node, s.store.file.node o = some node := by
  obtain ⟨node, hnode, -⟩ := h.clean o ho fun t => by
    by_cases ht : t = 0
    · rw [ht, hclean]
      exact Set.notMem_empty o
    · simp [Thread.dirty, (hsole t ht).1]
  exact ⟨node, hnode⟩

/-- A write that has not returned has a next step. -/
lemma Inv.write_progress (h : Inv skip s T M m) (hsole : s.Sole)
    (hjob : (s.thread 0).job = some (.write key value pc)) (hret : pc ≠ .ret) (fresh : Memory) :
    ∃ r, pc.step key value 0 fresh s.store = some r := by
  have hok := h.okWrite hjob
  obtain ⟨hres, -, hd⟩ := owned_eq hjob
  have hfree : ∀ {o : Offset}, o ∉ pc.writeLocks → o ∉ pc.readLocks → s.store.Free o := by
    intro o hw hr
    apply hsole.free h.locked
    · rwa [writeLocks_eq hjob]
    · rwa [readLocks_eq hjob]
  refine WritePc.progress hret ?_ ?_ ?_ key value 0 fresh
  · rintro rfl
    exact hok
  · intro o ho
    cases pc with
    | rdLock stk o' => exact hfree (by simp [WritePc.writeLocks]) (by simp [WritePc.readLocks])
    | wrLockLeaf stk o' offset =>
      exact hfree (by simp [WritePc.writeLocks]) (by simp [WritePc.readLocks])
    | wrLockParent v p =>
      obtain rfl : p = o := Option.some.inj ho
      obtain ⟨-, habove⟩ := hok
      have hne : p ≠ v.lock := by
        rintro rfl
        exact absurd habove.level (Nat.succ_ne_self _).symm
      exact hfree (by simpa [WritePc.writeLocks] using hne) (by simp [WritePc.readLocks])
    | wrLockRoot v left right root =>
      obtain rfl : root = o := Option.some.inj ho
      obtain ⟨hv, -⟩ := hok
      have hroot := (h.reserved 0 root (hres ▸ .inr rfl)).1
      have hne : root ≠ v.lock := (ne_of_mem_of_not_mem hv.mem hroot).symm
      exact hfree (by simpa [WritePc.writeLocks] using hne) (by simp [WritePc.readLocks])
    | _ => exact absurd ho (by simp [WritePc.wants])
  · intro o ho
    cases pc with
    | readNode stk o' =>
      obtain rfl : o' = o := Option.some.inj ho
      exact hsole.node h hd hok.mem
    | readLeaf stk lock o' =>
      obtain rfl : o' = o := Option.some.inj ho
      obtain ⟨rfl, hdesc, -⟩ := hok
      exact hsole.node h hd hdesc.mem
    | readParent v p =>
      obtain rfl : p = o := Option.some.inj ho
      exact hsole.node h hd hok.2.mem
    | _ => exact absurd ho (by simp [WritePc.reads])

lemma Inv.read_progress (h : Inv skip s T M m) (hsole : s.Sole) {rpc : ReadPc L}
    (hjob : (s.thread 0).job = some (.read key rpc)) (hret : ∀ res, rpc ≠ .ret res)
    (fresh : Memory) : ∃ r, rpc.step key 0 fresh s.store = some r := by
  have hok := h.okRead hjob
  have hd : (s.thread 0).dirty = ∅ := by rw [Thread.dirty, hjob]
  refine ReadPc.progress hret ?_ ?_ key 0 fresh
  · intro o ho
    cases rpc with
    | rdLock atLeaf o' =>
      apply hsole.free h.locked
      · simp [Thread.writeLocks, hjob]
      · simp [Thread.readLocks, hjob, ReadPc.readLocks]
    | _ => exact absurd ho (by simp [ReadPc.wants])
  · intro o ho
    cases rpc with
    | readNode atLeaf o' =>
      obtain rfl : o' = o := Option.some.inj ho
      exact hsole.node h hd hok.1
    | _ => exact absurd ho (by simp [ReadPc.reads])

/-- The invariant of a system in which only thread `0` does anything. -/
structure Sequential (skip : Prop) (s : System L) (T : Tree) (M : Key → Option Value)
    (m : Tid → Nat) : Prop where
  inv : Inv skip s T M m
  sole : s.Sole
  path : (s.thread 0).OnPath T (m 0)

variable {s' : System L}

lemma Sequential.onPath (h : Sequential skip s T M m)
    (hjob : (s.thread 0).job = some (.write key value pc)) : pc.OnPath T key (m 0) := by
  have hpath := h.path
  rwa [Thread.OnPath, hjob] at hpath

/-- A call that has come to the root it began at finds it to be the root still. -/
lemma Sequential.hasParent (h : Sequential skip s T M m) : (s.thread 0).HasParent := by
  intro v hv hfull hroot hstk
  unfold Thread.climbing at hv
  split at hv
  · next key value pc hjob =>
    cases pc with
    | whileUnsafe u =>
      obtain rfl : u = v := Option.some.inj hv
      obtain ⟨hready, hstack⟩ := h.inv.okWrite hjob
      rw [hstk] at hstack
      have htop : T.level u.lock = T.top :=
        Eq.trans (b := m 0) hstack ((h.onPath hjob).rooted rfl)
      rw [hready.root.2 htop] at hroot
      exact Bool.noConfusion hroot
    | _ => exact absurd hv (by simp [WritePc.climbing])
  · exact absurd hv (by simp)

/-- As long as there is anything to do, the next step is there. -/
lemma Sequential.progress (h : Sequential skip s T M m)
    (hbusy : (s.thread 0).job ≠ none ∨ (s.thread 0).todo ≠ []) (fresh : Memory) :
    ∃ s', s.step (0, fresh) = some s' := by
  have hthread : ∃ r, (s.thread 0).step 0 fresh s.store = some r := by
    unfold Thread.step
    split
    · next hjob =>
      split
      · next htodo => exact absurd htodo (hbusy.resolve_left fun hne => hne hjob)
      · exact ⟨_, rfl⟩
    · exact ⟨_, rfl⟩
    · next key value pc hret hjob =>
      obtain ⟨r, hr⟩ := h.inv.write_progress h.sole hjob hret fresh
      exact ⟨_, by rw [hr, Option.map_some]⟩
    · exact ⟨_, rfl⟩
    · next key pc hret hjob =>
      obtain ⟨r, hr⟩ := h.inv.read_progress h.sole hjob hret fresh
      exact ⟨_, by rw [hr, Option.map_some]⟩
  obtain ⟨r, hr⟩ := hthread
  exact ⟨_, by rw [step, hr, Option.map_some]⟩

lemma Sole.step (h : s.Sole) (hstep : s.step (0, fresh) = some s') : s'.Sole := by
  intro t ht
  rw [step_thread hstep ht]
  exact h t ht

/-- After a step of `write` the call is on its path still, and nearer to its end. -/
lemma Sequential.write_step (h : Sequential skip s T M m) {store : Store L}
    {pc pc' : WritePc L} (hjob : (s.thread 0).job = some (.write key value pc))
    (hcase : WriteCase key value 0 fresh s.store pc store pc') (hlive : pc.Live key)
    (hno : ¬pc.Strays key) (hchanges : Changes s 0 T T') {k : Nat}
    (htop : T'.top = if pc.grows then T.top + 1 else T.top)
    (hdepth : k = if pc.begins then T.top else m 0) :
    pc'.OnPath T' key k ∧ pc'.rest T'.top < pc.rest T.top := by
  have hpath := h.onPath hjob
  obtain ⟨hstraight, hcovers⟩ := h.inv.write_path h.sole hjob hcase hlive hno hpath
  have hapart := h.inv.write_apart hjob hcase hno
  -- a stack is shorter than the tree as long as its node is no leaf
  have hlength : ∀ stk lock current, pc = .whileNotLeaf stk lock current →
      current.btnodeFlag LEAF_NODE = false → stk.length < T.top := by
    intro stk lock current hpc hin
    subst hpc
    obtain ⟨hdesc, hnode⟩ := h.inv.okWrite hjob
    have hlen := hdesc.stack.length
    have hrooted := hpath.rooted rfl
    have hpos : T.level lock ≠ 0 := by
      intro h0
      rw [hnode.leaf.2 h0] at hin
      exact Bool.noConfusion hin
    omega
  refine ⟨⟨hstraight, fun hroot => ?_, fun p hp => ?_, hapart⟩, ?_⟩
  · exact hcase.depth_eq_top hno hroot hpath.rooted htop hdepth
  · obtain ⟨hmem, hcov, hlock⟩ := hcovers p hp
    rw [← writeLocks_eq hjob] at hlock
    exact (hchanges.agree p hmem hlock).covers_iff.2 hcov
  · rw [htop]
    exact hcase.rest_lt hno hpath.straight hlength

lemma Sequential.read_step (h : Sequential skip s T M m) {store : Store L}
    {pc pc' : ReadPc L} (hjob : (s.thread 0).job = some (.read key pc))
    (hcase : ReadCase key 0 fresh s.store pc store pc') (hlive : pc.Live key)
    (hchanges : Changes s 0 T T') (htop : T'.top = T.top) :
    pc'.OnPath T' key ∧ pc'.rest T' < pc.rest T := by
  have hpath : pc.OnPath T key := by
    have hp := h.path
    rwa [Thread.OnPath, hjob] at hp
  obtain ⟨hstraight, hcovers, hlt⟩ := h.inv.read_path h.sole hjob hcase hlive hpath
  have hlevel : ∀ p ∈ pc'.path, T'.level p = T.level p := by
    intro p hp
    exact hchanges.level p (hcovers p hp).1
  have hrest : pc'.rest T' = pc'.rest T := by
    cases pc' with
    | getRootOffset => exact congrArg (6 + 4 * ·) htop
    | rdLock _ o | readNode _ o | whileNotLeaf o _ | unLockPrev _ _ o =>
      simp only [ReadPc.rest, hlevel o rfl]
    | _ => rfl
  refine ⟨⟨hstraight, fun p hp => ?_⟩, by rwa [hrest]⟩
  have hlock : p ∉ (s.thread 0).writeLocks := by simp [Thread.writeLocks, hjob]
  exact (hchanges.agree p (hcovers p hp).1 hlock).covers_iff.2 (hcovers p hp).2

lemma Sequential.step (h : Sequential skip s T M m) (hL : 0 < L)
    (hstep : s.step (0, fresh) = some s') (hlive : (s.thread 0).Live)
    (hcopies : (s.thread 0).Copies) (hskip : skip ∨ (s.thread 0).Stores) :
    ∃ T' M' m', Sequential skip s' T' M' m' ∧
      StepEffect skip (s.thread 0) (s'.thread 0) T T' M M' (m 0) (m' 0) ∧
      ((s.thread 0).job ≠ none → (s'.thread 0).rest T' < (s.thread 0).rest T) := by
  obtain ⟨T', M', m', hinv, -, heffect, hchanges⟩ :=
    h.inv.step_changes hL hstep hlive hcopies h.hasParent hskip
  obtain ⟨store, th, hcase, rfl⟩ : ∃ store th, ThreadCase 0 fresh s.store (s.thread 0) store th ∧
      s' = { store := store, thread := Function.update s.thread 0 th } := step_cases hstep
  have hno := h.inv.not_strays hcase hlive h.hasParent
  have hsole := h.sole.step hstep
  have htop := heffect.top
  have hdepth := heffect.depth
  simp only [Function.update_self] at heffect hdepth ⊢
  have hafter : th.OnPath T' (m' 0) ∧
      ((s.thread 0).job ≠ none → th.rest T' < (s.thread 0).rest T) := by
    cases hcase with
    | call op todo idle next =>
      refine ⟨?_, fun hne => absurd idle hne⟩
      cases op with
      | write key value =>
        exact ⟨rfl, fun h0 => Bool.noConfusion h0, by simp [WritePc.path], by simp⟩
      | read key => exact ⟨rfl, by simp [ReadPc.path]⟩
    | writeRet key value job =>
      refine ⟨trivial, fun _ => ?_⟩
      simp [Thread.rest, job]
    | readRet key res job =>
      refine ⟨trivial, fun _ => ?_⟩
      simp [Thread.rest, job]
    | write key value pc pc' _ job step =>
      have hno' : ¬pc.Strays key := by simpa [Thread.Strays, job] using hno
      have hgrows : (s.thread 0).grows = pc.grows := by rw [Thread.grows, job]
      have hbegins : (s.thread 0).begins = pc.begins := by rw [Thread.begins, job]
      rw [hgrows] at htop
      rw [hbegins] at hdepth
      obtain ⟨hpath, hlt⟩ := h.write_step job step (live_write job hlive) hno' hchanges htop hdepth
      refine ⟨hpath, fun _ => ?_⟩
      simpa [Thread.rest, job] using hlt
    | read key pc pc' _ job step =>
      have hgrows : (s.thread 0).grows = false := by rw [Thread.grows, job]
      rw [hgrows] at htop
      obtain ⟨hpath, hlt⟩ := h.read_step job step (live_read job hlive) hchanges htop
      refine ⟨hpath, fun _ => ?_⟩
      simpa [Thread.rest, job] using hlt
  refine ⟨T', M', m', ⟨hinv, hsole, ?_⟩, heffect, ?_⟩
  · simp only [Function.update_self]
    exact hafter.1
  · exact hafter.2

/-! ### Whole runs -/

/-- Thread `0` makes the calls, no other thread does anything. -/
def single (ops : List Op) : Tid → List Op := fun t => if t = 0 then ops else []

/-- The states of a single thread that makes the calls; a `malloc` of step `n` returns `mem n`. -/
def alone (L : Nat) (ops : List Op) (mem : Nat → Memory) : Nat → Option (System L) :=
  trace step (init L (single ops)) fun n => (0, mem n)

lemma sequential_init (L : Nat) (ops : List Op) (skip : Prop) :
    Sequential skip (init L (single ops)) (.single INITIAL_ROOT_OFFSET) (fun _ => none)
      fun _ => 0 where
  inv := inv_init L (single ops) skip
  sole _ ht := ⟨rfl, if_neg ht⟩
  path := trivial

/-- The next step does nothing a write must not do. -/
def Sound (skip : Prop) (s : System L) (a : Act) : Prop :=
  a.1 = 0 ∧ (s.thread 0).Live ∧ (s.thread 0).Copies ∧ (skip ∨ (s.thread 0).Stores)

lemma todo_eq {t : Tid} {th th' : Thread L} {st st' : Store L}
    (h : ThreadCase t fresh st th st' th') (hjob : th.job ≠ none) : th'.todo = th.todo := by
  cases h with
  | call op todo idle next => exact absurd idle hjob
  | _ => rfl

lemma Sequential.step_of_sound (h : Sequential skip s T M m) (hL : 0 < L) {a : Act}
    (hok : Sound skip s a) (hstep : s.step a = some s') :
    ∃ T' M' m', Sequential skip s' T' M' m' ∧
      StepEffect skip (s.thread 0) (s'.thread 0) T T' M M' (m 0) (m' 0) ∧
      ((s.thread 0).job ≠ none → (s'.thread 0).rest T' < (s.thread 0).rest T) := by
  obtain ⟨t, fresh⟩ := a
  obtain ⟨rfl, hlive, hcopies, hskip⟩ := hok
  exact h.step hL hstep hlive hcopies hskip

/-- A call comes to its return. -/
lemma Sequential.returns (hL : 0 < L) {s₀ : System L} {acts : Nat → Act}
    (hok : ∀ n s, trace System.step s₀ acts n = some s → Sound skip s (acts n)) {n : Nat}
    (hs : trace System.step s₀ acts n = some s) (h : Sequential skip s T M m) :
    ∃ n' s', trace System.step s₀ acts n' = some s' ∧ (s'.thread 0).job = none ∧
      (s'.thread 0).todo = (s.thread 0).todo ∧ ∃ T' M' m', Sequential skip s' T' M' m' := by
  have hrule := exists_trace (P := fun b r => (r.thread 0).todo = (s.thread 0).todo ∧
    ∃ T M m, Sequential skip r T M m ∧ (r.thread 0).rest T = b)
    (Q := fun r => (r.thread 0).job = none) hok ?_ hs ⟨rfl, T, M, m, h, rfl⟩
  · obtain ⟨n', s', hs', hjob, -, htodo, T', M', m', h', -⟩ := hrule
    exact ⟨n', s', hs', hjob, htodo, T', M', m', h'⟩
  · rintro b r a ⟨htodo, T, M, m, hr, rfl⟩ hsound hbusy
    obtain ⟨t, fresh⟩ := a
    obtain rfl : t = 0 := hsound.1
    obtain ⟨r', hstep⟩ := hr.progress (.inl hbusy) fresh
    obtain ⟨T', M', m', hr', -, hlt⟩ := hr.step_of_sound hL hsound hstep
    refine ⟨_, r', hstep, ⟨?_, T', M', m', hr', rfl⟩, hlt hbusy⟩
    obtain ⟨store, th, hcase, rfl⟩ := step_cases hstep
    simp only [Function.update_self]
    rw [todo_eq hcase hbusy, htodo]

/-- All calls come to their returns. -/
lemma Sequential.finishes (hL : 0 < L) {s₀ : System L} {acts : Nat → Act}
    (hok : ∀ n s, trace System.step s₀ acts n = some s → Sound skip s (acts n)) {ops : List Op}
    {n : Nat} (hs : trace System.step s₀ acts n = some s) (h : Sequential skip s T M m)
    (hidle : (s.thread 0).job = none) (htodo : (s.thread 0).todo = ops) :
    ∃ n' s', trace System.step s₀ acts n' = some s' ∧ (s'.thread 0).job = none ∧
      (s'.thread 0).todo = [] := by
  induction ops generalizing n s T M m with
  | nil => exact ⟨n, s, hs, hidle, htodo⟩
  | cons op ops ih =>
    have hsound := hok n s hs
    have hbusy : (s.thread 0).todo ≠ [] := by simp [htodo]
    obtain ⟨s₁, hs₁⟩ : ∃ s₁, s.step (acts n) = some s₁ := by
      obtain ⟨s₁, hs₁⟩ := h.progress (.inr hbusy) (acts n).2
      exact ⟨s₁, by rw [← hs₁, ← hsound.1]⟩
    obtain ⟨T₁, M₁, m₁, h₁, -⟩ := h.step_of_sound hL hsound hs₁
    have htodo₁ : (s₁.thread 0).todo = ops := by
      obtain ⟨store, th, hcase, rfl⟩ := step_cases hs₁
      rw [hsound.1] at hcase
      simp only [hsound.1, Function.update_self]
      cases hcase with
      | call op' todo idle next => exact (List.cons.inj (next.symm.trans htodo)).2
      | writeRet key value job | readRet key res job =>
        exact absurd (hidle.symm.trans job) (by simp)
      | write _ _ _ _ _ job | read _ _ _ _ job => exact absurd (hidle.symm.trans job) (by simp)
    obtain ⟨n₂, s₂, hs₂, hjob₂, htodo₂, T₂, M₂, m₂, h₂⟩ :=
      Sequential.returns hL hok ((trace_succ hs).trans hs₁) h₁
    exact ih hs₂ h₂ hjob₂ (htodo₂.trans htodo₁)

/-- A single thread makes all its calls. -/
theorem alone_finishes (hL : 0 < L) {ops : List Op} {mem : Nat → Memory}
    (hok : ∀ n s, alone L ops mem n = some s → Sound skip s (0, mem n)) :
    ∃ n s, alone L ops mem n = some s ∧ (s.thread 0).job = none ∧ (s.thread 0).todo = [] :=
  Sequential.finishes (n := 0) hL hok rfl (sequential_init L ops skip) rfl rfl

end System

end TiPI.BLinkTree
