import TiPI.BLinkTree.Writes
import TiPI.Lib.Run

/-!
# Runs of the threads

A step of any thread keeps the invariant as long as it meets the conditions under which the code
does what it is for. The map changes only where a write takes effect.
-/

namespace TiPI.BLinkTree

variable {L : Nat} {T T' : Tree} {M M' : Key → Option Value} {m m' : Tid → Nat} {skip : Prop}
  {key : Key} {value : Value}

/-! ### Conditions on a step -/

/-- The node a child is about to be taken from. -/
def ReadPc.descent : ReadPc L → Option (BTNode L)
  | .whileNotLeaf _ current => some current
  | _ => none

def ReadPc.Live (key : Key) (pc : ReadPc L) : Prop :=
  ∀ node ∈ pc.descent, node.btnodeFlag LEAF_NODE = false → ¬node.DeadHit key

namespace Thread

/-- The key and the node of a descent. -/
def descent (th : Thread L) : Option (Key × BTNode L) :=
  match th.job with
  | none => none
  | some (.write key _ pc) => pc.descent.map (key, ·)
  | some (.read key pc) => pc.descent.map (key, ·)

def splitting (th : Thread L) : Option (SplitVars L) :=
  match th.job with
  | some (.write _ _ pc) => pc.splitting
  | _ => none

def climbing (th : Thread L) : Option (SplitVars L) :=
  match th.job with
  | some (.write _ _ pc) => pc.climbing
  | _ => none

/-- The key, the value and the leaf of a write. -/
def storing (th : Thread L) : Option (Key × Value × BTNode L) :=
  match th.job with
  | some (.write key value pc) => pc.storing.map (key, value, ·)
  | _ => none

/-- The thread's next step takes no child from a dead slot. -/
def Live (th : Thread L) : Prop :=
  ∀ p ∈ th.descent, p.2.btnodeFlag LEAF_NODE = false → ¬p.2.DeadHit p.1

instance (th : Thread L) : Decidable th.Live :=
  inferInstanceAs (Decidable (∀ p ∈ th.descent, _))

/-- The thread's next step loses no children in a split. -/
def Copies (th : Thread L) : Prop := ∀ v ∈ th.splitting, v.CopiesChildren

instance (th : Thread L) : Decidable th.Copies :=
  inferInstanceAs (Decidable (∀ v ∈ th.splitting, _))

/-- The thread's next step takes no parent from an empty stack. -/
def HasParent (th : Thread L) : Prop :=
  ∀ v ∈ th.climbing, v.current.keyBuffSize = 2 * L → v.current.btnodeFlag ROOT_NODE = false →
    v.stk ≠ []

instance (th : Thread L) : Decidable th.HasParent :=
  inferInstanceAs (Decidable (∀ v ∈ th.climbing, _))

/-- The thread's next step drops no value in a full leaf. -/
def Stores (th : Thread L) : Prop := ∀ p ∈ th.storing, ¬p.2.2.DropsValue p.1 p.2.1

instance (th : Thread L) : Decidable th.Stores :=
  inferInstanceAs (Decidable (∀ p ∈ th.storing, _))

/-! ### What a step comes to -/

def begins (th : Thread L) : Bool :=
  match th.job with
  | some (.write _ _ pc) => pc.begins
  | _ => false

def grows (th : Thread L) : Bool :=
  match th.job with
  | some (.write _ _ pc) => pc.grows
  | _ => false

end Thread

/-- What an operation puts into the map. -/
def Op.put : Op → Option (Key × Value)
  | .write key value => some (key, value)
  | .read _ => none

/-- The write that a call has made, or has yet to make. -/
def Thread.landed (th : Thread L) (stored : Bool) : List (Key × Value) :=
  match th.job with
  | some (.write key value pc) => if pc.stored = stored then [(key, value)] else []
  | _ => []

/-- The writes of a thread that have taken effect, in their order. -/
def Thread.effects (th : Thread L) : List (Key × Value) :=
  th.done.filterMap (fun d => d.1.put) ++ th.landed true

/-- The writes of a thread that have yet to take effect. -/
def Thread.pending (th : Thread L) : List (Key × Value) :=
  th.landed false ++ th.todo.filterMap Op.put

/-- What a step from `th` to `th'` does to the tree's height, to the map, and to the height of the
tree in which the thread's call began. -/
structure StepEffect (skip : Prop) (th th' : Thread L) (T T' : Tree) (M M' : Key → Option Value)
    (k k' : Nat) : Prop where
  top : T'.top = if th.grows then T.top + 1 else T.top
  map : th'.effects = th.effects ∧ th'.pending = th.pending ∧ M' = M ∨
    ∃ key value val, th'.effects = th.effects ++ [(key, value)] ∧
      th.pending = (key, value) :: th'.pending ∧ (skip ∨ val = value) ∧
      M' = Function.update M key (some val)
  depth : k' = if th.begins then T.top else k

namespace System

variable {s : System L} {t : Tid}

lemma Inv.okRead (h : Inv skip s T M m) {pc : ReadPc L}
    (hjob : (s.thread t).job = some (.read key pc)) : pc.Ok T key := by
  have := h.ok t
  rwa [Thread.Ok, hjob] at this

/-- A step that is none of a write. -/
lemma Preserves.idle (h : Inv skip s T M m) {k : Nat} {file : ServiceFile L} {th : Thread L}
    (hfile : file = s.store.file)
    (hbefore : (s.thread t).reserved = ∅ ∧ (s.thread t).orphans = ∅ ∧ (s.thread t).dirty = ∅)
    (hafter : th.reserved = ∅ ∧ th.orphans = ∅ ∧ th.dirty = ∅)
    (hok : th.Ok T s.store.file skip k) : Preserves skip s t T T k file th := by
  subst hfile
  obtain ⟨hr, ho, hd⟩ := hbefore
  obtain ⟨hr', ho', hd'⟩ := hafter
  refine .same h rfl le_rfl (fun _ _ _ => rfl) (fun o hod => ?_) (fun o hod => ?_)
    (fun o hod => ?_) (ho'.trans ho.symm) hok
  · rw [hd'] at hod
    exact hod.elim
  · rw [hd] at hod
    exact hod.elim
  · rw [hr'] at hod
    exact hod.elim

lemma Inv.read_ok (h : Inv skip s T M m) {pc pc' : ReadPc L}
    (hjob : (s.thread t).job = some (.read key pc)) {fresh : Memory} {store : Store L}
    (hcase : ReadCase key t fresh s.store pc store pc') (hlive : pc.Live key) :
    pc'.Ok T key ∧ store.file = s.store.file ∧ ¬pc.Strays key := by
  have hok := h.okRead hjob
  have hrd : (s.thread t).readLocks = pc.readLocks := by rw [Thread.readLocks, hjob]
  have hd : (s.thread t).dirty = ∅ := by rw [Thread.dirty, hjob]
  cases hcase with
  | getRootOffset =>
    refine ⟨⟨h.rootMem, ?_, fun h0 => Bool.noConfusion h0⟩, rfl, id⟩
    rw [h.valid.low_top _ h.rootMem h.rootTop]
    exact bot_le
  | rdLock atLeaf offset _ free => exact ⟨hok, (rdLock_eq free).2.1, id⟩
  | readNode offset current read =>
    obtain ⟨hmem, hlow, -⟩ := hok
    have hnode := h.readNode hmem (.inr (by simp [hrd, ReadPc.readLocks])) hd read
    exact ⟨⟨hmem, hlow, hnode⟩, rfl, id⟩
  | readLeaf offset current read =>
    obtain ⟨hmem, hlow, h0⟩ := hok
    have hnode := h.readNode hmem (.inr (by simp [hrd, ReadPc.readLocks])) hd read
    exact ⟨⟨hmem, hlow, h0 rfl, hnode⟩, rfl, id⟩
  | atLeaf lock current leaf =>
    obtain ⟨hmem, hlow, hnode⟩ := hok
    exact ⟨⟨hmem, hlow, hnode.leaf.1 leaf, hnode⟩, rfl,
      fun hs => Bool.noConfusion (leaf.symm.trans hs.1)⟩
  | noChild lock current inner child =>
    obtain ⟨hmem, hlow, hnode⟩ := hok
    have hkid := (h.child hmem hlow hnode inner (hlive current rfl inner)).1
    exact absurd child (h.ne_invalid (h.valid.kid_mem _ hmem _ hkid))
  | toChild lock current inner child =>
    obtain ⟨hmem, hlow, hnode⟩ := hok
    obtain ⟨hkid, hlow', -⟩ := h.child hmem hlow hnode inner (hlive current rfl inner)
    exact ⟨⟨h.valid.kid_mem _ hmem _ hkid, hlow', fun h0 => Bool.noConfusion h0⟩, rfl,
      fun hs => child hs.2⟩
  | toRight lock current right high =>
    obtain ⟨hmem, hlow, h0, hnode⟩ := hok
    obtain ⟨hmem', hlevel, hlow'⟩ := h.right hmem hnode right high.le
    exact ⟨⟨hmem', hlow', fun _ => hlevel.trans h0⟩, rfl, id⟩
  | whileRight lock current here => exact ⟨trivial, rfl, id⟩
  | unLockPrev atLeaf prev offset => exact ⟨hok, rfl, id⟩
  | unLock lock res => exact ⟨trivial, rfl, id⟩

section Conditions

variable {th : Thread L}

lemma live_write {pc : WritePc L} (hjob : th.job = some (.write key value pc)) (h : th.Live) :
    pc.Live key := by
  intro node hnode
  exact h (key, node) (by simpa [Thread.descent, hjob] using hnode)

lemma live_read {pc : ReadPc L} (hjob : th.job = some (.read key pc)) (h : th.Live) :
    pc.Live key := by
  intro node hnode
  exact h (key, node) (by simpa [Thread.descent, hjob] using hnode)

lemma hasParent_write {pc : WritePc L} (hjob : th.job = some (.write key value pc))
    (h : th.HasParent) : pc.HasParent := by
  intro v hv
  exact h v (by simpa [Thread.climbing, hjob] using hv)

lemma copies_write {pc : WritePc L} (hjob : th.job = some (.write key value pc))
    (h : th.Copies) : pc.Copies := by
  intro v hv
  exact h v (by simpa [Thread.splitting, hjob] using hv)

lemma stores_write {pc : WritePc L} (hjob : th.job = some (.write key value pc))
    (h : th.Stores) : pc.Stores key value := by
  intro node hnode
  exact h (key, value, node) (by simpa [Thread.storing, hjob] using hnode)

end Conditions

/-- No step of a thread loses its way. -/
lemma Inv.not_strays (h : Inv skip s T M m) {fresh : Memory} {store : Store L} {th : Thread L}
    (hcase : ThreadCase t fresh s.store (s.thread t) store th) (hlive : (s.thread t).Live)
    (hparent : (s.thread t).HasParent) : ¬(s.thread t).Strays := by
  cases hcase with
  | call op todo idle next => simp [Thread.Strays, idle]
  | writeRet key value job =>
    rw [Thread.Strays, job]
    exact id
  | readRet key res job =>
    rw [Thread.Strays, job]
    exact id
  | write key value pc pc' _ job step =>
    simpa [Thread.Strays, job] using
      WritePc.Ok.not_strays h job (live_write job hlive) (hasParent_write job hparent)
  | read key pc pc' _ job step =>
    simpa [Thread.Strays, job] using (h.read_ok job step (live_read job hlive)).2.2

/-- A step of thread `t` that goes to `th`: what it has to show, and what it does. -/
lemma Inv.thread_step (h : Inv skip s T M m) (hL : 0 < L) {fresh : Memory} {store : Store L}
    {th : Thread L} (hcase : ThreadCase t fresh s.store (s.thread t) store th)
    (hlive : (s.thread t).Live) (hcopies : (s.thread t).Copies)
    (hparent : (s.thread t).HasParent) (hskip : skip ∨ (s.thread t).Stores) :
    ∃ T' M' k', T'.Represents M' ∧ Preserves skip s t T T' k' store.file th ∧
      StepEffect skip (s.thread t) th T T' M M' (m t) k' := by
  cases hcase with
  | call op todo idle next =>
    refine ⟨T, M, m t, h.represents, .idle h rfl ?_ ?_ ?_, ⟨?_, .inl ⟨?_, ?_, rfl⟩, ?_⟩⟩
    · simp [Thread.reserved, Thread.orphans, Thread.dirty, idle]
    · cases op <;> exact ⟨rfl, rfl, rfl⟩
    · cases op <;> trivial
    · simp [Thread.grows, idle]
    · cases op <;> simp [Thread.effects, Thread.landed, idle, Op.call, WritePc.stored]
    · have hbefore : (s.thread t).pending = (op :: todo).filterMap Op.put := by
        rw [Thread.pending, Thread.landed, idle, next]
        rfl
      rw [hbefore]
      cases op <;> rfl
    · simp [Thread.begins, idle]
  | writeRet key value job =>
    refine ⟨T, M, m t, h.represents, .idle h rfl ?_ ⟨rfl, rfl, rfl⟩ trivial,
      ⟨?_, .inl ⟨?_, ?_, rfl⟩, ?_⟩⟩
    · simp [Thread.reserved, Thread.orphans, Thread.dirty, job, WritePc.reserved, WritePc.orphans,
        WritePc.dirty]
    · simp [Thread.grows, job, WritePc.grows]
    · simp [Thread.effects, Thread.landed, job, Op.put, WritePc.stored]
    · simp [Thread.pending, Thread.landed, job, WritePc.stored]
    · simp [Thread.begins, job, WritePc.begins]
  | readRet key res job =>
    refine ⟨T, M, m t, h.represents, .idle h rfl ?_ ⟨rfl, rfl, rfl⟩ trivial,
      ⟨?_, .inl ⟨?_, ?_, rfl⟩, ?_⟩⟩
    · simp [Thread.reserved, Thread.orphans, Thread.dirty, job]
    · simp [Thread.grows, job]
    · simp [Thread.effects, Thread.landed, job, Op.put]
    · simp [Thread.pending, Thread.landed, job]
    · simp [Thread.begins, job]
  | write key value pc pc' _ job step =>
    obtain ⟨T', M', k', hM, hp, htop, hmap, hdepth⟩ :=
      h.write_advances hL job step (live_write job hlive) (copies_write job hcopies)
        (hasParent_write job hparent) (hskip.imp_right (stores_write job))
    refine ⟨T', M', k', hM, hp, ⟨?_, ?_, ?_⟩⟩
    · rw [htop, Thread.grows, job]
    · rcases hmap with ⟨hstored, rfl⟩ | ⟨hbefore, hafter, val, hval, rfl⟩
      · left
        simp [Thread.effects, Thread.pending, Thread.landed, job, hstored]
      · right
        refine ⟨key, value, val, ?_, ?_, hval, rfl⟩
        · simp [Thread.effects, Thread.landed, job, hbefore, hafter]
        · simp [Thread.pending, Thread.landed, job, hbefore, hafter]
    · rw [hdepth, Thread.begins, job]
  | read key pc pc' _ job step =>
    obtain ⟨hok, hfile, -⟩ := h.read_ok job step (live_read job hlive)
    refine ⟨T, M, m t, h.represents, .idle h hfile ?_ ⟨rfl, rfl, rfl⟩ hok,
      ⟨?_, .inl ⟨?_, ?_, rfl⟩, ?_⟩⟩
    · simp [Thread.reserved, Thread.orphans, Thread.dirty, job]
    · simp [Thread.grows, job]
    · simp [Thread.effects, Thread.landed, job]
    · simp [Thread.pending, Thread.landed, job]
    · simp [Thread.begins, job]

variable {s' : System L} {a : Act}

lemma step_thread (hstep : s.step a = some s') {t' : Tid} (hne : t' ≠ a.1) :
    s'.thread t' = s.thread t' := by
  obtain ⟨store, th, -, rfl⟩ := step_cases hstep
  exact Function.update_of_ne hne _ _

/-- A step keeps the invariant, with a tree that differs in nodes of the thread alone. -/
lemma Inv.step_changes (h : Inv skip s T M m) (hL : 0 < L) (hstep : s.step a = some s')
    (hlive : (s.thread a.1).Live) (hcopies : (s.thread a.1).Copies)
    (hparent : (s.thread a.1).HasParent) (hskip : skip ∨ (s.thread a.1).Stores) :
    ∃ T' M' m', Inv skip s' T' M' m' ∧ (∀ t, t ≠ a.1 → m' t = m t) ∧
      StepEffect skip (s.thread a.1) (s'.thread a.1) T T' M M' (m a.1) (m' a.1) ∧
      Changes s a.1 T T' := by
  obtain ⟨store, th, hcase, rfl⟩ := step_cases hstep
  obtain ⟨T', M', k', hM, hp, heffect⟩ := h.thread_step hL hcase hlive hcopies hparent hskip
  have hlocked := h.locked.lockStep (hcase.lockStep (h.not_strays hcase hlive hparent))
  have hm : ∀ t, t ≠ a.1 → Function.update m a.1 k' t = m t :=
    fun t ht => Function.update_of_ne ht _ _
  refine ⟨T', M', Function.update m a.1 k', h.update hlocked hM ?_ hm, hm, ?_, hp.changes⟩
  · rw [Function.update_self]
    exact hp
  · simpa only [Function.update_self] using heffect

theorem Inv.step (h : Inv skip s T M m) (hL : 0 < L) (hstep : s.step a = some s')
    (hlive : (s.thread a.1).Live) (hcopies : (s.thread a.1).Copies)
    (hparent : (s.thread a.1).HasParent) (hskip : skip ∨ (s.thread a.1).Stores) :
    ∃ T' M' m', Inv skip s' T' M' m' ∧ (∀ t, t ≠ a.1 → m' t = m t) ∧
      StepEffect skip (s.thread a.1) (s'.thread a.1) T T' M M' (m a.1) (m' a.1) := by
  obtain ⟨T', M', m', hinv, hm, heffect, -⟩ :=
    h.step_changes hL hstep hlive hcopies hparent hskip
  exact ⟨T', M', m', hinv, hm, heffect⟩

/-! ### The empty tree -/

lemma isNode_rootLeaf (L : Nat) :
    IsNode (.single INITIAL_ROOT_OFFSET) INITIAL_ROOT_OFFSET (rootLeaf L) where
  self := rfl
  right := rfl
  high _ h := absurd h (by simp [BLink.single])
  leaf := iff_of_true (show ((ROOT_NODE ||| LEAF_NODE) &&& LEAF_NODE != 0#32) = true by decide) rfl
  size_le := Nat.zero_le _
  ascending i j _ hj := absurd hj (Nat.not_lt_zero j)
  buffSize := rfl
  value _ k v := by simp [BLink.single, rootLeaf]
  first h := absurd h (Nat.lt_irrefl 0)
  sep h := absurd h (Nat.lt_irrefl 0)
  kid h := absurd h (Nat.lt_irrefl 0)
  front h := absurd h (Nat.lt_irrefl 0)
  root := iff_of_true (show ((ROOT_NODE ||| LEAF_NODE) &&& ROOT_NODE != 0#32) = true by decide) rfl

lemma inv_init (L : Nat) (program : Tid → List Op) (skip : Prop) :
    Inv skip (init L program) (.single INITIAL_ROOT_OFFSET) (fun _ => none)
      fun _ => 0 where
  valid := by
    have horphans : (init L program).orphans = ∅ :=
      Set.eq_empty_of_forall_notMem fun c ⟨_, hc⟩ => hc.elim
    rw [horphans]
    exact BLink.valid_single _
  represents k v := by simp [BLink.Holds, BLink.single]
  rootMem := rfl
  rootTop := rfl
  locked := locked_init L program
  free := by
    show (1 : Nat) < 100 + NODE_SIZE L
    omega
  bounds o ho := by
    obtain rfl : o = 100 := ho
    show (1 : Nat) < 100 ∧ 100 < 100 + NODE_SIZE L
    unfold NODE_SIZE
    omega
  clean o ho _ := by
    obtain rfl : o = 100 := ho
    refine ⟨_, ?_, isNode_rootLeaf L⟩
    show Function.update (fun _ => none) INITIAL_ROOT_OFFSET (some (rootLeaf L))
      INITIAL_ROOT_OFFSET = _
    rw [Function.update_self]
  reserved t o ho := ho.elim
  apart t t' _ o ho := ho.elim
  orphansApart t t' _ c hc := hc.elim
  ok t := trivial

end System

end TiPI.BLinkTree
