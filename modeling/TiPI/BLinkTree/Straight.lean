import TiPI.BLinkTree.Threads
import TiPI.Lib.BLinkKids

/-!
# Straight down

When no other thread does anything a call goes straight down: every node it takes covers its key, so
it never moves to the right, and its stack reaches up to the root.
-/

namespace TiPI.BLinkTree

variable {L : Nat} {T T' : Tree} {M M' : Key → Option Value} {m m' : Tid → Nat} {skip : Prop}
  {key : Key} {value : Value} {k n : Nat}

/-! ### Where a call stands -/

namespace WritePc

/-- The nodes that cover the key: the one the call goes to, and its stack. -/
def path : WritePc L → List Offset
  | .rdLock stk o | .readNode stk o | .whileNotLeaf stk o _ | .unLockPrev stk _ o
  | .unLockLeaf stk o _ | .wrLockLeaf stk o _ | .readLeaf stk o _ => o :: stk
  | .isSafe stk _ _ => stk
  | .whileUnsafe v | .unLockChild _ v | .addNode v _ _ | .writeLeft v _ _ _ _
  | .writeRight v _ _ _ _ => v.stk
  | .wrLockParent v p | .readParent v p => p :: v.stk
  | _ => []

def movesRight : WritePc L → Bool
  | .unLockLeft _ _ _ | .unLockParent _ _ _ => true
  | _ => false

/-- The root is the one the call began at, and the stack leads there. -/
def rooted : WritePc L → Bool
  | .getRootOffset | .writeLeaf _ _ | .unLock _ | .writeParent _ | .writeRoot _ _ _ _
  | .unLockOldRoot _ _ | .unLockRoot _ | .topOfEmpty | .ret => false
  | _ => true

/-- The steps to the end of the call, at most, in a tree whose root is at level `top`. -/
def rest (top : Nat) : WritePc L → Nat
  | .getRootOffset => 18 + 11 * top
  | .rdLock stk _ => 17 + 7 * stk.length + 11 * (top - stk.length)
  | .readNode stk _ => 16 + 7 * stk.length + 11 * (top - stk.length)
  | .whileNotLeaf stk _ _ => 15 + 7 * stk.length + 11 * (top - stk.length)
  | .unLockPrev stk _ _ => 18 + 7 * stk.length + 11 * (top - stk.length)
  | .unLockLeaf stk _ _ => 14 + 7 * stk.length
  | .wrLockLeaf stk _ _ => 13 + 7 * stk.length
  | .readLeaf stk _ _ => 12 + 7 * stk.length
  | .isSafe stk _ _ => 11 + 7 * stk.length
  | .wrLockParent v _ => 16 + 7 * v.stk.length
  | .readParent v _ => 15 + 7 * v.stk.length
  | .addNode v _ _ => 14 + 7 * v.stk.length
  | .writeLeft v _ _ _ _ => 13 + 7 * v.stk.length
  | .writeRight v _ _ _ _ => 12 + 7 * v.stk.length
  | .unLockChild _ v => 11 + 7 * v.stk.length
  | .whileUnsafe v => 10 + 7 * v.stk.length
  | .addRootRight _ => 9
  | .writeRootLeft _ _ _ => 8
  | .writeRootRight _ _ _ => 7
  | .addRoot _ _ _ => 6
  | .wrLockRoot _ _ _ _ => 5
  | .setRootOffset _ _ _ _ => 4
  | .writeRoot _ _ _ _ => 3
  | .unLockOldRoot _ _ | .writeLeaf _ _ | .writeParent _ => 2
  | .unLockRoot _ | .unLock _ => 1
  | .unLockLeft _ _ _ | .unLockParent _ _ _ | .topOfEmpty | .ret => 0

structure OnPath (T : Tree) (key : Key) (k : Nat) (pc : WritePc L) : Prop where
  straight : pc.movesRight = false
  rooted : pc.rooted = true → k = T.top
  covers : ∀ p ∈ pc.path, T.Covers p key
  apart : ∀ prev v, pc = .unLockChild prev v → prev ∉ v.stk

end WritePc

namespace ReadPc

def path : ReadPc L → Option Offset
  | .rdLock _ o | .readNode _ o | .whileNotLeaf o _ | .whileRight o _ | .unLockPrev _ _ o => some o
  | _ => none

def movesRight : ReadPc L → Bool
  | .rdLock atLeaf _ | .readNode atLeaf _ | .unLockPrev atLeaf _ _ => atLeaf
  | _ => false

/-- The steps to the end of the call, at most. -/
def rest (T : Tree) : ReadPc L → Nat
  | .getRootOffset => 6 + 4 * T.top
  | .unLockPrev _ _ o => 6 + 4 * T.level o
  | .rdLock _ o => 5 + 4 * T.level o
  | .readNode _ o => 4 + 4 * T.level o
  | .whileNotLeaf o _ => 3 + 4 * T.level o
  | .whileRight _ _ => 2
  | .unLock _ _ => 1
  | .ret _ => 0

structure OnPath (T : Tree) (key : Key) (pc : ReadPc L) : Prop where
  straight : pc.movesRight = false
  covers : ∀ p ∈ pc.path, T.Covers p key

end ReadPc

namespace Thread

def OnPath (T : Tree) (k : Nat) (th : Thread L) : Prop :=
  match th.job with
  | none => True
  | some (.write key _ pc) => pc.OnPath T key k
  | some (.read key pc) => pc.OnPath T key

/-- The steps to the return of the call, at most. -/
def rest (T : Tree) (th : Thread L) : Nat :=
  match th.job with
  | none => 0
  | some (.write _ _ pc) => 1 + pc.rest T.top
  | some (.read _ pc) => 1 + pc.rest T

end Thread

/-! ### The steps of a call -/

section Case

variable {t : Tid} {fresh : Memory} {s s' : Store L}

lemma WriteCase.rooted {pc pc' : WritePc L} (h : WriteCase key value t fresh s pc s' pc')
    (hno : ¬pc.Strays key) (hroot : pc'.rooted = true) :
    pc.begins = true ∨ pc.rooted = true ∧ pc.grows = false := by
  cases h with
  | getRootOffset => exact .inl rfl
  | noChild stk lock current inner child => exact absurd ⟨inner, child⟩ hno
  | _ => first | exact .inr ⟨rfl, rfl⟩ | exact Bool.noConfusion hroot

/-- The root that a call is on its way to is the root after the step. -/
lemma WriteCase.depth_eq_top {pc pc' : WritePc L} (h : WriteCase key value t fresh s pc s' pc')
    (hno : ¬pc.Strays key) (hroot : pc'.rooted = true) (hk : pc.rooted = true → k = n) {k' n' : Nat}
    (htop : n' = if pc.grows then n + 1 else n) (hdepth : k' = if pc.begins then n else k) :
    k' = n' := by
  rw [hdepth, htop]
  rcases h.rooted hno hroot with hbegins | ⟨hrooted, hgrows⟩
  · cases pc with
    | getRootOffset => rfl
    | _ => exact Bool.noConfusion hbegins
  · rw [hgrows, hk hrooted]
    cases pc with
    | getRootOffset => exact Bool.noConfusion hrooted
    | _ => rfl

lemma WriteCase.rest_lt {pc pc' : WritePc L} (h : WriteCase key value t fresh s pc s' pc')
    (hno : ¬pc.Strays key) (hstraight : pc.movesRight = false)
    (hlength : ∀ stk lock current, pc = .whileNotLeaf stk lock current →
      current.btnodeFlag LEAF_NODE = false → stk.length < n) :
    pc'.rest (if pc.grows then n + 1 else n) < pc.rest n := by
  cases h with
  | noChild stk lock current inner child => exact absurd ⟨inner, child⟩ hno
  | topOfEmpty v full root empty => exact absurd ⟨full, root, empty⟩ hno
  | unLockLeft | unLockParent => exact Bool.noConfusion hstraight
  | toChild stk lock current inner child =>
    have hlt := hlength stk lock current rfl inner
    simp only [WritePc.rest, WritePc.grows, List.length_cons, Bool.false_eq_true, if_false]
    omega
  | popParent v full root p stk hstk =>
    simp only [WritePc.rest, hstk, List.length_cons]
    omega
  | getRootOffset | rdLock | readNode | unLockPrev =>
    simp only [WritePc.rest, WritePc.grows, Bool.false_eq_true, if_false, List.length_nil]
    omega
  | _ =>
    simp only [WritePc.rest, SplitVars.next]
    omega

end Case

/-- The nodes of a stack are in the tree, above the call's node. -/
lemma Stack.above {l : Nat} {stk : List Offset} (h : Stack T key k l stk) :
    ∀ p ∈ stk, p ∈ T.nodes ∧ l < T.level p := by
  induction stk generalizing l with
  | nil =>
    intro p hp
    exact absurd hp List.not_mem_nil
  | cons q stk ih =>
    obtain ⟨⟨hq, hlevel, -⟩, hstk⟩ := h
    intro p hp
    rcases List.mem_cons.1 hp with rfl | hp
    · exact ⟨hq, hlevel ▸ Nat.lt_succ_self l⟩
    · obtain ⟨hmem, hlt⟩ := ih hstk p hp
      exact ⟨hmem, (Nat.lt_succ_self l).trans hlt⟩

lemma Stack.ne {l : Nat} {stk : List Offset} {o : Offset} (h : Stack T key k l stk)
    (hle : T.level o ≤ l) : ∀ p ∈ stk, p ≠ o := by
  rintro p hp rfl
  exact absurd (h.above p hp).2 (not_lt.2 hle)

lemma Descent.path_mem {stk : List Offset} {o : Offset} (h : Descent T key k stk o) :
    ∀ p ∈ o :: stk, p ∈ T.nodes := by
  intro p hp
  rcases List.mem_cons.1 hp with rfl | hp
  · exact h.mem
  · exact (h.stack.above p hp).1

/-- The nodes of the stack stay apart from the two that a split has locked. -/
lemma SplitVars.Splits.stack_apart {v : SplitVars L} {q : Offset} (h : v.Splits T key k)
    (hq : T.level q = T.level v.lock + 1) : ∀ p ∈ v.stk, p ∈ T.nodes ∧ p ≠ q ∧ p ≠ v.lock := by
  intro p hp
  exact ⟨(h.stack.above p hp).1, h.stack.ne hq.le p hp, h.stack.ne (Nat.le_succ _) p hp⟩

/-- A node that covers a key does not send it to the right. -/
lemma IsNode.lt_highKey {o : Offset} {node : BTNode L} (h : IsNode T o node)
    (hcov : T.Covers o key) (hright : node.right ≠ INVALID_OFFSET) : key < node.highKey := by
  have hnext := h.next_eq hright
  rw [h.high _ hnext]
  exact hcov.2 _ hnext

namespace System

variable {s : System L}

/-- No thread but thread `0` has anything to do. -/
def Sole (s : System L) : Prop := ∀ t, t ≠ 0 → (s.thread t).job = none ∧ (s.thread t).todo = []

lemma Sole.orphans (h : s.Sole) : s.orphans = (s.thread 0).orphans := by
  ext c
  constructor
  · rintro ⟨t, ht⟩
    by_cases h0 : t = 0
    · exact h0 ▸ ht
    · simp [Thread.orphans, (h t h0).1] at ht
  · intro hc
    exact ⟨0, hc⟩

variable {pc pc' : WritePc L} {fresh : Memory} {store : Store L}

/-- The child that a call unlocks on its way up is not on its stack. -/
lemma Inv.write_apart (h : Inv skip s T M m)
    (hjob : (s.thread 0).job = some (.write key value pc))
    (hcase : WriteCase key value 0 fresh s.store pc store pc') (hno : ¬pc.Strays key) :
    ∀ prev v, pc' = .unLockChild prev v → prev ∉ v.stk := by
  have hok := h.okWrite hjob
  intro prev u hu
  cases hcase with
  | noChild stk lock current inner child => exact absurd ⟨inner, child⟩ hno
  | writeRight v q parent left right =>
    obtain ⟨hsplits, hparent, -⟩ := hok
    obtain ⟨rfl, rfl⟩ := WritePc.unLockChild.inj hu
    exact fun hmem => (hsplits.stack_apart hparent.level _ hmem).2.2 rfl
  | _ => cases hu

/-- A step of a call that is on its path: where it goes next. -/
lemma Inv.write_path (h : Inv skip s T M m) (hsole : s.Sole)
    (hjob : (s.thread 0).job = some (.write key value pc))
    (hcase : WriteCase key value 0 fresh s.store pc store pc') (hlive : pc.Live key)
    (hno : ¬pc.Strays key) (hpath : pc.OnPath T key k) :
    pc'.movesRight = false ∧
      ∀ p ∈ pc'.path, p ∈ T.nodes ∧ T.Covers p key ∧ p ∉ pc.writeLocks := by
  have hok := h.okWrite hjob
  have hvalid := hsole.orphans ▸ h.valid
  rw [(owned_eq hjob).2.1] at hvalid
  have hcovers := hpath.covers
  -- on the way down no node is locked for writing
  have hdown : ∀ {stk : List Offset} {o : Offset}, Descent T key (m 0) stk o →
      pc.path = o :: stk → pc.writeLocks = [] →
      ∀ p ∈ o :: stk, p ∈ T.nodes ∧ T.Covers p key ∧ p ∉ pc.writeLocks := by
    intro stk o hd heq hlocks p hp
    refine ⟨hd.path_mem p hp, hcovers p (heq ▸ hp), ?_⟩
    rw [hlocks]
    exact List.not_mem_nil
  -- on the way up the stack is apart from the split node and its parent
  have hup : ∀ {v : SplitVars L} {q : Offset}, v.Splits T key (m 0) →
      T.level q = T.level v.lock + 1 → (∀ p ∈ v.stk, p ∈ pc.path) →
      (∀ p ∈ pc.writeLocks, p = q ∨ p = v.lock) →
      ∀ p ∈ v.stk, p ∈ T.nodes ∧ T.Covers p key ∧ p ∉ pc.writeLocks := by
    intro v q hsplits hq hsub hlocks p hp
    obtain ⟨hmem, hpq, hpo⟩ := hsplits.stack_apart hq p hp
    refine ⟨hmem, hcovers p (hsub p hp), fun hlocked => ?_⟩
    rcases hlocks p hlocked with heq | heq
    · exact hpq heq
    · exact hpo heq
  cases hcase with
  | noChild stk lock current inner child => exact absurd ⟨inner, child⟩ hno
  | topOfEmpty v full root empty => exact absurd ⟨full, root, empty⟩ hno
  | unLockLeft | unLockParent => exact Bool.noConfusion hpath.straight
  | getRootOffset =>
    refine ⟨rfl, fun p hp => ?_⟩
    obtain rfl : p = s.store.file.root := by simpa [WritePc.path] using hp
    exact ⟨h.rootMem, h.valid.covers_top h.rootMem h.rootTop, List.not_mem_nil⟩
  | rdLock stk o => exact ⟨rfl, hdown hok rfl rfl⟩
  | readNode stk o => exact ⟨rfl, hdown hok rfl rfl⟩
  | unLockPrev stk prev o => exact ⟨rfl, hdown hok rfl rfl⟩
  | atLeaf stk o current => exact ⟨rfl, hdown hok.1 rfl rfl⟩
  | unLockLeaf stk lock o =>
    obtain ⟨rfl, hd, -⟩ := hok
    exact ⟨rfl, hdown hd rfl rfl⟩
  | wrLockLeaf stk lock o =>
    obtain ⟨rfl, hd, -⟩ := hok
    exact ⟨rfl, hdown hd rfl rfl⟩
  | toChild stk o current inner child =>
    obtain ⟨hd, hnode⟩ := hok
    have hcov := hcovers o (by simp [WritePc.path])
    obtain ⟨hkid, hlow, hgreatest⟩ := h.child hd.mem hd.low hnode inner (hlive current rfl inner)
    refine ⟨rfl, fun p hp => ?_⟩
    have hp' : p = current.btnodeChildByKey key ∨ p ∈ o :: stk := by
      simpa [WritePc.path, hnode.self] using hp
    rcases hp' with rfl | hp'
    · exact ⟨h.valid.kid_mem o hd.mem _ hkid,
        BLink.Valid.covers_kid hvalid hd.mem hkid hcov hlow hgreatest, List.not_mem_nil⟩
    · exact hdown hd rfl rfl p hp'
  | leafToRight stk o offset current read right high =>
    obtain ⟨rfl, hd, -⟩ := hok
    have hnode := h.readNode hd.mem (.inl (by simp [writeLocks_eq hjob, WritePc.writeLocks]))
      ((owned_eq hjob).2.2) read
    have hcov := hcovers offset (by simp [WritePc.path])
    exact absurd high (not_le.2 (hnode.lt_highKey hcov right))
  | readLeaf stk o offset current =>
    obtain ⟨rfl, hd, -⟩ := hok
    refine ⟨rfl, fun p hp => ?_⟩
    have hpo := hd.stack.ne le_rfl p hp
    exact ⟨(hd.stack.above p hp).1, hcovers p (List.mem_cons_of_mem _ hp),
      by simpa [WritePc.writeLocks] using hpo⟩
  | unsafeLeaf stk o current =>
    obtain ⟨hd, -⟩ := hok
    refine ⟨rfl, fun p hp => ?_⟩
    have hpo := hd.stack.ne le_rfl p hp
    exact ⟨(hd.stack.above p hp).1, hcovers p hp, by simpa [WritePc.writeLocks] using hpo⟩
  | popParent v full root q stk hstk =>
    obtain ⟨-, hstack⟩ := hok
    refine ⟨rfl, fun p hp => ?_⟩
    have hp' : p ∈ v.stk := hstk ▸ hp
    have hpo := hstack.ne le_rfl p hp'
    exact ⟨(hstack.above p hp').1, hcovers p hp', by simpa [WritePc.writeLocks] using hpo⟩
  | wrLockParent v q =>
    obtain ⟨hsplits, habove⟩ := hok
    refine ⟨rfl, fun p hp => ?_⟩
    rcases List.mem_cons.1 hp with rfl | hp
    · have hpo : p ≠ v.lock := by
        rintro rfl
        exact absurd habove.level (Nat.succ_ne_self _).symm
      exact ⟨habove.mem, hcovers p hp, by simpa [WritePc.writeLocks] using hpo⟩
    · exact hup hsplits habove.level (fun _ => List.mem_cons_of_mem q)
        (by simp [WritePc.writeLocks])
        p hp
  | parentToRight v q parent read right high =>
    obtain ⟨hsplits, habove⟩ := hok
    have hnode := h.readNode habove.mem (.inl (by simp [writeLocks_eq hjob, WritePc.writeLocks]))
      ((owned_eq hjob).2.2) read
    have hcov := h.valid.covers_above habove.mem hsplits.mem habove.level
      (hcovers q (by simp [WritePc.path])) hsplits.covers hsplits.coversAdd
    exact absurd high (not_le.2 (hnode.lt_highKey hcov right))
  | readParent v q parent =>
    obtain ⟨hsplits, habove⟩ := hok
    exact ⟨rfl, hup hsplits habove.level (fun _ => List.mem_cons_of_mem q)
      (by simp [WritePc.writeLocks])⟩
  | addNode v q parent =>
    obtain ⟨hsplits, hparent⟩ := hok
    exact ⟨rfl, hup hsplits hparent.level (fun _ hp => hp) (by simp [WritePc.writeLocks])⟩
  | writeLeft v q parent left right =>
    obtain ⟨hsplits, hparent, -⟩ := hok
    exact ⟨rfl, hup hsplits hparent.level (fun _ hp => hp) (by simp [WritePc.writeLocks])⟩
  | writeRight v q parent left right =>
    obtain ⟨hsplits, hparent, -⟩ := hok
    exact ⟨rfl, @hup v q hsplits hparent.level (fun _ hp => hp) (by simp [WritePc.writeLocks])⟩
  | unLockChild prev v =>
    obtain ⟨hready, hstack, -⟩ := hok
    refine ⟨rfl, fun p hp => ?_⟩
    have hpo := hstack.ne le_rfl p hp
    have hprev : p ≠ prev := fun heq => hpath.apart prev v rfl (heq ▸ hp)
    exact ⟨(hstack.above p hp).1, hcovers p hp,
      by simpa [WritePc.writeLocks] using ⟨hpo, hprev⟩⟩
  | _ => exact ⟨rfl, fun p hp => absurd hp List.not_mem_nil⟩

lemma Inv.read_path (h : Inv skip s T M m) (hsole : s.Sole) {rpc rpc' : ReadPc L}
    (hjob : (s.thread 0).job = some (.read key rpc))
    (hcase : ReadCase key 0 fresh s.store rpc store rpc') (hlive : rpc.Live key)
    (hpath : rpc.OnPath T key) :
    rpc'.movesRight = false ∧ (∀ p ∈ rpc'.path, p ∈ T.nodes ∧ T.Covers p key) ∧
      rpc'.rest T < rpc.rest T := by
  have hok := h.okRead hjob
  have hno := (h.read_ok hjob hcase hlive).2.2
  have hvalid := hsole.orphans ▸ h.valid
  rw [Thread.orphans, hjob] at hvalid
  have hcovers := hpath.covers
  have hstraight := hpath.straight
  have hgoes : ∀ o, o ∈ T.nodes → T.Covers o key → ∀ p ∈ some o, p ∈ T.nodes ∧ T.Covers p key := by
    intro o ho hcov p hp
    obtain rfl := Option.some.inj hp
    exact ⟨ho, hcov⟩
  cases hcase with
  | noChild lock current inner child => exact absurd ⟨inner, child⟩ hno
  | getRootOffset =>
    refine ⟨rfl, hgoes _ h.rootMem (h.valid.covers_top h.rootMem h.rootTop), ?_⟩
    simp only [ReadPc.rest, h.rootTop]
    omega
  | rdLock atLeaf o =>
    exact ⟨hstraight, hgoes o hok.1 (hcovers _ rfl), by simp [ReadPc.rest]⟩
  | readNode o current =>
    exact ⟨rfl, hgoes o hok.1 (hcovers _ rfl), by simp [ReadPc.rest]⟩
  | readLeaf => exact Bool.noConfusion hstraight
  | atLeaf o current =>
    refine ⟨rfl, hgoes o hok.1 (hcovers _ rfl), ?_⟩
    simp only [ReadPc.rest]
    omega
  | toChild o current inner child =>
    obtain ⟨hmem, hlow, hnode⟩ := hok
    obtain ⟨hkid, hkidlow, hgreatest⟩ := h.child hmem hlow hnode inner (hlive current rfl inner)
    have hlevel := h.valid.kid_level o hmem _ hkid
    have hcov := BLink.Valid.covers_kid hvalid hmem hkid (hcovers o rfl) hkidlow hgreatest
    refine ⟨rfl, hgoes _ (h.valid.kid_mem o hmem _ hkid) hcov, ?_⟩
    simp only [ReadPc.rest]
    omega
  | toRight o current right high =>
    obtain ⟨-, -, -, hnode⟩ := hok
    exact absurd high (hnode.lt_highKey (hcovers o rfl) right).not_gt
  | whileRight o current =>
    refine ⟨rfl, ?_, by simp [ReadPc.rest]⟩
    intro p hp
    exact absurd hp (by simp [ReadPc.path])
  | unLockPrev atLeaf prev o =>
    exact ⟨hstraight, hgoes o hok.1 (hcovers _ rfl), by simp [ReadPc.rest]⟩
  | unLock o res =>
    refine ⟨rfl, ?_, by simp [ReadPc.rest]⟩
    intro p hp
    exact absurd hp (by simp [ReadPc.path])

end System

end TiPI.BLinkTree
