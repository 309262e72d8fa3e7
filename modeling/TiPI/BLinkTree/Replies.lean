import TiPI.BLinkTree.Readers
import TiPI.BLinkTree.Sequential

/-!
# The tree as a map

A single thread is told by every read what its last write of the key has written, and zeros for a
key it has not written, whatever paths the writes take through leaves, splits and new roots.
-/

namespace TiPI.BLinkTree

variable {L : Nat} {T T' : Tree} {M M' : Key → Option Value} {m m' : Tid → Nat} {key : Key}

/-! ### What a map returns -/

/-- What an operation returns when the operations `before` have been made. -/
def Op.reply (before : List Op) : Op → Option Value
  | .write _ _ => none
  | .read key => some ((lastValue key (writes before)).getD (0, 0))

/-- The operations with what they return, when `before` have been made. -/
def replies (before : List Op) : List Op → List (Op × Option Value)
  | [] => []
  | op :: ops => (op, op.reply before) :: replies (before ++ [op]) ops

lemma replies_append (before ops ops' : List Op) :
    replies before (ops ++ ops') = replies before ops ++ replies (before ++ ops) ops' := by
  induction ops generalizing before with
  | nil => simp [replies]
  | cons op ops ih => simp [replies, ih]

def Op.ofWrite (w : Key × Value) : Op := .write w.1 w.2

lemma replies_ofWrite (before : List Op) (ws : List (Key × Value)) :
    replies before (ws.map Op.ofWrite) = ws.map fun w => (Op.ofWrite w, none) := by
  induction ws generalizing before with
  | nil => rfl
  | cons w ws ih =>
    rw [List.map_cons, replies, ih]
    rfl

lemma writes_ofWrite (ws : List (Key × Value)) : writes (ws.map Op.ofWrite) = ws := by
  induction ws with
  | nil => rfl
  | cons w ws ih =>
    show w :: writes (ws.map Op.ofWrite) = w :: ws
    rw [ih]

/-! ### What a leaf gives -/

/-- The key is found in the slot behind the live ones, with a value other than zeros. -/
def BTNode.DeadValue (node : BTNode L) (key : Key) : Prop :=
  node.DeadHit key ∧ node.valueBuff node.keyBuffSize ≠ (0, 0)

instance (node : BTNode L) (key : Key) : Decidable (node.DeadValue key) :=
  inferInstanceAs (Decidable (_ ∧ _))

/-- The leaf of a key gives its value, and zeros for none unless a dead slot has the key. -/
lemma Layout.valueByKey_eq {o : Offset} {node : BTNode L} (h : Layout T o node)
    (h0 : T.level o = 0) (hdead : ¬node.DeadValue key) :
    node.btnodeValueByKey key = (T.value o key).getD (0, 0) := by
  cases hv : T.value o key with
  | some v => exact h.valueByKey h0 hv
  | none =>
    have hmiss : ¬(node.fgoe key < node.keyBuffSize ∧ node.keyBuff (node.fgoe key) = key) := by
      intro hhit
      obtain ⟨v, hv'⟩ := (h.hit_iff h0).1 hhit
      exact absurd (hv.symm.trans hv') (by simp)
    have hle := (node.fgoe_lowerBound h.ascending key).le
    unfold BTNode.btnodeValueByKey
    simp only [Option.getD_none]
    split_ifs with hif
    · rfl
    · -- the key is in the slot behind the live ones
      obtain ⟨hkey, -⟩ := not_or.1 hif
      rw [not_ne_iff] at hkey
      have hsize : node.fgoe key = node.keyBuffSize :=
        le_antisymm hle (not_lt.1 fun hlt => hmiss ⟨hlt, hkey⟩)
      by_contra hne
      rw [hsize] at hkey hne
      exact hdead ⟨⟨hsize, hkey⟩, hne⟩

namespace Thread

/-- The thread's next step takes no value from a dead slot. -/
def Truthful (th : Thread L) : Prop := ∀ p ∈ th.ending, ¬p.2.DeadValue p.1

instance (th : Thread L) : Decidable th.Truthful :=
  inferInstanceAs (Decidable (∀ p ∈ th.ending, _))

def current (th : Thread L) : Option Op :=
  match th.job with
  | none => none
  | some (.write key value _) => some (.write key value)
  | some (.read key _) => some (.read key)

/-- The calls of the thread, in their order. -/
def calls (th : Thread L) : List Op := th.done.map Prod.fst ++ th.current.toList ++ th.todo

end Thread

lemma ThreadCase.calls_eq {t : Tid} {fresh : Memory} {s s' : Store L} {th th' : Thread L}
    (h : ThreadCase t fresh s th s' th') : th'.calls = th.calls := by
  cases h with
  | call op todo idle next =>
    cases op <;> simp [Thread.calls, Thread.current, idle, next, Op.call]
  | writeRet key value job => simp [Thread.calls, Thread.current, job]
  | readRet key res job => simp [Thread.calls, Thread.current, job]
  | write key value pc pc' _ job step => simp [Thread.calls, Thread.current, job]
  | read key pc pc' _ job step => simp [Thread.calls, Thread.current, job]

/-- The map stays what the writes leave that have taken effect. -/
lemma StepEffect.map_lastValue {th th' : Thread L} {j j' : Nat}
    (h : StepEffect False th th' T T' M M' j j') (hmap : ∀ key, M key = lastValue key th.effects)
    (key : Key) : M' key = lastValue key th'.effects := by
  rcases h.map with ⟨heff, -, rfl⟩ | ⟨key', value, val, heff, -, hval, rfl⟩
  · rw [heff, hmap]
  · obtain rfl : val = value := hval.resolve_left id
    rw [heff, lastValue_concat, ← hmap, Function.update_apply]
    simp only [eq_comm]

namespace System

variable {s s' : System L}

/-- The thread has been told what a map tells, and the map is what it has written. -/
structure Tells (ops : List Op) (s : System L) (M : Key → Option Value) : Prop where
  calls : (s.thread 0).calls = ops
  map : ∀ key, M key = lastValue key (s.thread 0).effects
  answer : ∀ key res, (s.thread 0).answer = some (key, res) → res = (M key).getD (0, 0)
  done : (s.thread 0).done = replies [] ((s.thread 0).done.map Prod.fst)

lemma tells_init (L : Nat) (ops : List Op) : Tells ops (init L (single ops)) fun _ => none where
  calls := rfl
  map key := rfl
  answer key res h := absurd h (by simp [init, Thread.answer])
  done := rfl

/-- A read ends in the leaf of its key, with the key's value. -/
lemma Sequential.answer {skip : Prop} (h : Sequential skip s T M m) {lock : Offset}
    {current : BTNode L} (hjob : (s.thread 0).job = some (.read key (.whileRight lock current)))
    (htruth : (s.thread 0).Truthful) : current.btnodeValueByKey key = (M key).getD (0, 0) := by
  obtain ⟨hmem, -, h0, hnode⟩ := h.inv.okRead hjob
  have hpath : (ReadPc.whileRight lock current).OnPath T key := by
    have hp := h.path
    rwa [Thread.OnPath, hjob] at hp
  have hdead : ¬current.DeadValue key :=
    htruth (key, current) (by simp [Thread.ending, ReadPc.ending, hjob])
  rw [hnode.valueByKey_eq h0 hdead,
    h.inv.represents.value_eq h.inv.valid hmem h0 (hpath.covers lock rfl)]

lemma Tells.step {ops : List Op} (h : Sequential False s T M m) (htells : Tells ops s M)
    {fresh : Memory} (hstep : s.step (0, fresh) = some s') (hlive : (s.thread 0).Live)
    (htruth : (s.thread 0).Truthful) {j j' : Nat}
    (heffect : StepEffect False (s.thread 0) (s'.thread 0) T T' M M' j j') :
    Tells ops s' M' := by
  have hmap := heffect.map_lastValue htells.map
  obtain ⟨store, th, hcase, rfl⟩ : ∃ store th, ThreadCase 0 fresh s.store (s.thread 0) store th ∧
      s' = { store := store, thread := Function.update s.thread 0 th } := step_cases hstep
  have hcalls := hcase.calls_eq.trans htells.calls
  have hno := h.inv.not_strays hcase hlive h.hasParent
  simp only [Function.update_self] at heffect hmap
  -- where no write takes effect the map stays
  have hsame : (∀ w, th.effects ≠ (s.thread 0).effects ++ [w]) → M' = M := by
    intro hno
    rcases heffect.map with ⟨-, -, hM⟩ | ⟨key, value, val, heff, -, -, -⟩
    · exact hM
    · exact absurd heff (hno (key, value))
  suffices hrest : (∀ key res, th.answer = some (key, res) → res = (M' key).getD (0, 0)) ∧
      th.done = replies [] (th.done.map Prod.fst) by
    refine ⟨?_, ?_, ?_, ?_⟩
    · simpa only [Function.update_self] using hcalls
    · simpa only [Function.update_self] using hmap
    · simpa only [Function.update_self] using hrest.1
    · simpa only [Function.update_self] using hrest.2
  cases hcase with
  | call op todo idle next =>
    refine ⟨fun key res hans => ?_, htells.done⟩
    cases op <;> exact absurd hans (by simp [Thread.answer, Op.call, ReadPc.answer])
  | writeRet key value job =>
    refine ⟨fun key res hans => absurd hans (by simp [Thread.answer]), ?_⟩
    rw [List.map_append, replies_append, ← htells.done]
    rfl
  | readRet key res job =>
    refine ⟨fun key res hans => absurd hans (by simp [Thread.answer]), ?_⟩
    have hans := htells.answer key res (by simp [Thread.answer, ReadPc.answer, job])
    have heffects : (s.thread 0).effects = writes ((s.thread 0).done.map Prod.fst) := by
      rw [writes, List.filterMap_map, Thread.effects, Thread.landed, job, List.append_nil]
      rfl
    rw [List.map_append, replies_append, ← htells.done]
    simp only [List.map_cons, List.map_nil, List.nil_append, replies, Op.reply]
    rw [← heffects, ← htells.map, ← hans]
  | write key value pc pc' _ job step =>
    exact ⟨fun key res hans => absurd hans (by simp [Thread.answer]), htells.done⟩
  | read key pc pc' _ job step =>
    have hM : M' = M := hsame fun w heff => by
      simp [Thread.effects, Thread.landed, job] at heff
    refine ⟨fun key' res hans => ?_, htells.done⟩
    rw [hM]
    simp only [Thread.Strays, job] at hno
    cases step with
    | whileRight lock current here =>
      obtain ⟨rfl, rfl⟩ : key = key' ∧ current.btnodeValueByKey key = res := by
        simpa [Thread.answer, ReadPc.answer] using hans
      exact h.answer job htruth
    | unLock lock val =>
      apply htells.answer
      rw [← hans]
      simp [Thread.answer, ReadPc.answer, job]
    | noChild lock current inner child => exact absurd ⟨inner, child⟩ hno
    | _ => exact absurd hans (by simp [Thread.answer, ReadPc.answer])

/-! ### Whole runs -/

/-- The next step of the thread does nothing a map must not do. -/
def Faithful (s : System L) : Prop :=
  ((s.thread 0).Live ∧ (s.thread 0).Copies) ∧ (s.thread 0).Stores ∧ (s.thread 0).Truthful

instance (s : System L) : Decidable s.Faithful := inferInstanceAs (Decidable ((_ ∧ _) ∧ _ ∧ _))

/-- A single thread that makes the calls makes all of them and is told what a map tells. -/
theorem alone_replies (hL : 0 < L) {ops : List Op} {mem : Nat → Memory}
    (hok : ∀ n s, alone L ops mem n = some s → s.Faithful) :
    ∃ n s, alone L ops mem n = some s ∧ (s.thread 0).job = none ∧ (s.thread 0).todo = [] ∧
      (s.thread 0).done = replies [] ops := by
  obtain ⟨n, s, hs, hjob, htodo⟩ := @alone_finishes L False hL ops mem fun n s hs => by
    obtain ⟨⟨hlive, hcopies⟩, hstores, -⟩ := hok n s hs
    exact ⟨rfl, hlive, hcopies, .inr hstores⟩
  obtain ⟨T, M, m, -, htells⟩ : ∃ T M m, Sequential False s T M m ∧ Tells ops s M := by
    refine trace_invariant (P := fun s => ∃ T M m, Sequential False s T M m ∧ Tells ops s M)
      (R := fun s a => a.1 = 0 ∧ s.Faithful)
      ⟨_, _, _, sequential_init L ops False, tells_init L ops⟩
      (fun n s hs => ⟨rfl, hok n s hs⟩) ?_ hs
    rintro s ⟨t, fresh⟩ s' ⟨T, M, m, h, htells⟩ ⟨rfl, ⟨hlive, hcopies⟩, hstores, htruth⟩ hstep
    obtain ⟨T', M', m', h', heffect, -⟩ := h.step hL hstep hlive hcopies (.inr hstores)
    exact ⟨T', M', m', h', htells.step h hstep hlive htruth heffect⟩
  refine ⟨n, s, hs, hjob, htodo, ?_⟩
  have hcalls := htells.calls
  rw [Thread.calls, Thread.current, hjob, htodo] at hcalls
  rw [htells.done, ← hcalls]
  simp

/-- After any writes a read returns the last value written to its key, and zeros if there is
none. -/
theorem read_last_write {L : Nat} (hL : 2 ≤ L) (ws : List (Key × Value)) (k : Key)
    (mem : Nat → Memory)
    (hok : ∀ n s, alone L (ws.map Op.ofWrite ++ [.read k]) mem n = some s → s.Faithful) :
    ∃ n s, alone L (ws.map Op.ofWrite ++ [.read k]) mem n = some s ∧
      (s.thread 0).job = none ∧ (s.thread 0).todo = [] ∧
      (s.thread 0).done = ws.map (fun w => (Op.ofWrite w, none)) ++
        [(.read k, some ((lastValue k ws).getD (0, 0)))] := by
  obtain ⟨n, s, hs, hjob, htodo, hdone⟩ := alone_replies (Nat.zero_lt_of_lt hL) hok
  refine ⟨n, s, hs, hjob, htodo, ?_⟩
  rw [hdone, replies_append, replies_ofWrite, List.nil_append, replies, replies, Op.reply,
    writes_ofWrite]

/-- The thread has returned from all its calls. -/
def finished (s : System L) : Bool := (s.thread 0).todo.isEmpty && (s.thread 0).job.isNone

/-- Every state of a run that is executed to its end meets the guard. -/
lemma forall_of_exec {ok : System L → Prop} [DecidablePred ok] {ops : List Op} {n : Nat}
    (hidle : ∀ s : System L, (s.thread 0).job = none → ok s)
    (h : (exec step (fun s _ => ok s) (init L (single ops))
      (List.replicate n (0, Watch.zeroed))).any finished = true) :
    ∀ i s, alone L ops (fun _ => Watch.zeroed) i = some s → ok s := by
  obtain ⟨r, hr, hfinished⟩ := (Option.any_eq_true _ _).1 h
  obtain ⟨htodo, hjob⟩ : (r.thread 0).todo = [] ∧ (r.thread 0).job = none := by
    simpa [finished] using hfinished
  obtain ⟨htrace, hguard⟩ := (Steps.of_exec hr).trace_eq (f := fun _ => (0, Watch.zeroed)) <| by
    intro i a hi
    obtain ⟨hlt, rfl⟩ := List.getElem?_eq_some_iff.1 hi
    rw [List.getElem_replicate]
  rw [List.length_replicate] at htrace hguard
  intro i s hs
  rcases Nat.lt_trichotomy i n with hlt | rfl | hlt
  · exact hguard i s hlt hs
  · obtain rfl := Option.some.inj (htrace.symm.trans hs)
    exact hidle _ hjob
  · have hstuck : step r (0, Watch.zeroed) = none := by
      simp [step, Thread.step, hjob, htodo]
    exact absurd (hs.symm.trans (trace_of_stuck htrace hstuck hlt)) (by simp)

lemma faithful_of_idle (s : System L) (h : (s.thread 0).job = none) : s.Faithful := by
  simp [Faithful, Thread.Live, Thread.Copies, Thread.Stores, Thread.Truthful, Thread.descent,
    Thread.splitting, Thread.storing, Thread.ending, h]

/-- Writes that split the root, and then overwrite a key. -/
def someWrites : List (Key × Value) :=
  [(10, (1, 0)), (20, (2, 0)), (30, (3, 0)), (40, (4, 0)), (50, (5, 0)), (20, (6, 0))]

theorem read_twenty : ∃ n s, alone 2 (someWrites.map Op.ofWrite ++ [.read 20])
      (fun _ => Watch.zeroed) n = some s ∧
    (s.thread 0).job = none ∧ (s.thread 0).todo = [] ∧
    (s.thread 0).done = someWrites.map (fun w => (Op.ofWrite w, none)) ++
      [(.read 20, some ((lastValue 20 someWrites).getD (0, 0)))] :=
  read_last_write (le_refl 2) someWrites 20 (fun _ => Watch.zeroed)
    (forall_of_exec (n := 96) faithful_of_idle (by decide +kernel))

/-- A leaf that is filled up before one of its keys is written again. -/
def fullLeaf : List (Key × Value) :=
  [(1, (1, 0)), (2, (2, 0)), (3, (3, 0)), (4, (4, 0)), (1, (7, 0))]

/-- The value written last is dropped: the read returns the first one. -/
theorem full_leaf_keeps : ∃ n, ∃ s : System 2, alone 2 (fullLeaf.map Op.ofWrite ++ [.read 1])
      (fun _ => Watch.zeroed) n = some s ∧
    (s.thread 0).job = none ∧ (s.thread 0).todo = [] ∧
    (s.thread 0).done = fullLeaf.map (fun w => (Op.ofWrite w, none)) ++
      [(.read 1, some (1, 0))] ∧ lastValue 1 fullLeaf = some (7, 0) := by
  have hrun : (alone 2 (fullLeaf.map Op.ofWrite ++ [.read 1]) (fun _ => Watch.zeroed) 68).any
      (fun s => finished s && decide ((s.thread 0).done =
        fullLeaf.map (fun w => (Op.ofWrite w, none)) ++ [(.read 1, some (1, 0))])) = true := by
    decide +kernel
  obtain ⟨s, hs, hend⟩ := (Option.any_eq_true _ _).1 hrun
  obtain ⟨⟨htodo, hjob⟩, hdone⟩ : ((s.thread 0).todo = [] ∧ (s.thread 0).job = none) ∧
      (s.thread 0).done = fullLeaf.map (fun w => (Op.ofWrite w, none)) ++
        [(.read 1, some (1, 0))] := by
    simpa [finished] using hend
  exact ⟨68, s, hs, hjob, htodo, hdone, rfl⟩

end System

end TiPI.BLinkTree
