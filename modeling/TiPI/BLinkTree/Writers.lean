import TiPI.BLinkTree.Leaves

/-!
# Concurrent writers

Threads that write different keys do not lose each other's writes, whatever the interleaving: when
all calls have returned, the leaf chain is the last write of every key. A call climbs the stack of
its descent; it finds the stack empty when its splits have come up to the node that was the root
when the call began and that is no longer the root.
-/

namespace TiPI.BLinkTree

variable {L : Nat} {T : Tree} {M : Key → Option Value} {m : Tid → Nat} {skip : Prop}
  {key : Key} {value : Value}

/-- The value that the last of the writes to a key leaves. -/
def lastValue (k : Key) (ws : List (Key × Value)) : Option Value :=
  ws.foldl (fun v w => if w.1 = k then some w.2 else v) none

lemma lastValue_concat (k : Key) (ws : List (Key × Value)) (w : Key × Value) :
    lastValue k (ws ++ [w]) = if w.1 = k then some w.2 else lastValue k ws := by
  rw [lastValue, List.foldl_append]
  rfl

lemma exists_of_lastValue {k : Key} {ws : List (Key × Value)} {v : Value}
    (h : lastValue k ws = some v) : (k, v) ∈ ws := by
  induction ws using List.reverseRecOn with
  | nil => simp [lastValue] at h
  | append_singleton ws w ih =>
    rw [lastValue_concat] at h
    split_ifs at h with hw
    · obtain rfl := Option.some.inj h
      exact List.mem_append_right _ (by simp [← hw])
    · exact List.mem_append_left _ (ih h)

/-- What the calls of a thread write, in their order. -/
def writes (ops : List Op) : List (Key × Value) := ops.filterMap Op.put

/-- No two threads write the same key. -/
def Exclusive (program : Tid → List Op) : Prop :=
  ∀ t t', t ≠ t' → ∀ k v v', (k, v) ∈ writes (program t) → (k, v') ∉ writes (program t')

lemma exclusive_of_two {program : Tid → List Op} (hrest : ∀ t, program (t + 2) = [])
    (h : ∀ w ∈ writes (program 0), ∀ w' ∈ writes (program 1), w.1 ≠ w'.1) :
    Exclusive program := by
  intro t t' hne k v v' hk hk'
  match t, t' with
  | 0, 0 | 1, 1 => exact hne rfl
  | 0, 1 => exact h _ hk _ hk' rfl
  | 1, 0 => exact h _ hk' _ hk rfl
  | _, t' + 2 => simp [hrest, writes] at hk'
  | t + 2, _ => simp [hrest, writes] at hk

/-! ### The map -/

/-- The map is what the threads have written. -/
structure Written (program : Tid → List Op) (s : System L) (M : Key → Option Value) : Prop where
  total : ∀ t, (s.thread t).effects ++ (s.thread t).pending = writes (program t)
  map : ∀ k v, M k = some v ↔ ∃ t, lastValue k (s.thread t).effects = some v

lemma written_init (L : Nat) (program : Tid → List Op) :
    Written program (System.init L program) fun _ => none where
  total t := rfl
  map k v := by
    refine iff_of_false (by simp) ?_
    rintro ⟨t, ht⟩
    exact absurd ht (by simp [System.init, Thread.effects, Thread.landed, lastValue])

lemma Written.step {program : Tid → List Op} (hex : Exclusive program) {s s' : System L} {a : Act}
    {T' : Tree} {M' : Key → Option Value} {k k' : Nat} (h : Written program s M)
    (hstep : s.step a = some s')
    (heffect : StepEffect False (s.thread a.1) (s'.thread a.1) T T' M M' k k') :
    Written program s' M' := by
  have hother : ∀ t, t ≠ a.1 → s'.thread t = s.thread t := fun t ht => System.step_thread hstep ht
  rcases heffect.map with ⟨heff, hpend, rfl⟩ | ⟨key, value, val, heff, hpend, hval, rfl⟩
  · have hsame : ∀ t, (s'.thread t).effects = (s.thread t).effects ∧
        (s'.thread t).pending = (s.thread t).pending := by
      intro t
      by_cases ht : t = a.1
      · rw [ht]
        exact ⟨heff, hpend⟩
      · rw [hother t ht]
        exact ⟨rfl, rfl⟩
    refine ⟨fun t => ?_, fun k v => ?_⟩
    · rw [(hsame t).1, (hsame t).2]
      exact h.total t
    · simp only [(hsame _).1]
      exact h.map k v
  · obtain rfl : val = value := hval.resolve_left id
    refine ⟨fun t => ?_, fun k v => ?_⟩
    · by_cases ht : t = a.1
      · rw [ht, heff, ← h.total a.1, hpend]
        simp
      · rw [hother t ht]
        exact h.total t
    · have hmine : (key, val) ∈ writes (program a.1) := by
        rw [← h.total a.1, hpend]
        simp
      have hlast : ∀ t, lastValue k (s'.thread t).effects =
          if t = a.1 ∧ key = k then some val else lastValue k (s.thread t).effects := by
        intro t
        by_cases ht : t = a.1
        · subst ht
          rw [heff, lastValue_concat]
          simp
        · rw [hother t ht]
          simp [ht]
      by_cases hk : key = k
      · subst hk
        rw [Function.update_self]
        -- only thread `a.1` writes the key
        constructor
        · intro hv
          exact ⟨a.1, by rw [hlast]; simpa using hv⟩
        · rintro ⟨t, ht⟩
          by_cases hta : t = a.1
          · rw [hlast, if_pos ⟨hta, rfl⟩] at ht
            exact ht
          · rw [hlast, if_neg fun hc => hta hc.1] at ht
            have hmem := exists_of_lastValue ht
            have : (key, v) ∈ writes (program t) := by
              rw [← h.total t]
              exact List.mem_append_left _ hmem
            exact absurd this (hex a.1 t (Ne.symm hta) key val v hmine)
      · rw [Function.update_of_ne (Ne.symm hk), h.map]
        refine exists_congr fun t => ?_
        rw [hlast, if_neg fun hc => hk hc.2]

/-! ### How far a call has climbed -/

/-- A system with counters: how often the root was split so far, how often when each thread's call
read the root offset, and how many nodes that call has split below the root since. -/
structure Watch (L : Nat) where
  sys : System L
  height : Nat := 0
  began : Tid → Nat := fun _ => 0
  passes : Tid → Nat := fun _ => 0

def WritePc.splits : WritePc L → Bool
  | .writeRight _ _ _ _ _ => true
  | _ => false

def Thread.splits (th : Thread L) : Bool :=
  match th.job with
  | some (.write _ _ pc) => pc.splits
  | _ => false

/-- The counters as far as the places of a call say. -/
def WritePc.Climbed (passes began : Nat) : WritePc L → Prop
  | .rdLock _ _ | .readNode _ _ | .whileNotLeaf _ _ _ | .unLockPrev _ _ _ | .unLockLeaf _ _ _
  | .wrLockLeaf _ _ _ | .readLeaf _ _ _ | .unLockLeft _ _ _ | .isSafe _ _ _ => passes = 0
  | .whileUnsafe v | .unLockChild _ v => passes + v.stk.length = began
  | .wrLockParent v _ | .readParent v _ | .unLockParent v _ _ | .addNode v _ _
  | .writeLeft v _ _ _ _ | .writeRight v _ _ _ _ => passes + 1 + v.stk.length = began
  | _ => True

def Thread.Climbed (passes began : Nat) (th : Thread L) : Prop :=
  match th.job with
  | some (.write _ _ pc) => pc.Climbed passes began
  | _ => True

lemma WriteCase.climbed {t : Tid} {fresh : Memory} {s s' : Store L} {pc pc' : WritePc L}
    (h : WriteCase key value t fresh s pc s' pc') (hno : ¬pc.Strays key) {passes began k : Nat}
    (hstk : ∀ stk lock current, pc = .isSafe stk lock current → stk.length = began)
    (hc : pc.Climbed passes began) :
    pc'.Climbed (if pc.begins then 0 else if pc.splits then passes + 1 else passes)
      (if pc.begins then k else began) := by
  cases h with
  | noChild stk lock current inner child => exact absurd ⟨inner, child⟩ hno
  | topOfEmpty => trivial
  | unsafeLeaf stk lock current full =>
    have hp : passes = 0 := hc
    have hlen := hstk stk lock current rfl
    show passes + stk.length = began
    omega
  | popParent v full root p stk top =>
    have hp : passes + v.stk.length = began := hc
    show passes + 1 + stk.length = began
    rw [top, List.length_cons] at hp
    omega
  | getRootOffset => rfl
  | _ => first | exact hc | trivial

namespace Watch

def init (L : Nat) (program : Tid → List Op) : Watch L where
  sys := .init L program

def step (w : Watch L) (a : Act) : Option (Watch L) :=
  (w.sys.step a).map fun sys =>
    let th := w.sys.thread a.1
    { sys := sys
      height := if th.grows then w.height + 1 else w.height
      began := if th.begins then Function.update w.began a.1 w.height else w.began
      passes := if th.begins then Function.update w.passes a.1 0
        else if th.splits then Function.update w.passes a.1 (w.passes a.1 + 1)
        else w.passes }

/-- A call that has split as many nodes as the tree had levels above the leaves when it began finds
the node it is at to be the root, or to have room. -/
def RootKept (w : Watch L) (t : Tid) : Prop :=
  ∀ v ∈ (w.sys.thread t).climbing, v.current.keyBuffSize = 2 * L →
    w.passes t = w.began t → v.current.btnodeFlag ROOT_NODE = true

instance (w : Watch L) (t : Tid) : Decidable (w.RootKept t) :=
  inferInstanceAs (Decidable (∀ v ∈ (w.sys.thread t).climbing, _))

/-- The next step of the thread does nothing a write must not do. -/
def Sound (w : Watch L) (a : Act) : Prop :=
  ((w.sys.thread a.1).Live ∧ (w.sys.thread a.1).Copies) ∧ (w.sys.thread a.1).Stores ∧
    w.RootKept a.1

instance (w : Watch L) (a : Act) : Decidable (w.Sound a) :=
  inferInstanceAs (Decidable ((_ ∧ _) ∧ _ ∧ _))

/-- The counters agree with a tree for which the invariant of the threads holds. -/
structure Kept (w : Watch L) (T : Tree) (M : Key → Option Value) : Prop where
  sys : System.Inv False w.sys T M w.began
  height : T.top = w.height
  climbed : ∀ t, (w.sys.thread t).Climbed (w.passes t) (w.began t)

structure Inv (program : Tid → List Op) (w : Watch L) (T : Tree) (M : Key → Option Value) :
    Prop where
  sys : System.Inv False w.sys T M w.began
  height : T.top = w.height
  climbed : ∀ t, (w.sys.thread t).Climbed (w.passes t) (w.began t)
  written : Written program w.sys M

/-- The stack of a call is empty exactly when its splits have come to the level of the root at
which it began. -/
lemma stk_empty_iff {w : Watch L} {t : Tid} (h : (w.sys.thread t).Climbed (w.passes t) (w.began t))
    {v : SplitVars L} (hv : v ∈ (w.sys.thread t).climbing) :
    v.stk = [] ↔ w.passes t = w.began t := by
  unfold Thread.climbing at hv
  split at hv
  · next key value pc hjob =>
    rw [Thread.Climbed, hjob] at h
    cases pc with
    | whileUnsafe u =>
      obtain rfl : u = v := Option.some.inj hv
      have hlen : w.passes t + u.stk.length = w.began t := h
      rw [← List.length_eq_zero_iff]
      omega
    | _ => exact absurd hv (by simp [WritePc.climbing])
  · exact absurd hv (by simp)

lemma RootKept.hasParent {w : Watch L} {t : Tid}
    (h : (w.sys.thread t).Climbed (w.passes t) (w.began t)) (hkept : w.RootKept t) :
    (w.sys.thread t).HasParent := by
  intro v hv hfull hroot hstk
  rw [hkept v hv hfull ((stk_empty_iff h hv).1 hstk)] at hroot
  exact Bool.noConfusion hroot

lemma kept_init (L : Nat) (program : Tid → List Op) :
    Kept (init L program) (.single INITIAL_ROOT_OFFSET) fun _ => none where
  sys := System.inv_init L program False
  height := rfl
  climbed _ := trivial

lemma Kept.step (hL : 0 < L) {w w' : Watch L} {a : Act} (h : Kept w T M) (hsound : w.Sound a)
    (hstep : w.step a = some w') :
    ∃ T' M', Kept w' T' M' ∧ StepEffect False (w.sys.thread a.1) (w'.sys.thread a.1) T T' M M'
      (w.began a.1) (w'.began a.1) := by
  obtain ⟨sys', hsys, rfl⟩ := Option.map_eq_some_iff.1 hstep
  obtain ⟨⟨hlive, hcopies⟩, hstores, hkept⟩ := hsound
  have hparent := hkept.hasParent (h.climbed a.1)
  obtain ⟨T', M', m', hinv, hm, heffect⟩ :=
    h.sys.step hL hsys hlive hcopies hparent (.inr hstores)
  -- the levels at which the calls began are the counters
  have hbegan : m' = if (w.sys.thread a.1).begins then Function.update w.began a.1 w.height
      else w.began := by
    funext t
    by_cases ht : t = a.1
    · subst ht
      rw [heffect.depth, h.height]
      split_ifs <;> simp
    · rw [hm t ht]
      split_ifs
      · rw [Function.update_of_ne ht]
      · rfl
  subst hbegan
  refine ⟨T', M', ⟨hinv, ?_, fun t => ?_⟩, heffect⟩
  · rw [heffect.top, h.height]
  · obtain ⟨store, th, hcase, rfl⟩ := System.step_cases hsys
    have hno := h.sys.not_strays hcase hlive hparent
    by_cases ht : t = a.1
    · subst ht
      have hclimbed := h.climbed a.1
      simp only [Function.update_self]
      cases hcase with
      | call op todo idle next => cases op <;> trivial
      | writeRet key value job => trivial
      | readRet key res job => trivial
      | read key pc pc' _ job step => trivial
      | write key value pc pc' _ job step =>
        simp only [Thread.Climbed, job] at hclimbed
        simp only [Thread.Strays, job] at hno
        have hbegins : (w.sys.thread a.1).begins = pc.begins := by rw [Thread.begins, job]
        have hsplits : (w.sys.thread a.1).splits = pc.splits := by rw [Thread.splits, job]
        have hnext := step.climbed hno (k := w.height) (fun stk lock current hpc => by
          subst hpc
          obtain ⟨hdesc, h0, -⟩ := h.sys.okWrite job
          have hlen := hdesc.stack.length
          omega) hclimbed
        rw [hbegins, hsplits]
        simp only [Thread.Climbed]
        convert hnext using 1
        · split_ifs <;> simp
        · split_ifs <;> simp
    · simp only [Function.update_of_ne ht]
      have hclimbed := h.climbed t
      convert hclimbed using 1
      · split_ifs <;> simp [ht]
      · split_ifs <;> simp [ht]

lemma step_sys {w w' : Watch L} {a : Act} (hstep : w.step a = some w') :
    w.sys.step a = some w'.sys := by
  obtain ⟨sys', hsys, rfl⟩ := Option.map_eq_some_iff.1 hstep
  exact hsys

lemma inv_init (L : Nat) (program : Tid → List Op) :
    Inv program (init L program) (.single INITIAL_ROOT_OFFSET) fun _ => none where
  sys := (kept_init L program).sys
  height := rfl
  climbed := (kept_init L program).climbed
  written := written_init L program

lemma Inv.step {program : Tid → List Op} (hex : Exclusive program) (hL : 0 < L) {w w' : Watch L}
    {a : Act} (h : Inv program w T M) (hsound : w.Sound a) (hstep : w.step a = some w') :
    ∃ T' M', Inv program w' T' M' := by
  obtain ⟨T', M', hkept, heffect⟩ := Kept.step hL ⟨h.sys, h.height, h.climbed⟩ hsound hstep
  exact ⟨T', M', hkept.sys, hkept.height, hkept.climbed,
    h.written.step hex (step_sys hstep) heffect⟩

/-- Writers of different keys: whatever the interleaving, no call takes the top of an empty stack,
and when all calls have returned the leaf chain lists every written key once, in ascending order,
with the last value its thread wrote. -/
theorem writers_lose_nothing {L : Nat} (hL : 0 < L) {program : Tid → List Op}
    (hex : Exclusive program) {w : Watch L} (h : Run step Sound (init L program) w) :
    (∀ t key value, (w.sys.thread t).job ≠ some (.write key value .topOfEmpty)) ∧
    ((∀ t, (w.sys.thread t).todo = [] ∧ (w.sys.thread t).job = none) →
      ∃ n entries, (∀ fuel, n ≤ fuel → w.sys.store.file.leafChain fuel = some entries) ∧
        (entries.Pairwise fun x y => x.1 < y.1) ∧
        ∀ k v, (k, v) ∈ entries ↔ ∃ t, lastValue k (writes (program t)) = some v) := by
  obtain ⟨T, M, hinv⟩ : ∃ T M, Inv program w T M :=
    Run.invariant (P := fun w => ∃ T M, Inv program w T M) h ⟨_, _, inv_init L program⟩
      fun _ _ _ ⟨_, _, hs⟩ hsound hstep => hs.step hex hL hsound hstep
  refine ⟨fun t key value hjob => ?_, fun hret => ?_⟩
  · exact hinv.sys.okWrite hjob
  · have hrest : ∀ t, (w.sys.thread t).orphans = ∅ ∧ (w.sys.thread t).dirty = ∅ := fun t => by
      simp [Thread.orphans, Thread.dirty, (hret t).2]
    obtain ⟨n, entries, hchain, hpair, hmem⟩ :=
      (hinv.sys.atRest hrest).leafChain hinv.sys.represents
    refine ⟨n, entries, hchain, hpair, fun k v => ?_⟩
    have heffects : ∀ t, (w.sys.thread t).effects = writes (program t) := fun t => by
      rw [← hinv.written.total t, Thread.pending, Thread.landed, (hret t).1, (hret t).2]
      simp
    rw [hmem, hinv.written.map]
    simp only [heffects]

/-- A thread that has nothing to do never does anything. -/
lemma thread_of_empty {program : Tid → List Op} {ok : Watch L → Act → Prop} {w : Watch L}
    (h : Run step ok (init L program) w) {t : Tid} (ht : program t = []) :
    (w.sys.thread t).todo = [] ∧ (w.sys.thread t).job = none := by
  refine Run.invariant
    (P := fun w : Watch L => (w.sys.thread t).todo = [] ∧ (w.sys.thread t).job = none) h
    ⟨ht, rfl⟩ fun w a w' hw _ hstep => ?_
  obtain ⟨sys', hsys, rfl⟩ := Option.map_eq_some_iff.1 hstep
  by_cases hta : t = a.1
  · subst hta
    simp [System.step, Thread.step, hw.1, hw.2] at hsys
  · simp only [System.step_thread hsys hta]
    exact hw

/-- Thread `1` reads the root, thread `0` splits it, thread `1` finds its leaf to the right. -/
def twoWriters : Tid → List Op
  | 0 => [.write 1 (1, 0), .write 2 (2, 0), .write 3 (3, 0), .write 4 (4, 0), .write 6 (6, 0)]
  | 1 => [.write 5 (5, 0)]
  | _ => []

def zeroed : Memory := fun _ => 0

def twoWritersRun : List Act :=
  List.replicate 6 (1, zeroed) ++ List.replicate 68 (0, zeroed) ++ List.replicate 9 (1, zeroed)

def returned (w : Watch L) (t : Tid) : Bool :=
  (w.sys.thread t).todo.isEmpty && (w.sys.thread t).job.isNone

theorem writers_lose_nothing_two : ∃ w : Watch 2, Run step Sound (init 2 twoWriters) w ∧
    ∃ n entries, (∀ fuel, n ≤ fuel → w.sys.store.file.leafChain fuel = some entries) ∧
      (entries.Pairwise fun x y => x.1 < y.1) ∧ (5, (5, 0)) ∈ entries := by
  obtain ⟨w, hrun, h0, h1⟩ : ∃ w : Watch 2, Run step Sound (init 2 twoWriters) w ∧
      (returned w 0 = true ∧ returned w 1 = true) :=
    exists_of_exec twoWritersRun (by decide +kernel)
  have hret : ∀ t, (w.sys.thread t).todo = [] ∧ (w.sys.thread t).job = none := by
    intro t
    match t with
    | 0 => simpa [returned] using h0
    | 1 => simpa [returned] using h1
    | t + 2 => exact thread_of_empty hrun rfl
  have hex : Exclusive twoWriters := exclusive_of_two (fun _ => rfl) (by decide)
  obtain ⟨n, entries, hchain, hpair, hmem⟩ :=
    (writers_lose_nothing Nat.two_pos hex hrun).2 hret
  exact ⟨w, hrun, n, entries, hchain, hpair, (hmem _ _).2 ⟨1, rfl⟩⟩

/-- Thread `1` reads the root, a leaf; thread `0` splits it and fills its left half again. -/
def refilled : Tid → List Op
  | 0 => [.write 10 (1, 0), .write 20 (2, 0), .write 30 (3, 0), .write 40 (4, 0), .write 50 (5, 0),
      .write 5 (6, 0), .write 15 (7, 0)]
  | 1 => [.write 12 (8, 0)]
  | _ => []

def refilledRun : List Act :=
  List.replicate 6 (1, zeroed) ++ List.replicate 100 (0, zeroed) ++ List.replicate 4 (1, zeroed)

def atTop : WritePc L → Bool
  | .topOfEmpty => true
  | _ => false

def takesTop (s : System L) (t : Tid) : Bool :=
  match (s.thread t).job with
  | some (.write _ _ pc) => atTop pc
  | _ => false

lemma exists_of_takesTop {s : System L} {t : Tid} (h : takesTop s t = true) :
    ∃ key value, (s.thread t).job = some (.write key value .topOfEmpty) := by
  unfold takesTop at h
  rcases hjob : (s.thread t).job with _ | ⟨key, value, pc⟩ | ⟨key, pc⟩ <;>
    simp only [hjob, reduceCtorEq] at h
  cases pc with
  | topOfEmpty => exact ⟨key, value, rfl⟩
  | _ => exact Bool.noConfusion h

/-- A writer takes the top of an empty stack. -/
theorem top_of_empty_taken : ∃ program : Tid → List Op, Exclusive program ∧
    ∃ s : System 2, Reach System.step (.init 2 program) s ∧
      ∃ t key value, (s.thread t).job = some (.write key value .topOfEmpty) := by
  obtain ⟨s, hrun, htop⟩ : ∃ s : System 2, Reach System.step (.init 2 refilled) s ∧
      takesTop s 1 = true :=
    exists_of_exec refilledRun (by decide +kernel)
  exact ⟨refilled, exclusive_of_two (fun _ => rfl) (by decide), s, hrun, 1,
    exists_of_takesTop htop⟩

end Watch

end TiPI.BLinkTree
