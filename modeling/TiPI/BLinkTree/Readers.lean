import TiPI.BLinkTree.Writers

/-!
# Readers among writers

A read that begins when the last write of its key has returned finds that write, whatever the
writers of other keys do meanwhile, as long as it does not end in a leaf whose high key is the key:
the reader stays there, and the key is in the leaf to the right.
-/

namespace TiPI.BLinkTree

variable {L : Nat} {T T' : Tree} {M M' : Key → Option Value} {m m' : Tid → Nat} {skip : Prop}
  {key k : Key} {value v : Value}

/-! ### The value in a leaf -/

/-- The leaf of a key that has a value gives the value. -/
lemma Layout.valueByKey {o : Offset} {node : BTNode L} (h : Layout T o node) (h0 : T.level o = 0)
    (hv : T.value o key = some v) : node.btnodeValueByKey key = v := by
  obtain ⟨hlt, hkey⟩ := (h.hit_iff h0).2 ⟨v, hv⟩
  obtain ⟨i, hi, hik, hval⟩ := (h.value h0 key v).1 hv
  have hslot : node.fgoe key = i := h.ascending.injective hlt hi (hkey.trans hik.symm)
  have hleaf := h.leaf.2 h0
  have hhit : ¬(node.keyBuff (node.fgoe key) ≠ key ∨ (!node.btnodeFlag LEAF_NODE) = true) := by
    rw [hkey, hleaf]
    simp
  rw [BTNode.btnodeValueByKey]
  simp only [hhit, if_false]
  rw [hslot, hval]

/-! ### What a thread is at -/

/-- The leaf that a read has come to. -/
def ReadPc.ending : ReadPc L → Option (BTNode L)
  | .whileRight _ current => some current
  | _ => none

/-- The value that a read is about to return. -/
def ReadPc.answer : ReadPc L → Option Value
  | .unLock _ res | .ret res => some res
  | _ => none

namespace Thread

/-- The call that the thread has just begun. -/
def entering (th : Thread L) : Option Op :=
  match th.job with
  | some (.write key value .getRootOffset) => some (.write key value)
  | some (.read key .getRootOffset) => some (.read key)
  | _ => none

lemma job_of_entering {th : Thread L} (h : th.entering = some (.write key value)) :
    th.job = some (.write key value .getRootOffset) := by
  unfold entering at h
  split at h
  · next key' value' hjob =>
    obtain ⟨rfl, rfl⟩ : key' = key ∧ value' = value := by simpa using h
    exact hjob
  · exact absurd h (by simp)
  · exact absurd h (by simp)

/-- The call that the thread's next step begins. -/
def calling (th : Thread L) : Option Op :=
  match th.job with
  | none => th.todo.head?
  | some _ => none

/-- The key of the write that the thread is in. -/
def writing (th : Thread L) : Option Key :=
  match th.job with
  | some (.write key _ _) => some key
  | _ => none

def ending (th : Thread L) : Option (Key × BTNode L) :=
  match th.job with
  | some (.read key pc) => pc.ending.map (key, ·)
  | _ => none

def answer (th : Thread L) : Option (Key × Value) :=
  match th.job with
  | some (.read key pc) => pc.answer.map (key, ·)
  | _ => none

/-- The thread's next step begins no write of the key. -/
def Spares (key : Key) (th : Thread L) : Prop := ∀ p ∈ th.calling.bind Op.put, p.1 ≠ key

instance (key : Key) (th : Thread L) : Decidable (th.Spares key) :=
  inferInstanceAs (Decidable (∀ p ∈ th.calling.bind Op.put, _))

/-- The thread's next step ends no read in a leaf whose high key is the key that is read. -/
def Inside (th : Thread L) : Prop :=
  ∀ p ∈ th.ending, p.2.right ≠ INVALID_OFFSET → p.2.highKey ≠ p.1

instance (th : Thread L) : Decidable th.Inside :=
  inferInstanceAs (Decidable (∀ p ∈ th.ending, _))

end Thread

section Case

variable {th th' : Thread L} {t : Tid} {fresh : Memory} {s s' : Store L}

/-- Only a step of a write takes effect, and the write is its thread's. -/
lemma ThreadCase.lands (h : ThreadCase t fresh s th s' th') {w : Key × Value}
    (heff : th'.effects = th.effects ++ [w]) :
    ∃ pc pc', th.job = some (.write w.1 w.2 pc) ∧
      th' = { th with job := some (.write w.1 w.2 pc') } := by
  cases h with
  | call op todo idle next =>
    have hsame : ({ th with todo := todo, job := some op.call } : Thread L).effects =
        th.effects := by
      cases op <;> simp [Thread.effects, Thread.landed, idle, Op.call, WritePc.stored]
    rw [hsame] at heff
    exact absurd heff (by simp)
  | writeRet key value job =>
    simp [Thread.effects, Thread.landed, job, Op.put, WritePc.stored] at heff
  | readRet key res job =>
    simp [Thread.effects, Thread.landed, job, Op.put] at heff
  | write key value pc pc' _ job step =>
    cases hpc : pc.stored <;> cases hpc' : pc'.stored <;>
      simp [Thread.effects, Thread.landed, job, hpc, hpc'] at heff
    subst heff
    exact ⟨pc, pc', job, rfl⟩
  | read key pc pc' _ job step =>
    simp [Thread.effects, Thread.landed, job] at heff

lemma ThreadCase.writing_ne (h : ThreadCase t fresh s th s' th') (hspares : th.Spares k)
    (hno : th.writing ≠ some k) : th'.writing ≠ some k := by
  cases h with
  | call op todo idle next =>
    cases op with
    | write key value =>
      have hne : key ≠ k := hspares (key, value) (by simp [Thread.calling, idle, next, Op.put])
      simpa [Thread.writing, Op.call] using hne
    | read key => simp [Thread.writing, Op.call]
  | writeRet key value job => simp [Thread.writing]
  | readRet key res job => simp [Thread.writing]
  | write key value pc pc' _ job step => simpa [Thread.writing, job] using hno
  | read key pc pc' _ job step => simp [Thread.writing]

end Case

namespace Watch

/-- What a step does to the value of one key. -/
lemma Kept.map_eq {w w' : Watch L} {a : Act} {j j' : Nat} (hstep : w.step a = some w')
    (heffect : StepEffect False (w.sys.thread a.1) (w'.sys.thread a.1) T T' M M' j j')
    (hno : (w.sys.thread a.1).writing ≠ some k) : M' k = M k := by
  obtain ⟨store, th, hcase, hsys⟩ := System.step_cases (step_sys hstep)
  rcases heffect.map with ⟨-, -, rfl⟩ | ⟨key, value, val, heff, -, -, rfl⟩
  · rfl
  · have hth : w'.sys.thread a.1 = th := by
      rw [hsys]
      exact Function.update_self ..
    rw [hth] at heff
    obtain ⟨pc, -, job, -⟩ := hcase.lands heff
    have hne : key ≠ k := by
      rintro rfl
      exact hno (by simp [Thread.writing, job])
    exact Function.update_of_ne hne.symm _ _

/-- The key has the value, and no thread is in a write of it. -/
structure Settled (k : Key) (v : Value) (w : Watch L) : Prop where
  kept : ∃ T M, Kept w T M ∧ M k = some v
  alone : ∀ t, (w.sys.thread t).writing ≠ some k

/-- No step of a run begins a write of the key. -/
def Quiet (ok : Watch L → Act → Prop) (k : Key) (w : Watch L) (a : Act) : Prop :=
  ok w a ∧ (w.sys.thread a.1).Spares k

instance (ok : Watch L → Act → Prop) [∀ w a, Decidable (ok w a)] (k : Key) (w : Watch L)
    (a : Act) : Decidable (Quiet ok k w a) :=
  inferInstanceAs (Decidable (_ ∧ _))

lemma writing_step {w w' : Watch L} {a : Act} (hstep : w.step a = some w')
    (hspares : (w.sys.thread a.1).Spares k) {t : Tid} (hno : (w.sys.thread t).writing ≠ some k) :
    (w'.sys.thread t).writing ≠ some k := by
  obtain ⟨store, th, hcase, hsys⟩ := System.step_cases (step_sys hstep)
  by_cases ht : t = a.1
  · subst ht
    rw [hsys]
    simpa using hcase.writing_ne hspares hno
  · rwa [System.step_thread (step_sys hstep) ht]

lemma Settled.step (hL : 0 < L) {w w' : Watch L} {a : Act} (h : Settled k v w)
    (hok : Quiet Sound k w a) (hstep : w.step a = some w') : Settled k v w' := by
  obtain ⟨T, M, hkept, hM⟩ := h.kept
  obtain ⟨T', M', hkept', heffect⟩ := hkept.step hL hok.1 hstep
  refine ⟨⟨T', M', hkept', ?_⟩, fun t => writing_step hstep hok.2 (h.alone t)⟩
  rw [Kept.map_eq hstep heffect (h.alone a.1), hM]

/-- Thread `t` is in a write of the key and no other thread is; once the write has taken effect the
key has its value. -/
structure Underway (k : Key) (v : Value) (t : Tid) (done : List (Op × Option Value)) (w : Watch L) :
    Prop where
  kept : ∃ pc, (w.sys.thread t).job = some (.write k v pc) ∧
    ∃ T M, Kept w T M ∧ (pc.stored = true → M k = some v)
  alone : ∀ t', t' ≠ t → (w.sys.thread t').writing ≠ some k
  done : (w.sys.thread t).done = done

lemma Underway.step (hL : 0 < L) {w w' : Watch L} {a : Act} {t : Tid}
    {done : List (Op × Option Value)} (h : Underway k v t done w) (hok : Quiet Sound k w a)
    (hstep : w.step a = some w') : Underway k v t done w' ∨ Settled k v w' := by
  obtain ⟨pc, hjob, T, M, hkept, hM⟩ := h.kept
  obtain ⟨T', M', hkept', heffect⟩ := hkept.step hL hok.1 hstep
  have halone : ∀ t', t' ≠ t → (w'.sys.thread t').writing ≠ some k :=
    fun t' ht' => writing_step hstep hok.2 (h.alone t' ht')
  by_cases ht : t = a.1
  · subst ht
    obtain ⟨store, th, hcase, hsys⟩ := System.step_cases (step_sys hstep)
    have hth : w'.sys.thread a.1 = th := by
      rw [hsys]
      exact Function.update_self ..
    rw [hth] at heffect
    cases hcase with
    | call op todo idle next => exact absurd (hjob.symm.trans idle) (by simp)
    | readRet key res job => exact absurd (hjob.symm.trans job) (by simp)
    | read key pc pc' _ job step => exact absurd (hjob.symm.trans job) (by simp)
    | writeRet key value job =>
      right
      obtain ⟨rfl, rfl, rfl⟩ : k = key ∧ v = value ∧ pc = .ret := by simpa using hjob.symm.trans job
      have hMk : M' k = some v := by
        rcases heffect.map with ⟨-, -, rfl⟩ | ⟨key, value, val, heff, -, -, rfl⟩
        · exact hM rfl
        · simp [Thread.effects, Thread.landed, job, Op.put, WritePc.stored] at heff
      refine ⟨⟨T', M', hkept', hMk⟩, fun t => ?_⟩
      by_cases ht : t = a.1
      · subst ht
        rw [hth]
        simp [Thread.writing]
      · exact halone t ht
    | write key value pc₁ pc' _ job step =>
      left
      obtain ⟨rfl, rfl, rfl⟩ : k = key ∧ v = value ∧ pc = pc₁ := by
        simpa using hjob.symm.trans job
      refine ⟨⟨pc', by rw [hth], T', M', hkept', fun hstored => ?_⟩, halone, ?_⟩
      · rcases heffect.map with ⟨heff, -, rfl⟩ | ⟨key, value, val, heff, -, hval, rfl⟩
        · refine hM ?_
          cases hpc : pc.stored with
          | true => rfl
          | false => simp [Thread.effects, Thread.landed, job, hpc, hstored] at heff
        · obtain ⟨rfl, rfl⟩ : key = k ∧ value = v := by
            cases hpc : pc.stored <;>
              simp [Thread.effects, Thread.landed, job, hpc, hstored] at heff
            exact ⟨heff.1.symm, heff.2.symm⟩
          rw [Function.update_self, hval.resolve_left id]
      · rw [hth]
        exact h.done
  · left
    have hth := System.step_thread (step_sys hstep) ht
    refine ⟨⟨pc, by rw [hth, hjob], T', M', hkept', fun hstored => ?_⟩, halone, ?_⟩
    · rw [Kept.map_eq hstep heffect (h.alone a.1 (Ne.symm ht)), hM hstored]
    · rw [hth, h.done]

/-! ### What a read returns -/

/-- The reads of the key that thread `r` has begun since it had made the calls `done` give the
key's value. -/
structure Answers (k : Key) (v : Value) (r : Tid) (done : List (Op × Option Value)) (w : Watch L) :
    Prop where
  settled : Settled k v w
  answer : ∀ res, (w.sys.thread r).answer = some (k, res) → res = v
  done : ∃ later, (w.sys.thread r).done = done ++ later ∧
    ∀ res, (Op.read k, some res) ∈ later → res = v

/-- The next step of the thread does nothing a write must not do, and no read ends in a leaf whose
high key is the key. -/
def Careful (w : Watch L) (a : Act) : Prop := w.Sound a ∧ (w.sys.thread a.1).Inside

instance (w : Watch L) (a : Act) : Decidable (w.Careful a) :=
  inferInstanceAs (Decidable (_ ∧ _))

/-- A read that ends inside its leaf finds the value. -/
lemma Settled.answer {w : Watch L} {t : Tid} (h : Settled k v w) {lock : Offset}
    {current : BTNode L} (hjob : (w.sys.thread t).job = some (.read k (.whileRight lock current)))
    (hinside : (w.sys.thread t).Inside)
    (hhere : current.right = INVALID_OFFSET ∨ k ≤ current.highKey) :
    current.btnodeValueByKey k = v := by
  obtain ⟨T, M, hkept, hM⟩ := h.kept
  obtain ⟨hmem, hlow, h0, hnode⟩ := hkept.sys.okRead hjob
  have hcov : T.Covers lock k := by
    refine hnode.covers (hkept.sys.next_ne_invalid hmem) hlow ?_
    by_cases hright : current.right = INVALID_OFFSET
    · exact .inl hright
    · have hne : current.highKey ≠ k :=
        hinside (k, current) (by simp [Thread.ending, ReadPc.ending, hjob]) hright
      exact .inr (lt_of_le_of_ne (hhere.resolve_left hright) hne.symm)
  apply hnode.valueByKey h0
  rw [hkept.sys.represents.value_eq hkept.sys.valid hmem h0 hcov, hM]

lemma Answers.step (hL : 0 < L) {w w' : Watch L} {a : Act} {r : Tid}
    {done : List (Op × Option Value)} (h : Answers k v r done w) (hok : Quiet Careful k w a)
    (hstep : w.step a = some w') : Answers k v r done w' := by
  obtain ⟨⟨hsound, hinside⟩, hspares⟩ := hok
  have hsettled := h.settled.step hL ⟨hsound, hspares⟩ hstep
  obtain ⟨later, hlater, hres⟩ := h.done
  by_cases hr : r = a.1
  · subst hr
    obtain ⟨store, th, hcase, hsys⟩ := System.step_cases (step_sys hstep)
    have hth : w'.sys.thread a.1 = th := by
      rw [hsys]
      exact Function.update_self ..
    cases hcase with
    | call op todo idle next =>
      refine ⟨hsettled, fun res hans => ?_, ⟨later, by rw [hth, ← hlater], hres⟩⟩
      rw [hth] at hans
      cases op <;> exact absurd hans (by simp [Thread.answer, Op.call, ReadPc.answer])
    | writeRet key value job =>
      refine ⟨hsettled, fun res hans => ?_, ⟨later ++ [(.write key value, none)], ?_, ?_⟩⟩
      · rw [hth] at hans
        exact absurd hans (by simp [Thread.answer])
      · rw [hth, hlater, List.append_assoc]
      · intro res hmem
        exact hres res (by simpa using hmem)
    | readRet key val job =>
      refine ⟨hsettled, fun res hans => ?_, ⟨later ++ [(.read key, some val)], ?_, ?_⟩⟩
      · rw [hth] at hans
        exact absurd hans (by simp [Thread.answer])
      · rw [hth, hlater, List.append_assoc]
      · intro res hmem
        rcases List.mem_append.1 hmem with hmem | hmem
        · exact hres res hmem
        · obtain ⟨rfl, rfl⟩ : k = key ∧ res = val := by simpa using hmem
          exact h.answer res (by simp [Thread.answer, ReadPc.answer, job])
    | write key value pc pc' _ job step =>
      refine ⟨hsettled, fun res hans => ?_, ⟨later, by rw [hth, ← hlater], hres⟩⟩
      rw [hth] at hans
      exact absurd hans (by simp [Thread.answer])
    | read key pc pc' _ job step =>
      obtain ⟨T, M, hkept, -⟩ := h.settled.kept
      have hno := (hkept.sys.read_ok job step (System.live_read job hsound.1.1)).2.2
      refine ⟨hsettled, fun res hans => ?_, ⟨later, by rw [hth, ← hlater], hres⟩⟩
      rw [hth] at hans
      cases step with
      | whileRight lock current here =>
        obtain ⟨rfl, rfl⟩ : key = k ∧ current.btnodeValueByKey key = res := by
          simpa [Thread.answer, ReadPc.answer] using hans
        exact h.settled.answer job hinside here
      | noChild lock current inner child => exact absurd ⟨inner, child⟩ hno
      | unLock lock val =>
        apply h.answer
        rw [← hans]
        simp [Thread.answer, ReadPc.answer, job]
      | _ => exact absurd hans (by simp [Thread.answer, ReadPc.answer])
  · have hth := System.step_thread (step_sys hstep) hr
    refine ⟨hsettled, ?_, ?_⟩
    · rw [hth]
      exact h.answer
    · rw [hth]
      exact h.done

/-- A write of the key that is the last one, and a read of the key that begins when the write has
returned: the write begins in `w₀`, in `w₁` it has returned, the read begins later and has returned
in `w₂`. All steps meet `ok`. -/
structure Observes (ok : Watch L → Act → Prop) (program : Tid → List Op) (k : Key) (v res : Value)
    (t r : Tid) (w₀ w₁ w₂ : Watch L) : Prop where
  before : Run step ok (init L program) w₀
  entering : (w₀.sys.thread t).entering = some (.write k v)
  alone : ∀ t', t' ≠ t → (w₀.sys.thread t').writing ≠ some k
  during : Run step (Quiet ok k) w₀ w₁
  returned : (w₀.sys.thread t).done ++ [(.write k v, none)] <+: (w₁.sys.thread t).done
  idle : (w₁.sys.thread r).job = none
  after : Run step (Quiet ok k) w₁ w₂
  answer : (.read k, some res) ∈ (w₂.sys.thread r).done.drop (w₁.sys.thread r).done.length

/-- Whatever the writers of other keys do, a read that never ends in a leaf whose high key is its
key returns what the last write of the key wrote. -/
theorem read_finds_write {L : Nat} (hL : 0 < L) {program : Tid → List Op} {k : Key}
    {v res : Value} {t r : Tid} {w₀ w₁ w₂ : Watch L}
    (h : Observes Careful program k v res t r w₀ w₁ w₂) : res = v := by
  -- up to the write
  obtain ⟨T, M, hkept⟩ : ∃ T M, Kept w₀ T M :=
    Run.invariant (P := fun w => ∃ T M, Kept w T M) h.before ⟨_, _, kept_init L program⟩ <| by
      rintro w a w' ⟨T, M, hkept⟩ hok hstep
      obtain ⟨T', M', hkept', -⟩ := hkept.step hL hok.1 hstep
      exact ⟨T', M', hkept'⟩
  -- during the write
  have hunder : Underway k v t (w₀.sys.thread t).done w₀ := by
    refine ⟨⟨.getRootOffset, Thread.job_of_entering h.entering, T, M, hkept, ?_⟩, h.alone, rfl⟩
    exact fun hstored => Bool.noConfusion hstored
  have hsettled : Settled k v w₁ := by
    have hor := Run.invariant
      (P := fun w => Underway k v t (w₀.sys.thread t).done w ∨ Settled k v w) h.during
      (.inl hunder) <| by
        rintro w a w' (hw | hw) hok hstep
        · exact hw.step hL ⟨hok.1.1, hok.2⟩ hstep
        · exact .inr (hw.step hL ⟨hok.1.1, hok.2⟩ hstep)
    rcases hor with hw | hw
    · have hlen := h.returned.length_le
      rw [hw.done, List.length_append] at hlen
      exact absurd hlen (Nat.not_succ_le_self _)
    · exact hw
  -- from the beginning of the read on
  have hbegin : Answers k v r (w₁.sys.thread r).done w₁ := by
    refine ⟨hsettled, fun res hans => ?_, ⟨[], by simp, by simp⟩⟩
    exact absurd hans (by simp [Thread.answer, h.idle])
  have hend : Answers k v r (w₁.sys.thread r).done w₂ :=
    Run.invariant (P := Answers k v r (w₁.sys.thread r).done) h.after hbegin
      fun _ _ _ hw hok hstep => hw.step hL hok hstep
  obtain ⟨later, hlater, hres⟩ := hend.done
  have hmem := h.answer
  rw [hlater, List.drop_left] at hmem
  exact hres res hmem

/-- Thread `0` writes, splitting the root between `40` and `50`, thread `1` reads. -/
def readerProgram (k : Key) : Tid → List Op
  | 0 => [.write 10 (1, 0), .write 20 (2, 0), .write 30 (3, 0), .write 40 (4, 0), .write 50 (5, 0),
      .write 15 (6, 0)]
  | 1 => [.read k]
  | _ => []

/-- The three parts of a run are executed one after the other. -/
lemma observes_of_exec {ok : Watch L → Act → Prop} [∀ w a, Decidable (ok w a)]
    {program : Tid → List Op} {k : Key} {v res : Value} (hrest : ∀ t, program (t + 2) = [])
    (as₀ as₁ as₂ : List Act)
    (h : (exec step ok (init L program) as₀).any (fun w₀ =>
      decide ((w₀.sys.thread 0).entering = some (.write k v)) &&
      decide ((w₀.sys.thread 1).writing ≠ some k) &&
      (exec step (Quiet ok k) w₀ as₁).any fun w₁ =>
        decide ((w₀.sys.thread 0).done ++ [(.write k v, none)] <+: (w₁.sys.thread 0).done) &&
        (w₁.sys.thread 1).job.isNone &&
        (exec step (Quiet ok k) w₁ as₂).any fun w₂ =>
          decide ((.read k, some res) ∈ (w₂.sys.thread 1).done.drop (w₁.sys.thread 1).done.length))
      = true) :
    ∃ w₀ w₁ w₂, Observes ok program k v res 0 1 w₀ w₁ w₂ := by
  simp only [Option.any_eq_true, Bool.and_eq_true, decide_eq_true_eq, Option.isNone_iff_eq_none]
    at h
  obtain ⟨w₀, h₀, ⟨hentering, hwriting⟩, w₁, h₁, ⟨hreturned, hidle⟩, w₂, h₂, hanswer⟩ := h
  have hrun : Run step ok (init L program) w₀ := .of_exec h₀
  refine ⟨w₀, w₁, w₂, hrun, hentering, ?_, .of_exec h₁, hreturned, hidle, .of_exec h₂, hanswer⟩
  intro t ht
  cases t with
  | zero => exact absurd rfl ht
  | succ t =>
    cases t with
    | zero => exact hwriting
    | succ t => simp [Thread.writing, (thread_of_empty hrun (hrest t)).2]

theorem read_finds_forty : ∃ w₀ w₁ w₂ : Watch 2,
    Observes Careful (readerProgram 40) 40 (4, 0) (4, 0) 0 1 w₀ w₁ w₂ ∧
      ((4, 0) : Value) = (4, 0) := by
  obtain ⟨w₀, w₁, w₂, h⟩ : ∃ w₀ w₁ w₂ : Watch 2,
      Observes Careful (readerProgram 40) 40 (4, 0) (4, 0) 0 1 w₀ w₁ w₂ :=
    observes_of_exec (fun _ => rfl) (List.replicate 37 (0, zeroed)) (List.replicate 11 (0, zeroed))
      (List.replicate 2 (1, zeroed) ++ List.replicate 36 (0, zeroed) ++
        List.replicate 10 (1, zeroed)) (by decide +kernel)
  exact ⟨w₀, w₁, w₂, h, read_finds_write Nat.two_pos h⟩

/-- The reader of `30` stops in the left half, whose high key is `30`. -/
theorem boundary_read_misses : ∃ w₀ w₁ w₂ : Watch 2,
    Observes (fun _ _ => True) (readerProgram 30) 30 (3, 0) (0, 0) 0 1 w₀ w₁ w₂ ∧
      ((0, 0) : Value) ≠ (3, 0) := by
  obtain ⟨w₀, w₁, w₂, h⟩ : ∃ w₀ w₁ w₂ : Watch 2,
      Observes (fun _ _ => True) (readerProgram 30) 30 (3, 0) (0, 0) 0 1 w₀ w₁ w₂ :=
    observes_of_exec (fun _ => rfl) (List.replicate 25 (0, zeroed)) (List.replicate 11 (0, zeroed))
      (List.replicate 2 (1, zeroed) ++ List.replicate 48 (0, zeroed) ++
        List.replicate 6 (1, zeroed)) (by decide +kernel)
  exact ⟨w₀, w₁, w₂, h, by decide⟩

end Watch

end TiPI.BLinkTree
