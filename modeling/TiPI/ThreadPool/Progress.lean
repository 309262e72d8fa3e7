import TiPI.ThreadPool.Refinement

/-!
# What the locks protect, and that they block nobody for good

Two threads never access the same queue at a time, and nothing is taken from an empty queue.
`trySteal` takes its two locks in the order of their indices, so threads that wait for each other
are not possible.
-/

namespace TiPI.ThreadPool

variable {n : Nat} {τ : Type*}

/-- The queue that the next step of a call of `submit` changes. -/
def Submit.touches : Submit n τ → List (Fin n)
  | .pushFront j _ => [j]
  | .none | .lock _ _ | .unlock _ => []

/-- The queues that the next step of worker `i` reads or changes. -/
def Place.touches (i : Fin n) : Place n τ → List (Fin n)
  | .empty | .back | .popBack _ => [i]
  | .size th₁ th₂ => [th₁, th₂]
  | .stealBack th₁ th₂ first | .stealPop th₁ th₂ first _ => [longer th₁ th₂ first]
  | .give th₁ th₂ first _ => if i = shorter th₁ th₂ first then [] else [shorter th₁ th₂ first]
  | .run _ sub => sub.touches
  | .pop | .popUnlock _ | .steal | .lockFirst _ _ | .lockSecond _ _ | .unlockSecond _ _ _
  | .unlockFirst _ _ | .check | .left => []

lemma Submit.touches_subset (sub : Submit n τ) : sub.touches ⊆ sub.locks := by
  cases sub <;> simp [touches, locks]

lemma Place.touches_subset (i : Fin n) (p : Place n τ) : p.touches i ⊆ p.locks i := by
  cases p with
  | stealBack th₁ th₂ first =>
    exact List.cons_subset.2 ⟨mem_locks_longer th₁ th₂ first, List.nil_subset _⟩
  | stealPop th₁ th₂ first stealed =>
    exact List.cons_subset.2 ⟨mem_locks_longer th₁ th₂ first, List.nil_subset _⟩
  | give th₁ th₂ first stealed =>
    by_cases hmine : i = shorter th₁ th₂ first
    · simp [touches, ← hmine]
    · simp only [touches, if_neg hmine]
      exact List.cons_subset.2 ⟨mem_locks_shorter th₁ th₂ first, List.nil_subset _⟩
  | run t sub => exact sub.touches_subset
  | _ => simp [touches, locks]

/-- A thread waits for a lock behind those it has. -/
lemma Place.wants_gt {i : Fin n} {p : Place n τ} {queue : Queues n τ} (hok : p.Ok queue i)
    {j k : Fin n} (hj : p.wants i = some j) (hk : k ∈ p.locks i) : k < j := by
  cases p with
  | lockSecond th₁ th₂ =>
    obtain rfl := Option.some.inj hj
    obtain rfl := List.mem_singleton.1 hk
    exact hok
  | run t sub => cases sub <;> simp_all [wants, Submit.wants, locks, Submit.locks]
  | _ => simp_all [wants, locks]

namespace Locked

variable {s s' : Locked n τ} {a : LockAct n τ} {i j : Fin n} {w w' : Party n}

def touches (s : Locked n τ) : Party n → List (Fin n)
  | .inl i => (s.place i).touches i
  | .inr k => (s.outside k).touches

def wants (s : Locked n τ) : Party n → Option (Fin n)
  | .inl i => (s.place i).wants i
  | .inr k => (s.outside k).wants

/-- The thread that acts. -/
def thread : LockAct n τ → Option (Party n)
  | .go i | .draw i _ _ | .finish i | .submit i _ | .goSubmit i => some (.inl i)
  | .submitOutside k _ _ | .goOutside k => some (.inr k)
  | .destroy => none

lemma touches_subset (s : Locked n τ) (w : Party n) : s.touches w ⊆ s.locks w := by
  cases w with
  | inl i => exact (s.place i).touches_subset i
  | inr k => exact (s.outside k).touches_subset

lemma Inv.wants_gt (h : s.Inv) (w : Party n) (j k : Fin n) (hj : s.wants w = some j)
    (hk : k ∈ s.locks w) : k < j := by
  cases w with
  | inl i => exact Place.wants_gt (h.ok i) hj hk
  | inr k' =>
    simp only [wants, locks] at hj hk
    cases hsub : s.outside k' <;> simp_all [Submit.wants, Submit.locks]

lemma submit_touches {sub sub' : Submit n τ} (h : SubmitCase s w sub s' sub')
    (hj : s'.queue j ≠ s.queue j) : j ∈ sub.touches := by
  cases h with
  | lock | unlock => exact absurd rfl hj
  | pushFront j' tsk =>
    by_cases hjj : j = j'
    · simp [hjj, Submit.touches]
    · exact absurd (Function.update_of_ne hjj _ _) hj

/-- A step changes the queues its thread has said, and no other. -/
lemma step_touches (hstep : s.step a = some s') (hj : s'.queue j ≠ s.queue j) :
    ∃ w, thread a = some w ∧ j ∈ s.touches w := by
  have hupdate : ∀ {j' : Fin n} {q : List τ}, Function.update s.queue j' q j ≠ s.queue j →
      j = j' := fun hne => by
    by_contra hjj
    exact hne (Function.update_of_ne hjj _ _)
  cases step_cases hstep with
  | popBack i t place =>
    exact ⟨.inl i, rfl, by simp [touches, place, Place.touches, hupdate hj]⟩
  | stealPop i th₁ th₂ first stealed place =>
    exact ⟨.inl i, rfl, by simp [touches, place, Place.touches, hupdate hj]⟩
  | give i th₁ th₂ first stealed place other =>
    exact ⟨.inl i, rfl, by simp [touches, place, Place.touches, other, hupdate hj]⟩
  | goSubmit i t sub sub' s₁ place step =>
    refine ⟨.inl i, rfl, ?_⟩
    simp only [touches, place]
    exact submit_touches step hj
  | goOutside k sub' s₁ step => exact ⟨.inr k, rfl, submit_touches step hj⟩
  | _ => exact absurd rfl hj

/-- No two threads access the same queue at a time, no thread locks a mutex it has already, and
`back` and `pop_back` never meet an empty queue. -/
theorem race_free (h : Reach step (init n τ) s) :
    (∀ w w' j, j ∈ s.touches w → j ∈ s.touches w' → w = w') ∧
    (∀ a s' j, s.step a = some s' → s'.queue j ≠ s.queue j →
      ∃ w, thread a = some w ∧ j ∈ s.touches w) ∧
    (∀ w j, s.wants w = some j → s.owner j ≠ some w) ∧
    (∀ i, s.place i = .back → s.queue i ≠ []) ∧
    (∀ i t, s.place i = .popBack t → (s.queue i).getLast? = some t) ∧
    (∀ i th₁ th₂ first, s.place i = .stealBack th₁ th₂ first →
      s.queue (longer th₁ th₂ first) ≠ []) ∧
    ∀ i th₁ th₂ first stealed, s.place i = .stealPop th₁ th₂ first stealed →
      (s.queue (longer th₁ th₂ first)).getLast? = some stealed := by
  have hinv := inv_run h
  refine ⟨fun w w' j hj hj' => ?_, fun a s' j => step_touches, fun w j hj howner => ?_,
    fun i hi => ?_, fun i t hi => ?_, fun i th₁ th₂ first hi => ?_,
    fun i th₁ th₂ first stealed hi => ?_⟩
  · exact hinv.owned.exclusive (s.touches_subset w hj) (s.touches_subset w' hj')
  · exact lt_irrefl j (hinv.wants_gt w j j hj ((hinv.owned j w).1 howner))
  · have hok := hinv.ok i
    rwa [hi] at hok
  · have hok := hinv.ok i
    rwa [hi] at hok
  · have hok := hinv.ok i
    rw [hi] at hok
    exact List.ne_nil_of_length_pos (lt_of_le_of_lt (Nat.zero_le _) hok.2)
  · have hok := hinv.ok i
    rw [hi] at hok
    exact hok.2

theorem race_free_three : ∃ s : Locked 3 Nat, Reach step (init 3 Nat) s ∧
    s.touches (.inl 2) = [1] ∧ s.wants (.inl 1) = some 1 ∧ s.owner 1 ≠ some (.inl 1) := by
  obtain ⟨s, hrun, htouches, hwants⟩ : ∃ s : Locked 3 Nat, Reach step (init 3 Nat) s ∧
      (s.touches (.inl 2) = [1] ∧ s.wants (.inl 1) = some 1) :=
    exists_of_exec carrying (by decide)
  exact ⟨s, hrun, htouches, hwants, (race_free hrun).2.2.1 (.inl 1) 1 hwants⟩

/-! ### Progress -/

/-- Worker `i` is in its loop, or the thread in a call of `submit`. -/
def Busy (s : Locked n τ) : Party n → Prop
  | .inl i => s.place i ≠ .left
  | .inr k => s.outside k ≠ .none

/-- The actions a thread takes to end what it has begun. -/
def GoesOn : LockAct n τ → Prop
  | .go _ | .draw _ _ _ | .finish _ | .goSubmit _ | .goOutside _ => True
  | .submit _ _ | .submitOutside _ _ _ | .destroy => False

def CanGo (s : Locked n τ) (w : Party n) : Prop :=
  ∃ a s', thread a = some w ∧ GoesOn a ∧ s.step a = some s'

lemma lock_some {s : Locked n τ} {j : Fin n} (h : s.owner j = none) (w : Party n) :
    s.lock j w = some { s with owner := Function.update s.owner j (some w) } := if_pos h

lemma canGo_submit {sub : Submit n τ} (hsub : sub ≠ .none)
    (hfree : ∀ j, sub.wants = some j → s.owner j = none) (w : Party n) :
    ∃ p, s.stepSubmit w sub = some p := by
  cases sub with
  | none => exact absurd rfl hsub
  | lock j tsk => exact ⟨_, by rw [stepSubmit, lock_some (hfree j rfl), Option.map_some]⟩
  | pushFront j tsk => exact ⟨_, rfl⟩
  | unlock j => exact ⟨_, rfl⟩

/-- Only a lock that another thread has stops a thread. -/
lemma Inv.canGo_worker (h : s.Inv) (hbusy : s.place i ≠ .left)
    (hfree : ∀ j, (s.place i).wants i = some j → s.owner j = none) : s.CanGo (.inl i) := by
  have hgo : ∀ s', s.stepWorker i (s.place i) = some s' → s.CanGo (.inl i) :=
    fun s' hs' => ⟨.go i, s', rfl, trivial, hs'⟩
  have hok := h.ok i
  cases hp : s.place i with
  | left => exact absurd hp hbusy
  | steal =>
    by_cases htwo : n < 2
    · exact ⟨.draw i i i, s.setPlace i .check, rfl, trivial, by simp [step, hp, htwo]⟩
    · obtain ⟨r, hr⟩ : ∃ r : Fin n, i ≠ r :=
        have : Nontrivial (Fin n) := Fin.nontrivial_iff_two_le.2 (not_lt.1 htwo)
        (exists_ne i).imp fun _ => Ne.symm
      exact ⟨.draw i i r, _, rfl, trivial, by simp only [step, hp, htwo, if_false, hr]; rfl⟩
  | run t sub =>
    by_cases hsub : sub = .none
    · subst hsub
      exact ⟨.finish i, _, rfl, trivial, by simp only [step, hp]; rfl⟩
    · obtain ⟨p, hp'⟩ := canGo_submit hsub (fun j hj => hfree j (by rw [hp]; exact hj)) (.inl i)
      exact ⟨.goSubmit i, _, rfl, trivial, by simp only [step, hp, hp', Option.map_some]; rfl⟩
  | pop =>
    rw [hp] at hgo hfree
    exact hgo _ (by rw [stepWorker, lock_some (hfree i rfl), Option.map_some])
  | lockFirst th₁ th₂ =>
    rw [hp] at hgo hfree
    exact hgo _ (by rw [stepWorker, lock_some (hfree th₁ rfl), Option.map_some])
  | lockSecond th₁ th₂ =>
    rw [hp] at hgo hfree
    exact hgo _ (by rw [stepWorker, lock_some (hfree th₂ rfl), Option.map_some])
  | back =>
    rw [hp] at hgo hok
    exact hgo _ (by rw [stepWorker, List.getLast?_eq_some_getLast hok, Option.map_some])
  | stealBack th₁ th₂ first =>
    rw [hp] at hgo hok
    have hne : s.queue (longer th₁ th₂ first) ≠ [] :=
      List.ne_nil_of_length_pos (lt_of_le_of_lt (Nat.zero_le _) hok.2)
    exact hgo _ (by rw [stepWorker, List.getLast?_eq_some_getLast hne, Option.map_some])
  | give th₁ th₂ first stealed =>
    rw [hp] at hgo
    by_cases hmine : i = shorter th₁ th₂ first
    · exact hgo _ (if_pos hmine)
    · exact hgo _ (if_neg hmine)
  | _ =>
    rw [hp] at hgo
    exact hgo _ rfl

lemma Inv.canGo (h : s.Inv) (hbusy : s.Busy w)
    (hfree : ∀ j, s.wants w = some j → s.owner j = none) :
    s.CanGo w := by
  cases w with
  | inl i => exact h.canGo_worker hbusy hfree
  | inr k =>
    obtain ⟨p, hp⟩ := canGo_submit hbusy hfree (.inr k)
    exact ⟨.goOutside k, _, rfl, trivial, by rw [step, hp, Option.map_some]⟩

lemma busy_of_locks (h : s.locks w ≠ []) : s.Busy w := by
  cases w with
  | inl i =>
    rintro hleft
    simp [locks, hleft, Place.locks] at h
  | inr k =>
    rintro hnone
    simp [locks, hnone, Submit.locks] at h

/-- A worker that has not left, and a thread in a call of `submit`, can take its next step, or it
waits for a lock and some thread that has a lock can take its next step. -/
theorem threads_go_on (h : Reach step (init n τ) s) (hw : s.Busy w) :
    s.CanGo w ∨ (∃ j, s.wants w = some j ∧ s.owner j ≠ none) ∧
      ∃ w', s.locks w' ≠ [] ∧ s.CanGo w' := by
  have hinv := inv_run h
  by_cases hfree : ∀ j, s.wants w = some j → s.owner j = none
  · exact .inl (hinv.canGo hw hfree)
  · obtain ⟨j, hfree⟩ := not_forall.1 hfree
    obtain ⟨hj, howner⟩ := Classical.not_imp.1 hfree
    obtain ⟨w', hlocks, hfree'⟩ :=
      hinv.owned.exists_running s.wants hinv.wants_gt hj howner
    exact .inr ⟨⟨j, hj, howner⟩, w', hlocks, hinv.canGo (busy_of_locks hlocks) hfree'⟩

theorem threads_go_on_three : ∃ s : Locked 3 Nat, Reach step (init 3 Nat) s ∧
    s.wants (.inl 1) = some 1 ∧ s.owner 1 = some (.inl 2) ∧
    (s.CanGo (.inl 1) ∨ (∃ j, s.wants (.inl 1) = some j ∧ s.owner j ≠ none) ∧
      ∃ w', s.locks w' ≠ [] ∧ s.CanGo w') := by
  obtain ⟨s, hrun, hwants, howner, hbusy⟩ : ∃ s : Locked 3 Nat, Reach step (init 3 Nat) s ∧
      (s.wants (.inl 1) = some 1 ∧ s.owner 1 = some (.inl 2) ∧ s.place 1 ≠ .left) :=
    exists_of_exec carrying (by decide)
  exact ⟨s, hrun, hwants, howner, threads_go_on (w := .inl 1) hrun hbusy⟩

end Locked

end TiPI.ThreadPool
