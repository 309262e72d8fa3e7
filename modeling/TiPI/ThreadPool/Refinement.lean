import TiPI.ThreadPool.Locks

/-!
# The locks are enough

Each lock has one holder at most, so what a thread has read of the queues it has locked is still so
when it acts on it. A queue operation takes effect in one step: where the pool finds nothing, or
where the task leaves its queue.
-/

namespace TiPI.ThreadPool

variable {n : Nat} {τ : Type*}

/-- The lock that a call of `submit` has. -/
def Submit.locks : Submit n τ → List (Fin n)
  | .pushFront j _ | .unlock j => [j]
  | .none | .lock _ _ => []

def Submit.wants : Submit n τ → Option (Fin n)
  | .lock j _ => some j
  | _ => Option.none

namespace Place

variable {i : Fin n} {queue queue' : Queues n τ}

def locks (i : Fin n) : Place n τ → List (Fin n)
  | .empty | .back | .popBack _ | .popUnlock _ => [i]
  | .lockSecond th₁ _ | .unlockFirst th₁ _ => [th₁]
  | .size th₁ th₂ | .stealBack th₁ th₂ _ | .stealPop th₁ th₂ _ _ | .give th₁ th₂ _ _
  | .unlockSecond th₁ th₂ _ => [th₁, th₂]
  | .run _ sub => sub.locks
  | .pop | .steal | .lockFirst _ _ | .check | .left => []

def wants (i : Fin n) : Place n τ → Option (Fin n)
  | .pop => some i
  | .lockFirst th₁ _ => some th₁
  | .lockSecond _ th₂ => some th₂
  | .run _ sub => sub.wants
  | _ => none

/-- What a worker knows of the queues. -/
def Ok (queue : Queues n τ) (i : Fin n) : Place n τ → Prop
  | .back => queue i ≠ []
  | .popBack t => (queue i).getLast? = some t
  | .lockFirst th₁ th₂ | .lockSecond th₁ th₂ | .size th₁ th₂ | .give th₁ th₂ _ _
  | .unlockSecond th₁ th₂ _ => th₁ < th₂
  | .stealBack th₁ th₂ first =>
    th₁ < th₂ ∧ (queue (shorter th₁ th₂ first)).length < (queue (longer th₁ th₂ first)).length
  | .stealPop th₁ th₂ first stealed =>
    (th₁ < th₂ ∧ (queue (shorter th₁ th₂ first)).length < (queue (longer th₁ th₂ first)).length) ∧
      (queue (longer th₁ th₂ first)).getLast? = some stealed
  | .run _ (.lock j _) | .run _ (.pushFront j _) => j = i
  | _ => True

/-- The queue a stolen task is on its way to. -/
def gives (i : Fin n) : Place n τ → Option (Fin n × τ)
  | .give th₁ th₂ first stealed =>
    if i = shorter th₁ th₂ first then none else some (shorter th₁ th₂ first, stealed)
  | _ => none

/-- The worker's place in the pool whose queue operations are one step. -/
def abs (i : Fin n) : Place n τ → Worker τ
  | .pop | .empty | .back | .popBack _ => .pop
  | .popUnlock t => if t.isSome then .run t else .steal
  | .steal | .lockFirst _ _ | .lockSecond _ _ | .size _ _ | .stealBack _ _ _ | .stealPop _ _ _ _ =>
    .steal
  | .give th₁ th₂ first stealed =>
    if i = shorter th₁ th₂ first then .run (some stealed) else .check
  | .unlockSecond _ _ t | .unlockFirst _ t => if t.isSome then .run t else .check
  | .check => .check
  | .run t _ => .run t
  | .left => .left

lemma mem_locks_longer (th₁ th₂ : Fin n) (first : Bool) : longer th₁ th₂ first ∈ [th₁, th₂] := by
  cases first <;> simp [longer]

lemma mem_locks_shorter (th₁ th₂ : Fin n) (first : Bool) : shorter th₁ th₂ first ∈ [th₁, th₂] := by
  cases first <;> simp [shorter]

/-- Only the queues that a worker has locked matter to it. -/
lemma Ok.congr {p : Place n τ} (h : p.Ok queue i) (hsame : ∀ j ∈ p.locks i, queue' j = queue j) :
    p.Ok queue' i := by
  cases p with
  | back | popBack => simpa only [Ok, hsame i (by simp [locks])] using h
  | stealBack th₁ th₂ first =>
    simpa only [Ok, hsame _ (mem_locks_longer th₁ th₂ first),
      hsame _ (mem_locks_shorter th₁ th₂ first)] using h
  | stealPop th₁ th₂ first stealed =>
    simpa only [Ok, hsame _ (mem_locks_longer th₁ th₂ first),
      hsame _ (mem_locks_shorter th₁ th₂ first)] using h
  | run t sub => cases sub <;> exact h
  | _ => exact h

end Place

lemma longer_ne_shorter {th₁ th₂ : Fin n} (h : th₁ < th₂) (first : Bool) :
    longer th₁ th₂ first ≠ shorter th₁ th₂ first := by
  cases first with
  | true => exact h.ne
  | false => exact h.ne'

lemma ordered_lt {r₁ r₂ : Fin n} (h : r₁ ≠ r₂) : (ordered r₁ r₂).1 < (ordered r₁ r₂).2 := by
  unfold ordered
  split_ifs with hgt
  · exact hgt
  · exact lt_of_le_of_ne (not_lt.1 hgt) h

namespace Locked

/-- The locks that a thread has. -/
def locks (s : Locked n τ) : Party n → List (Fin n)
  | .inl i => (s.place i).locks i
  | .inr k => (s.outside k).locks

structure Inv (s : Locked n τ) : Prop where
  owned : Owned s.owner s.locks
  ok : ∀ i, (s.place i).Ok s.queue i

/-- A stolen task that has left its queue and is not in the other one yet. -/
def pending (s : Locked n τ) (j : Fin n) : List τ :=
  match s.owner j with
  | some (.inl i) => ((s.place i).gives i).elim [] fun g => if g.1 = j then [g.2] else []
  | _ => []

/-- The state of the pool whose queue operations are one step. -/
def abs (s : Locked n τ) : Pool n τ where
  queue j := s.pending j ++ s.queue j
  worker i := (s.place i).abs i
  done := s.done
  submitted := s.submitted
  executed := s.executed

variable {s s' : Locked n τ} {a : LockAct n τ} {i : Fin n} {p : Place n τ}

lemma inv_init : (init n τ).Inv where
  owned j w := by cases w <;> simp [init, locks, Place.locks, Submit.locks]
  ok _ := trivial

/-- A lock has one holder. -/
lemma Inv.same_worker (h : s.Inv) {i' j : Fin n} (hj : j ∈ (s.place i').locks i')
    (hj' : j ∈ (s.place i).locks i) : i' = i := by
  have hw : j ∈ s.locks (.inl i') := hj
  exact Sum.inl_injective (h.owned.exclusive hw (show j ∈ s.locks (.inl i) from hj'))

/-- A step of worker `i` to `p`. -/
lemma Inv.worker (h : s.Inv) {owner : Fin n → Option (Party n)} {queue : Queues n τ}
    (hlocks : MutexStep (.inl i) s.owner owner ((s.place i).locks i) (p.locks i))
    (hqueue : ∀ j ∉ (s.place i).locks i, queue j = s.queue j) (hok : p.Ok queue i) {done : Bool}
    {submitted executed : List τ} :
    Inv ⟨owner, queue, Function.update s.place i p, s.outside, done, submitted, executed⟩ where
  owned := by
    refine h.owned.step (w := .inl i) ?_ fun w hw => ?_
    · simpa [locks] using hlocks
    · cases w with
      | inl i' =>
        have hi : i' ≠ i := fun hi => hw (congrArg Sum.inl hi)
        simp [locks, hi]
      | inr k => rfl
  ok i' := by
    by_cases hi : i' = i
    · subst hi
      simpa using hok
    · simp only [Function.update_of_ne hi]
      exact (h.ok i').congr fun j hj => hqueue j fun hj' => hi (h.same_worker hj hj')

/-- A step of another thread. -/
lemma Inv.outside (h : s.Inv) {k : Nat} {sub : Submit n τ} {owner : Fin n → Option (Party n)}
    {queue : Queues n τ}
    (hlocks : MutexStep (.inr k) s.owner owner (s.outside k).locks sub.locks)
    (hqueue : ∀ j ∉ (s.outside k).locks, queue j = s.queue j) {done : Bool}
    {submitted executed : List τ} :
    Inv ⟨owner, queue, s.place, Function.update s.outside k sub, done, submitted, executed⟩ where
  owned := by
    refine h.owned.step (w := .inr k) ?_ fun w hw => ?_
    · simpa [locks] using hlocks
    · cases w with
      | inl i => rfl
      | inr k' =>
        have hk : k' ≠ k := fun hk => hw (congrArg Sum.inr hk)
        simp [locks, hk]
  ok i := by
    refine (h.ok i).congr fun j hj => hqueue j fun hj' => ?_
    have hw : j ∈ s.locks (.inl i) := hj
    exact absurd (h.owned.exclusive hw (show j ∈ s.locks (.inr k) from hj')) (by simp)

/-! ### Stolen tasks on their way -/

lemma pending_of_owner {j : Fin n} (hj : s.owner j = some (.inl i)) :
    s.pending j = ((s.place i).gives i).elim [] fun g => if g.1 = j then [g.2] else [] := by
  rw [pending, hj]

lemma pending_nil {j : Fin n} (h : ∀ i, s.owner j = some (.inl i) → (s.place i).gives i = none) :
    s.pending j = [] := by
  unfold pending
  split
  · next i hj => rw [h i hj, Option.elim_none]
  · rfl

/-- The workers that have a lock are the same, with the same tasks on their way. -/
lemma pending_congr {j : Fin n}
    (howner : ∀ i, s'.owner j = some (.inl i) ↔ s.owner j = some (.inl i))
    (hgives : ∀ i, s.owner j = some (.inl i) → (s'.place i).gives i = (s.place i).gives i) :
    s'.pending j = s.pending j := by
  by_cases hj : ∃ i, s.owner j = some (.inl i)
  · obtain ⟨i, hi⟩ := hj
    rw [pending_of_owner hi, pending_of_owner ((howner i).2 hi), hgives i hi]
  · rw [pending_nil fun i hi => absurd ⟨i, hi⟩ hj,
      pending_nil fun i hi => absurd ⟨i, (howner i).1 hi⟩ hj]

/-- What is on its way to a queue whose lock worker `i` has. -/
lemma Inv.pending_at (h : s.Inv) {p₀ : Place n τ} (hp : s.place i = p₀) {j : Fin n}
    (hj : j ∈ p₀.locks i) :
    s.pending j = (p₀.gives i).elim [] fun g => if g.1 = j then [g.2] else [] := by
  subst hp
  exact pending_of_owner ((h.owned j (.inl i)).2 hj)

/-- As `Inv.pending_at`, after a step of the worker that keeps its locks. -/
lemma Inv.pending_new (h : s.Inv) (s' : Locked n τ) {p₀ : Place n τ} (hp : s.place i = p₀)
    {j : Fin n} (hj : j ∈ p₀.locks i) (howner : s'.owner = s.owner)
    (hplace : s'.place = Function.update s.place i p) :
    s'.pending j = (p.gives i).elim [] fun g => if g.1 = j then [g.2] else [] := by
  subst hp
  have hj' : s'.owner j = some (.inl i) := by
    rw [howner]
    exact (h.owned j (.inl i)).2 hj
  rw [pending_of_owner hj', hplace, Function.update_self]

/-- A worker that keeps its locks leaves what is on its way to other queues. -/
lemma Inv.pending_off (h : s.Inv) {p₀ : Place n τ} (hp : s.place i = p₀) {j : Fin n}
    (hj : j ∉ p₀.locks i) (howner : s'.owner = s.owner)
    (hplace : s'.place = Function.update s.place i p) : s'.pending j = s.pending j := by
  subst hp
  refine pending_congr (by simp [howner]) fun i' hi' => ?_
  have hi : i' ≠ i := by
    rintro rfl
    exact hj ((h.owned j _).1 hi')
  rw [hplace, Function.update_of_ne hi]

/-- A worker that gives nothing away, neither before nor after its step. -/
lemma pending_quiet (h : s.Inv) (hlocks : MutexStep (.inl i) s.owner s'.owner ((s.place i).locks i)
      (p.locks i))
    (hplace : s'.place = Function.update s.place i p) (hgives₀ : (s.place i).gives i = none)
    (hgives : p.gives i = none) (j : Fin n) : s'.pending j = s.pending j := by
  have hother : ∀ i', i' ≠ i → (s'.owner j = some (.inl i') ↔ s.owner j = some (.inl i')) :=
    fun i' hi => h.owned.owner_eq (w := .inl i) hlocks fun heq => hi (Sum.inl_injective heq)
  by_cases hj : ∃ i', i' ≠ i ∧ s.owner j = some (.inl i')
  · obtain ⟨i', hi, hi'⟩ := hj
    rw [pending_of_owner hi', pending_of_owner ((hother i' hi).2 hi'), hplace,
      Function.update_of_ne hi]
  · have hbefore : s.pending j = [] := by
      refine pending_nil fun i' hi' => ?_
      by_cases hi : i' = i
      · rw [hi, hgives₀]
      · exact absurd ⟨i', hi, hi'⟩ hj
    have hafter : s'.pending j = [] := by
      refine pending_nil fun i' hi' => ?_
      by_cases hi : i' = i
      · rw [hplace, hi, Function.update_self, hgives]
      · exact absurd ⟨i', hi, (hother i' hi).1 hi'⟩ hj
    rw [hbefore, hafter]

/-- The queue of a lock that a worker has, when it gives nothing away. -/
lemma Inv.abs_queue (h : s.Inv) {p₀ : Place n τ} (hp : s.place i = p₀) {j : Fin n}
    (hj : j ∈ p₀.locks i) (hgives : p₀.gives i = none) : s.abs.queue j = s.queue j := by
  subst hp
  have hpending : s.pending j = [] := by
    refine pending_nil fun i' hi' => ?_
    have hi : i' = i := h.same_worker ((h.owned j _).1 hi') hj
    rw [hi, hgives]
  show s.pending j ++ s.queue j = _
  rw [hpending, List.nil_append]

lemma abs_worker (hplace : s'.place = Function.update s.place i p) :
    s'.abs.worker = Function.update s.abs.worker i (p.abs i) := by
  funext i'
  show (s'.place i').abs i' = _
  rw [hplace]
  exact Function.apply_update (fun i (p : Place n τ) => p.abs i) s.place i p i'

/-! ### Each step is a step of the pool, or none -/

/-- What a step comes to: the pool stays as it is, or makes a step of its own. -/
structure Simulates (s s' : Locked n τ) : Prop where
  inv : s'.Inv
  step : s'.abs = s.abs ∨ ∃ b, s.abs.step b = some s'.abs

/-- A step of worker `i` that changes its place and the locks alone. -/
lemma Inv.quiet (h : s.Inv) {p₀ : Place n τ} (hp : s.place i = p₀)
    {owner : Fin n → Option (Party n)}
    (hlocks : MutexStep (.inl i) s.owner owner (p₀.locks i) (p.locks i))
    (hok : p.Ok s.queue i) (hgives₀ : p₀.gives i = none) (hgives : p.gives i = none)
    (habs : p.abs i = p₀.abs i) :
    Simulates s { setPlace s i p with owner := owner } := by
  subst hp
  refine ⟨h.worker hlocks (fun _ _ => rfl) hok, .inl ?_⟩
  have hpending : ∀ j, pending { setPlace s i p with owner := owner } j = s.pending j :=
    pending_quiet h hlocks rfl hgives₀ hgives
  have hworker : (abs { setPlace s i p with owner := owner }).worker =
      Function.update s.abs.worker i (p.abs i) := abs_worker rfl
  have hworker' : Function.update s.abs.worker i (p.abs i) = s.abs.worker := by
    rw [habs]
    exact Function.update_eq_self i s.abs.worker
  rw [hworker'] at hworker
  have hqueue : (abs { setPlace s i p with owner := owner }).queue = s.abs.queue :=
    funext fun j => congrArg (· ++ s.queue j) (hpending j)
  exact Pool.mk.injEq .. |>.mpr ⟨hqueue, hworker, rfl, rfl, rfl⟩

/-- A step of worker `i` that is one of the pool. -/
lemma Inv.acts (h : s.Inv) {p₀ : Place n τ} (hp : s.place i = p₀) {queue : Queues n τ}
    (hlocks : ∀ j, j ∈ p.locks i ↔ j ∈ p₀.locks i) (hqueue : ∀ j ∉ p₀.locks i, queue j = s.queue j)
    (hok : p.Ok queue i) {q : Queues n τ}
    (hq : ∀ j, pending { setPlace s i p with queue := queue } j ++ queue j = q j) (b : Act n τ)
    (hstep : s.abs.step b =
      some { s.abs with queue := q, worker := Function.update s.abs.worker i (p.abs i) }) :
    Simulates s { setPlace s i p with queue := queue } := by
  subst hp
  refine ⟨h.worker (.keep rfl hlocks) hqueue hok, .inr ⟨b, hstep.trans (congrArg some ?_)⟩⟩
  have hworker : (abs { setPlace s i p with queue := queue }).worker =
      Function.update s.abs.worker i (p.abs i) := abs_worker rfl
  exact Pool.mk.injEq .. |>.mpr ⟨(funext hq).symm, hworker.symm, rfl, rfl, rfl⟩

/-- As `Inv.acts`, when the worker gives nothing away. -/
lemma Inv.acts_quiet (h : s.Inv) {p₀ : Place n τ} (hp : s.place i = p₀) {queue : Queues n τ}
    (hlocks : ∀ j, j ∈ p.locks i ↔ j ∈ p₀.locks i) (hqueue : ∀ j ∉ p₀.locks i, queue j = s.queue j)
    (hok : p.Ok queue i) (hgives₀ : p₀.gives i = none) (hgives : p.gives i = none) {q : Queues n τ}
    (hq : ∀ j ∈ p₀.locks i, q j = queue j) (hq' : ∀ j ∉ p₀.locks i, q j = s.abs.queue j)
    (b : Act n τ) (hstep : s.abs.step b =
      some { s.abs with queue := q, worker := Function.update s.abs.worker i (p.abs i) }) :
    Simulates s { setPlace s i p with queue := queue } := by
  refine h.acts hp hlocks hqueue hok (fun j => ?_) b hstep
  subst hp
  have hpending : ∀ j, pending { setPlace s i p with queue := queue } j = s.pending j :=
    pending_quiet h (.keep rfl hlocks) rfl hgives₀ hgives
  rw [hpending]
  by_cases hj : j ∈ (s.place i).locks i
  · have habs := h.abs_queue rfl hj hgives₀
    have hnil : s.pending j = [] := by simpa [abs] using habs
    rw [hnil, List.nil_append, hq j hj]
  · rw [hqueue j hj, hq' j hj]
    rfl

lemma trySteal_same {q : Queues n τ} {th₁ th₂ : Fin n} (hlt : th₁ < th₂)
    (heq : (q th₁).length = (q th₂).length) (i : Fin n) :
    trySteal q i th₁ th₂ = ⟨false, none, q⟩ := by
  have htwo : ¬n < 2 := by omega
  have hordered : ordered th₁ th₂ = (th₁, th₂) := if_neg hlt.asymm
  simp [trySteal, htwo, hordered, heq]

lemma trySteal_differ {q : Queues n τ} {th₁ th₂ : Fin n} (hlt : th₁ < th₂) {first : Bool}
    (hlen : (q (shorter th₁ th₂ first)).length < (q (longer th₁ th₂ first)).length) (i : Fin n) :
    trySteal q i th₁ th₂ = giveLast q i (longer th₁ th₂ first) (shorter th₁ th₂ first) := by
  have htwo : ¬n < 2 := by omega
  have hordered : ordered th₁ th₂ = (th₁, th₂) := if_neg hlt.asymm
  cases first with
  | true =>
    have hgt : (q th₂).length < (q th₁).length := hlen
    simp [trySteal, htwo, hordered, hgt, longer, shorter]
  | false =>
    have hgt : (q th₁).length < (q th₂).length := hlen
    simp [trySteal, htwo, hordered, hgt, hgt.not_gt, longer, shorter]

lemma abs_worker_eq {p₀ : Place n τ} (hp : s.place i = p₀) : s.abs.worker i = p₀.abs i :=
  congrArg (Place.abs i) hp

/-- The task leaves its queue: this is the step of the pool. -/
lemma Inv.stealPop (h : s.Inv) {th₁ th₂ : Fin n} {first : Bool} {stealed : τ}
    (place : s.place i = .stealPop th₁ th₂ first stealed) :
    Simulates s ((s.setQueue (longer th₁ th₂ first)
      (s.queue (longer th₁ th₂ first)).dropLast).setPlace i (.give th₁ th₂ first stealed)) := by
  obtain ⟨⟨hlt, hlen⟩, hlast⟩ : (th₁ < th₂ ∧ (s.queue (shorter th₁ th₂ first)).length <
      (s.queue (longer th₁ th₂ first)).length) ∧
      (s.queue (longer th₁ th₂ first)).getLast? = some stealed := by
    have hok := h.ok i
    rwa [place] at hok
  have hne := longer_ne_shorter hlt first
  have hat : ∀ j ∈ [th₁, th₂], s.abs.queue j = s.queue j := fun j hj => h.abs_queue place hj rfl
  have hlonger := hat _ (Place.mem_locks_longer th₁ th₂ first)
  have hshorter := hat _ (Place.mem_locks_shorter th₁ th₂ first)
  have hqueue : ∀ j ∉ [th₁, th₂], Function.update s.queue (longer th₁ th₂ first)
      (s.queue (longer th₁ th₂ first)).dropLast j = s.queue j := by
    intro j hj
    exact Function.update_of_ne
      (fun heq => hj (by rw [heq]; exact Place.mem_locks_longer th₁ th₂ first)) _ _
  have htrySteal : trySteal s.abs.queue i th₁ th₂ =
      giveLast s.abs.queue i (longer th₁ th₂ first) (shorter th₁ th₂ first) :=
    trySteal_differ hlt (by rw [hlonger, hshorter]; exact hlen) i
  by_cases hmine : i = shorter th₁ th₂ first
  · refine h.acts_quiet place (fun _ => Iff.rfl) hqueue hlt rfl (by simp [Place.gives, ← hmine])
      (q := Function.update s.abs.queue (longer th₁ th₂ first)
        (s.abs.queue (longer th₁ th₂ first)).dropLast) (fun j hj => ?_) (fun j hj => ?_)
      (.trySteal i th₁ th₂) ?_
    · by_cases hj' : j = longer th₁ th₂ first
      · simp [setQueue, hj', hlonger]
      · simp [setQueue, hj', hat j hj]
    · exact Function.update_of_ne
        (fun heq => hj (by rw [heq]; exact Place.mem_locks_longer th₁ th₂ first)) _ _
    · simp [Pool.step, abs_worker_eq place, Place.abs, htrySteal, giveLast, hlonger, hlast, ← hmine,
        Pool.took, hlt.ne]
  · refine h.acts place (fun _ => Iff.rfl) hqueue hlt
      (q := Function.update (Function.update s.abs.queue (longer th₁ th₂ first)
        (s.abs.queue (longer th₁ th₂ first)).dropLast) (shorter th₁ th₂ first)
        (stealed :: s.abs.queue (shorter th₁ th₂ first))) (fun j => ?_) (.trySteal i th₁ th₂) ?_
    · by_cases hj : j ∈ [th₁, th₂]
      · have hpending : pending (setPlace (s.setQueue (longer th₁ th₂ first)
            (s.queue (longer th₁ th₂ first)).dropLast) i (.give th₁ th₂ first stealed)) j =
            if shorter th₁ th₂ first = j then [stealed] else [] := by
          refine (h.pending_new (setPlace (s.setQueue (longer th₁ th₂ first)
            (s.queue (longer th₁ th₂ first)).dropLast) i (.give th₁ th₂ first stealed))
            place hj rfl rfl).trans ?_
          simp [Place.gives, hmine]
        refine (congrArg (· ++ _) hpending).trans ?_
        by_cases hjs : j = shorter th₁ th₂ first
        · subst hjs
          simp [setQueue, hne.symm, hshorter]
        · by_cases hjl : j = longer th₁ th₂ first
          · subst hjl
            simp [setQueue, hjs, Ne.symm hjs, hlonger]
          · simp [setQueue, hjs, Ne.symm hjs, hjl, hat j hj]
      · have hpending : pending (setPlace (s.setQueue (longer th₁ th₂ first)
            (s.queue (longer th₁ th₂ first)).dropLast) i (.give th₁ th₂ first stealed)) j =
            s.pending j := h.pending_off place hj rfl rfl
        refine (congrArg (· ++ _) hpending).trans ?_
        have hjl : j ≠ longer th₁ th₂ first := fun heq =>
          hj (heq ▸ Place.mem_locks_longer th₁ th₂ first)
        have hjs : j ≠ shorter th₁ th₂ first := fun heq =>
          hj (heq ▸ Place.mem_locks_shorter th₁ th₂ first)
        simp [setQueue, hjl, hjs, abs]
    · simp [Pool.step, abs_worker_eq place, Place.abs, htrySteal, giveLast, hlonger, hlast, hmine,
        Pool.took, hlt.ne, hne.symm]

/-- The task comes into the other queue, where it is in the pool already. -/
lemma Inv.give (h : s.Inv) {th₁ th₂ : Fin n} {first : Bool} {stealed : τ}
    (place : s.place i = .give th₁ th₂ first stealed) (other : i ≠ shorter th₁ th₂ first) :
    Simulates s ((s.setQueue (shorter th₁ th₂ first)
      (stealed :: s.queue (shorter th₁ th₂ first))).setPlace i (.unlockSecond th₁ th₂ none)) := by
  have hlt : th₁ < th₂ := by
    have hok := h.ok i
    rwa [place] at hok
  have hoff : ∀ j ∉ [th₁, th₂], j ≠ shorter th₁ th₂ first := fun j hj heq =>
    hj (heq ▸ Place.mem_locks_shorter th₁ th₂ first)
  refine ⟨h.worker (p := .unlockSecond th₁ th₂ none)
    (.keep rfl fun j => by rw [place]; exact Iff.rfl) (fun j hj => ?_) hlt, .inl ?_⟩
  · rw [place] at hj
    exact Function.update_of_ne (hoff j hj) _ _
  have hworker : (abs (setPlace (s.setQueue (shorter th₁ th₂ first)
      (stealed :: s.queue (shorter th₁ th₂ first))) i (.unlockSecond th₁ th₂ none))).worker =
      s.abs.worker := by
    rw [abs_worker (s := s) (i := i) (p := .unlockSecond th₁ th₂ none) rfl]
    have habs : (Place.unlockSecond th₁ th₂ none : Place n τ).abs i = s.abs.worker i := by
      rw [abs_worker_eq place]
      simp [Place.abs, other]
    rw [habs, Function.update_eq_self]
  refine Pool.mk.injEq .. |>.mpr ⟨funext fun j => ?_, hworker, rfl, rfl, rfl⟩
  by_cases hj : j ∈ [th₁, th₂]
  · have hbefore : s.pending j = if shorter th₁ th₂ first = j then [stealed] else [] := by
      rw [h.pending_at place hj]
      simp [Place.gives, other]
    have hafter : pending (setPlace (s.setQueue (shorter th₁ th₂ first)
        (stealed :: s.queue (shorter th₁ th₂ first))) i (.unlockSecond th₁ th₂ none)) j = [] :=
      h.pending_new (p := .unlockSecond th₁ th₂ none)
      (setPlace (s.setQueue _ _) i _) place hj rfl rfl
    refine (congrArg (· ++ _) hafter).trans (.trans ?_ (congrArg (· ++ _) hbefore.symm))
    by_cases hjs : j = shorter th₁ th₂ first
    · subst hjs
      simp [setPlace, setQueue]
    · simp [setPlace, setQueue, hjs, Ne.symm hjs]
  · have hpending : pending (setPlace (s.setQueue (shorter th₁ th₂ first)
        (stealed :: s.queue (shorter th₁ th₂ first))) i (.unlockSecond th₁ th₂ none)) j =
        s.pending j := h.pending_off place hj rfl rfl
    refine (congrArg (· ++ _) hpending).trans ?_
    simp [setPlace, setQueue, hoff j hj]

/-- The task is done. -/
lemma Inv.finish (h : s.Inv) {t : Option τ} (place : s.place i = .run t .none) :
    Simulates s { s.setPlace i .pop with executed := s.executed ++ t.toList } := by
  have hkeep : MutexStep (.inl i) s.owner s.owner ((s.place i).locks i)
      ((Place.pop : Place n τ).locks i) := .keep rfl fun _ => by rw [place]; exact Iff.rfl
  refine ⟨h.worker hkeep (fun _ _ => rfl) trivial, .inr ⟨.finish i, ?_⟩⟩
  have hpending : ∀ j, pending { s.setPlace i .pop with executed := s.executed ++ t.toList } j =
      s.pending j := pending_quiet h hkeep rfl (by rw [place]; rfl) rfl
  have hqueue : (abs { s.setPlace i .pop with executed := s.executed ++ t.toList }).queue =
      s.abs.queue := funext fun j => congrArg (· ++ s.queue j) (hpending j)
  have hworker : (abs { s.setPlace i .pop with executed := s.executed ++ t.toList }).worker =
      Function.update s.abs.worker i .pop := abs_worker (s := s) (p := .pop) rfl
  simp only [Pool.step, abs_worker_eq place, Place.abs]
  exact congrArg some (Pool.mk.injEq .. |>.mpr ⟨hqueue.symm, hworker.symm, rfl, rfl, rfl⟩)

/-! ### Calls of `submit` -/

/-- What is on its way to a queue stays so while no worker with the lock moves. -/
lemma Inv.pending_outside (h : s.Inv) {k : Nat} {sub : Submit n τ}
    (hlocks : MutexStep (.inr k) s.owner s'.owner (s.outside k).locks sub.locks)
    (hplace : s'.place = s.place) (j : Fin n) : s'.pending j = s.pending j := by
  refine pending_congr (fun i => ?_) fun i _ => by rw [hplace]
  exact h.owned.owner_eq (w := .inr k) hlocks Sum.inl_ne_inr

/-- A step of another thread that changes the locks alone. -/
lemma Inv.quiet_outside (h : s.Inv) {k : Nat} {sub : Submit n τ} {owner : Fin n → Option (Party n)}
    (hlocks : MutexStep (.inr k) s.owner owner (s.outside k).locks sub.locks) :
    Simulates s { s with owner := owner, outside := Function.update s.outside k sub } := by
  refine ⟨h.outside hlocks fun _ _ => rfl, .inl ?_⟩
  have hpending : ∀ j, pending { s with owner := owner, outside := Function.update s.outside k sub }
      j = s.pending j := h.pending_outside hlocks rfl
  exact Pool.mk.injEq .. |>.mpr
    ⟨funext fun j => congrArg (· ++ s.queue j) (hpending j), rfl, rfl, rfl, rfl⟩

/-- `push_front` where nothing is on its way to the queue. -/
lemma abs_push_queue {j : Fin n} {tsk : τ} (hpending : ∀ k, s'.pending k = s.pending k)
    (hqueue : s'.queue = Function.update s.queue j (tsk :: s.queue j)) (hnil : s.pending j = []) :
    s'.abs.queue = Function.update s.abs.queue j (tsk :: s.abs.queue j) := by
  funext k
  show s'.pending k ++ s'.queue k = _
  rw [hpending, hqueue]
  by_cases hk : k = j
  · subst hk
    simp [abs, hnil]
  · simp [abs, hk]

lemma Inv.push (h : s.Inv) {t : Option τ} {tsk : τ}
    (place : s.place i = .run t (.pushFront i tsk)) :
    Simulates s ((s.push i tsk).setPlace i (.run t (.unlock i))) := by
  have hkeep : MutexStep (.inl i) s.owner s.owner ((s.place i).locks i)
      ((Place.run t (.unlock i) : Place n τ).locks i) :=
    .keep rfl fun _ => by rw [place]; exact Iff.rfl
  refine ⟨h.worker hkeep (fun j hj => ?_) trivial, .inr ⟨.submit i tsk, ?_⟩⟩
  · rw [place] at hj
    exact Function.update_of_ne (fun hji => hj (by simp [Place.locks, Submit.locks, hji])) _ _
  have hqueue : ((s.push i tsk).setPlace i (.run t (.unlock i))).abs.queue =
      Function.update s.abs.queue i (tsk :: s.abs.queue i) := by
    refine abs_push_queue ?_ rfl (h.pending_at place (List.mem_singleton_self i))
    exact pending_quiet h hkeep rfl (by rw [place]; rfl) rfl
  have hworker : ((s.push i tsk).setPlace i (.run t (.unlock i))).abs.worker = s.abs.worker := by
    have hplace : (Place.run t (.unlock i) : Place n τ).abs i = s.abs.worker i :=
      (abs_worker_eq place).symm
    rw [abs_worker (s := s) (p := .run t (.unlock i)) rfl, hplace, Function.update_eq_self]
  simp only [Pool.step, abs_worker_eq place, Place.abs]
  exact congrArg some (Pool.mk.injEq .. |>.mpr ⟨hqueue.symm, hworker.symm, rfl, rfl, rfl⟩)

lemma Inv.push_outside (h : s.Inv) {k : Nat} {j : Fin n} {tsk : τ}
    (hsub : s.outside k = .pushFront j tsk) :
    Simulates s { s.push j tsk with outside := Function.update s.outside k (.unlock j) } := by
  have hkeep : MutexStep (.inr k) s.owner s.owner (s.outside k).locks
      (Submit.unlock j : Submit n τ).locks := .keep rfl fun _ => by rw [hsub]; exact Iff.rfl
  refine ⟨h.outside hkeep fun j' hj' => ?_, .inr ⟨.submitOutside j tsk, ?_⟩⟩
  · rw [hsub] at hj'
    exact Function.update_of_ne (fun hj => hj' (by simp [Submit.locks, hj])) _ _
  have hmine : j ∈ s.locks (.inr k) := by simp [locks, hsub, Submit.locks]
  have hqueue : (abs { s.push j tsk with
      outside := Function.update s.outside k (.unlock j) }).queue =
      Function.update s.abs.queue j (tsk :: s.abs.queue j) := by
    refine abs_push_queue (h.pending_outside hkeep rfl) rfl (pending_nil fun i hi => ?_)
    simp [(h.owned j _).2 hmine] at hi
  exact congrArg some (Pool.mk.injEq .. |>.mpr ⟨hqueue.symm, rfl, rfl, rfl, rfl⟩)

/-! ### Runs -/

lemma step_simulates (h : s.Inv) (hstep : s.step a = some s') : Simulates s s' := by
  cases step_cases hstep with
  | pop i place free =>
    exact h.quiet place (.lock i free rfl (by simp [Place.locks])) trivial rfl rfl rfl
  | empty i place nothing =>
    refine h.acts_quiet place (fun _ => Iff.rfl) (fun _ _ => rfl) trivial rfl rfl (q := s.abs.queue)
      (fun j hj => h.abs_queue place hj rfl) (fun _ _ => rfl) (.tryPopLocal i) ?_
    have hq : s.abs.queue i = [] := by
      rw [h.abs_queue place (List.mem_singleton_self i) rfl, nothing]
    simp [Pool.step, abs_worker_eq place, Place.abs, tryPopLocal, hq, Pool.took]
  | notEmpty i place something =>
    exact h.quiet place (.keep rfl fun _ => Iff.rfl) something rfl rfl rfl
  | back i t place last => exact h.quiet place (.keep rfl fun _ => Iff.rfl) last rfl rfl rfl
  | popBack i t place =>
    have hlast : (s.queue i).getLast? = some t := by
      have hok := h.ok i
      rwa [place] at hok
    have hq : s.abs.queue i = s.queue i := h.abs_queue place (List.mem_singleton_self i) rfl
    refine h.acts_quiet place (fun _ => Iff.rfl) (fun j hj => ?_) trivial rfl rfl
      (q := Function.update s.abs.queue i (s.abs.queue i).dropLast) (fun j hj => ?_)
      (fun j hj => ?_) (.tryPopLocal i) ?_
    · exact Function.update_of_ne (fun hji => hj (by simp [Place.locks, hji])) _ _
    · obtain rfl := List.mem_singleton.1 hj
      simp [setQueue, hq]
    · exact Function.update_of_ne (fun hji => hj (by simp [Place.locks, hji])) _ _
    · simp [Pool.step, abs_worker_eq place, Place.abs, tryPopLocal, hq, hlast, Pool.took]
  | popUnlock i t place =>
    refine h.quiet place (.unlock i (List.mem_singleton_self i) rfl ?_) ?_ rfl ?_ ?_
    · cases t <;> simp [Place.locks, Submit.locks]
    · cases t <;> trivial
    · cases t <;> rfl
    · cases t <;> rfl
  | lockFirst i th₁ th₂ place free =>
    have hok := h.ok i
    rw [place] at hok
    exact h.quiet place (.lock th₁ free rfl (by simp [Place.locks])) hok rfl rfl rfl
  | lockSecond i th₁ th₂ place free =>
    have hok := h.ok i
    rw [place] at hok
    exact h.quiet place (.lock th₂ free rfl (by simp [Place.locks, or_comm])) hok rfl rfl rfl
  | differ i th₁ th₂ first place lt =>
    have hok := h.ok i
    rw [place] at hok
    exact h.quiet place (.keep rfl fun _ => Iff.rfl) ⟨hok, lt⟩ rfl rfl rfl
  | same i th₁ th₂ place eq =>
    have hok : th₁ < th₂ := by
      have hok := h.ok i
      rwa [place] at hok
    refine h.acts_quiet place (fun _ => Iff.rfl) (fun _ _ => rfl) hok rfl rfl (q := s.abs.queue)
      (fun j hj => h.abs_queue place hj rfl) (fun _ _ => rfl) (.trySteal i th₁ th₂) ?_
    have heq : (s.abs.queue th₁).length = (s.abs.queue th₂).length := by
      rw [h.abs_queue place (by simp [Place.locks]) rfl,
        h.abs_queue place (by simp [Place.locks]) rfl, eq]
    simp [Pool.step, abs_worker_eq place, Place.abs, trySteal_same hok heq, Pool.took, hok.ne]
  | stealBack i th₁ th₂ first stealed place last =>
    have hok := h.ok i
    rw [place] at hok
    exact h.quiet place (.keep rfl fun _ => Iff.rfl) ⟨hok, last⟩ rfl rfl rfl
  | stealPop i th₁ th₂ first stealed place => exact h.stealPop place
  | take i th₁ th₂ first stealed place mine =>
    have hok := h.ok i
    rw [place] at hok
    refine h.quiet place (.keep rfl fun _ => Iff.rfl) hok ?_ rfl ?_
    · simp [Place.gives, mine.symm]
    · simp [Place.abs, mine.symm]
  | give i th₁ th₂ first stealed place other => exact h.give place other
  | unlockSecond i th₁ th₂ t place =>
    have hok : th₁ < th₂ := by
      have hok := h.ok i
      rwa [place] at hok
    refine h.quiet place (.unlock th₂ (by simp [Place.locks]) rfl fun k => ?_) trivial rfl rfl rfl
    simp only [Place.locks, List.mem_cons, List.not_mem_nil, or_false]
    exact ⟨fun hk => ⟨hk ▸ hok.ne, .inl hk⟩, fun hk => hk.2.resolve_right hk.1⟩
  | unlockFirst i th₁ t place =>
    refine h.quiet place (.unlock th₁ (List.mem_singleton_self th₁) rfl ?_) ?_ rfl ?_ ?_
    · cases t <;> simp [Place.locks, Submit.locks]
    · cases t <;> trivial
    · cases t <;> rfl
    · cases t <;> rfl
  | check i place =>
    refine h.acts_quiet place (p := if s.done then .left else .pop) ?_ (fun _ _ => rfl) ?_ rfl ?_
      (q := s.abs.queue) (fun j hj => h.abs_queue place hj rfl) (fun _ _ => rfl) (.checkDone i) ?_
    · cases s.done <;> simp [Place.locks]
    · cases s.done <;> trivial
    · cases s.done <;> rfl
    · have hdone : s.abs.done = s.done := rfl
      cases hd : s.done <;> simp [Pool.step, abs_worker_eq place, Place.abs, hdone, hd]
  | alone i r₁ r₂ place one =>
    refine h.acts_quiet place (fun _ => Iff.rfl) (fun _ _ => rfl) trivial rfl rfl (q := s.abs.queue)
      (fun j hj => h.abs_queue place hj rfl) (fun _ _ => rfl) (.trySteal i r₁ r₂) ?_
    simp [Pool.step, abs_worker_eq place, Place.abs, trySteal, one, Pool.took, not_le.2 one]
  | draw i r₁ r₂ place two distinct =>
    exact h.quiet place (.keep rfl fun _ => Iff.rfl) (ordered_lt distinct) rfl rfl rfl
  | finish i t place => exact h.finish place
  | submit i tsk t place =>
    exact h.quiet place (.keep rfl fun _ => Iff.rfl) rfl rfl rfl rfl
  | goSubmit i t sub sub' s₁ place step =>
    have hok := h.ok i
    rw [place] at hok
    cases step with
    | lock j tsk free =>
      exact h.quiet place (.lock j free rfl (by simp [Place.locks, Submit.locks])) hok rfl rfl rfl
    | pushFront j tsk =>
      obtain rfl : j = i := hok
      exact h.push place
    | unlock j =>
      exact h.quiet place (.unlock j (List.mem_singleton_self j) rfl
        (by simp [Place.locks, Submit.locks])) trivial rfl rfl rfl
  | submitOutside k j tsk idle =>
    exact h.quiet_outside (.keep rfl fun _ => by rw [idle]; exact Iff.rfl)
  | goOutside k sub' s₁ step =>
    generalize hsub : s.outside k = sub at step
    cases step with
    | lock j tsk free =>
      exact h.quiet_outside (.lock j free rfl (by simp [hsub, Submit.locks]))
    | pushFront j tsk => exact h.push_outside hsub
    | unlock j =>
      exact h.quiet_outside (.unlock j (by simp [hsub, Submit.locks]) rfl
        (by simp [hsub, Submit.locks]))
  | destroy => exact ⟨⟨h.owned, h.ok⟩, .inr ⟨.destroy, rfl⟩⟩

lemma inv_run (h : Reach step (init n τ) s) : s.Inv :=
  Run.invariant h inv_init fun _ _ _ hs _ hstep => (step_simulates hs hstep).inv

lemma simulates_run (h : Reach step (init n τ) s) : Reach Pool.step (Pool.init n τ) s.abs := by
  induction h with
  | refl => exact .refl
  | @tail s₁ s₂ hrun hlast ih =>
    obtain ⟨a, -, ha⟩ := hlast
    obtain hsame | ⟨b, hb⟩ := (step_simulates (inv_run hrun) ha).step
    · rwa [hsame]
    · exact ih.tail ⟨b, trivial, hb⟩

/-- Whatever the order in which the threads take the locks, read and change the queues, they do what
the pool does whose queue operations are one step each: no task is lost or runs twice, and a queue
that nobody has locked is the one of that pool. -/
theorem refines_pool (h : Reach step (init n τ) s) :
    Reach Pool.step (Pool.init n τ) s.abs ∧
    (s.submitted : Multiset τ) =
      inQueues s.queue + ∑ j, (s.pending j : Multiset τ) + s.abs.held +
        (s.executed : Multiset τ) ∧
    ∀ j, s.owner j = none → s.abs.queue j = s.queue j := by
  have hrun := simulates_run h
  have hconserves : s.abs.Conserves :=
    Run.invariant hrun (Pool.conserves_init n τ) fun _ _ _ hs _ => hs.step
  refine ⟨hrun, hconserves.trans ?_, fun j hj => ?_⟩
  · have hqueues : inQueues s.abs.queue =
        inQueues s.queue + ∑ j, (s.pending j : Multiset τ) := by
      simp only [inQueues, ← Finset.sum_add_distrib]
      exact Finset.sum_congr rfl fun j _ => by rw [abs, ← Multiset.coe_add, add_comm]
    rw [hqueues]
    rfl
  · have hnil : s.pending j = [] := pending_nil fun i hi => by simp [hj] at hi
    show s.pending j ++ s.queue j = _
    rw [hnil, List.nil_append]

/-- Worker `2` finds its queue empty and draws two other queues; it has taken the last task of one
of them and has not given it to the other yet. -/
def carrying : List (LockAct 3 Nat) :=
  [.submitOutside 4 0 7, .submitOutside 5 0 8, .goOutside 4, .goOutside 4, .goOutside 4,
    .goOutside 5, .goOutside 5, .goOutside 5, .go 2, .go 2, .go 2, .draw 2 1 0, .go 2, .go 2, .go 2,
    .go 2, .go 2]

theorem refines_pool_three : ∃ s : Locked 3 Nat, Reach step (init 3 Nat) s ∧
    (s.queue 0 = [8] ∧ s.queue 1 = [] ∧ s.pending 1 = [7]) ∧
    Reach Pool.step (Pool.init 3 Nat) s.abs := by
  obtain ⟨s, hrun, hs⟩ : ∃ s : Locked 3 Nat, Reach step (init 3 Nat) s ∧
      (s.queue 0 = [8] ∧ s.queue 1 = [] ∧ s.pending 1 = [7]) :=
    exists_of_exec carrying (by decide)
  exact ⟨s, hrun, hs, (refines_pool hrun).1⟩

end Locked

end TiPI.ThreadPool
