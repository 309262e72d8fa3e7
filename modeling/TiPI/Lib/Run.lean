import Mathlib.Algebra.Order.Ring.Nat
import Mathlib.Logic.Relation
import Mathlib.Data.List.Infix

/-!
# Runs of a partial step function

`Run step ok` relates the states of runs all of whose steps meet the guard `ok`, a condition on
the action and the state before it. `Run step fun _ _ => True` are all runs.
-/

namespace TiPI

variable {σ α : Type*} {step : σ → α → Option σ} {ok ok' : σ → α → Prop}

/-- One step that meets the guard. -/
def Guarded (step : σ → α → Option σ) (ok : σ → α → Prop) (s s' : σ) : Prop :=
  ∃ a, ok s a ∧ step s a = some s'

abbrev Run (step : σ → α → Option σ) (ok : σ → α → Prop) : σ → σ → Prop :=
  Relation.ReflTransGen (Guarded step ok)

/-- Every run of the step function. -/
abbrev Reach (step : σ → α → Option σ) : σ → σ → Prop := Run step fun _ _ => True

/-- An invariant that guarded steps keep holds along guarded runs. -/
lemma Run.invariant {P : σ → Prop} {s s' : σ} (h : Run step ok s s') (hs : P s)
    (hstep : ∀ s a s', P s → ok s a → step s a = some s' → P s') : P s' := by
  induction h with
  | refl => exact hs
  | tail _ hlast ih =>
    obtain ⟨a, hok, ha⟩ := hlast
    exact hstep _ a _ ih hok ha

lemma Run.mono {s s' : σ} (h : Run step ok s s') (hok : ∀ s a, ok s a → ok' s a) :
    Run step ok' s s' :=
  Relation.ReflTransGen.mono (fun _ _ ⟨a, ha, hs⟩ => ⟨a, hok _ _ ha, hs⟩) _ _ h

/-- Executes a list of actions as long as the guard holds. -/
def exec (step : σ → α → Option σ) (ok : σ → α → Prop) [∀ s a, Decidable (ok s a)] :
    σ → List α → Option σ
  | s, [] => some s
  | s, a :: as => if ok s a then (step s a).bind fun s' => exec step ok s' as else none

lemma Run.of_exec [∀ s a, Decidable (ok s a)] {s s' : σ} {as : List α}
    (h : exec step ok s as = some s') : Run step ok s s' := by
  induction as generalizing s with
  | nil =>
    obtain rfl : s = s' := by simpa [exec] using h
    exact .refl
  | cons a as ih =>
    simp only [exec, Option.ite_none_right_eq_some, Option.bind_eq_some_iff] at h
    obtain ⟨hok, s₁, hs₁, hrest⟩ := h
    exact .head ⟨a, hok, hs₁⟩ (ih hrest)

/-! ### Runs with their actions -/

/-- The runs from `s` with the actions they take, oldest first. -/
inductive Steps (step : σ → α → Option σ) (ok : σ → α → Prop) (s : σ) : List α → σ → Prop
  | nil : Steps step ok s [] s
  | snoc {as : List α} {s' s'' : σ} {a : α} (run : Steps step ok s as s') (hok : ok s' a)
      (hstep : step s' a = some s'') : Steps step ok s (as ++ [a]) s''

/-- An invariant of the state and the actions so far. -/
lemma Steps.invariant {P : List α → σ → Prop} {s s' : σ} {as : List α}
    (h : Steps step ok s as s') (hs : P [] s)
    (hstep : ∀ as s a s', P as s → ok s a → step s a = some s' → P (as ++ [a]) s') :
    P as s' := by
  induction h with
  | nil => exact hs
  | snoc _ hok hlast ih => exact hstep _ _ _ _ ih hok hlast

lemma Steps.append {s s' s'' : σ} {as bs : List α} (h : Steps step ok s as s')
    (h' : Steps step ok s' bs s'') : Steps step ok s (as ++ bs) s'' := by
  induction h' with
  | nil => simpa using h
  | snoc _ hok hlast ih =>
    rw [← List.append_assoc]
    exact ih.snoc hok hlast

lemma Steps.of_exec [∀ s a, Decidable (ok s a)] {s s' : σ} {as : List α}
    (h : exec step ok s as = some s') : Steps step ok s as s' := by
  induction as generalizing s with
  | nil =>
    obtain rfl : s = s' := by simpa [exec] using h
    exact .nil
  | cons a as ih =>
    simp only [exec, Option.ite_none_right_eq_some, Option.bind_eq_some_iff] at h
    obtain ⟨hok, s₁, hs₁, hrest⟩ := h
    exact (Steps.nil.snoc hok hs₁).append (ih hrest)

/-- A decidable property of the state a given list of actions leads to. -/
lemma steps_of_exec [∀ s a, Decidable (ok s a)] {s : σ} {P : σ → Prop} [DecidablePred P]
    (as : List α) (h : (exec step ok s as).any (fun s' => decide (P s')) = true) :
    ∃ s', Steps step ok s as s' ∧ P s' := by
  cases hs : exec step ok s as with
  | none => simp [hs] at h
  | some s' =>
    rw [hs, Option.any_some, decide_eq_true_eq] at h
    exact ⟨s', .of_exec hs, h⟩

lemma Steps.mono {s s' : σ} {as : List α} (h : Steps step ok s as s')
    (hok : ∀ s a, ok s a → ok' s a) : Steps step ok' s as s' := by
  induction h with
  | nil => exact .nil
  | snoc _ hlast hstep ih => exact ih.snoc (hok _ _ hlast) hstep

lemma Steps.nil_inv {s s' : σ} (h : Steps step ok s [] s') : s' = s := by
  generalize hbs : ([] : List α) = bs at h
  cases h with
  | nil => rfl
  | snoc => simp at hbs

lemma Steps.snoc_inv {s s'' : σ} {as : List α} {a : α} (h : Steps step ok s (as ++ [a]) s'') :
    ∃ s', Steps step ok s as s' ∧ ok s' a ∧ step s' a = some s'' := by
  generalize hbs : as ++ [a] = bs at h
  cases h with
  | nil => simp at hbs
  | snoc run hok hstep =>
    obtain ⟨rfl, rfl⟩ : as = _ ∧ a = _ := by simpa using hbs
    exact ⟨_, run, hok, hstep⟩

/-- The actions determine the state. -/
lemma Steps.det {s s' s'' : σ} {as : List α} (h : Steps step ok s as s')
    (h' : Steps step ok' s as s'') : s' = s'' := by
  induction h generalizing s'' with
  | nil => exact h'.nil_inv.symm
  | snoc _ _ hstep ih =>
    obtain ⟨r, hr, -, hstep'⟩ := h'.snoc_inv
    rw [ih hr, hstep'] at hstep
    exact (Option.some.inj hstep).symm

/-- A run that meets two guards. -/
lemma Steps.and {s s' : σ} {as : List α} (h : Steps step ok s as s') (h' : Steps step ok' s as s') :
    Steps step (fun s a => ok s a ∧ ok' s a) s as s' := by
  induction h with
  | nil => exact .nil
  | snoc run hok hstep ih =>
    obtain ⟨r, hr, hok', -⟩ := h'.snoc_inv
    obtain rfl := run.det hr
    exact (ih hr).snoc ⟨hok, hok'⟩ hstep

/-- Every run, with its actions. -/
abbrev AllSteps (step : σ → α → Option σ) : σ → List α → σ → Prop := Steps step fun _ _ => True

/-- Every state that the run of the actions `as` goes through has the property. -/
def Throughout (step : σ → α → Option σ) (P : List α → σ → Prop) (s : σ) (as : List α) : Prop :=
  ∀ bs s', bs <+: as → AllSteps step s bs s' → P bs s'

lemma Throughout.of_steps {P : List α → σ → Prop} {s s' : σ} {as : List α}
    (h : Steps step ok s as s') (hP : ∀ bs r, Steps step ok s bs r → P bs r) :
    Throughout step P s as := by
  intro bs r hpre hbs
  induction h with
  | nil =>
    obtain rfl := List.prefix_nil.mp hpre
    obtain rfl := hbs.nil_inv
    exact hP _ _ .nil
  | @snoc as s₁ s₂ a run hok hstep ih =>
    rcases List.prefix_concat_iff.mp hpre with rfl | hpre
    · obtain rfl := hbs.det (run.snoc hok hstep)
      exact hP _ _ (run.snoc hok hstep)
    · exact ih hpre

/-- When a guard is what each step needs to keep the property, the runs that have the property
throughout are those all of whose steps meet the guard. `ok'` is what holds of all steps anyway. -/
lemma Steps.throughout_iff {P : List α → σ → Prop} {s s' : σ} {as : List α}
    (h : Steps step ok' s as s') (hP : ∀ bs r, Steps step ok s bs r → P bs r)
    (hneed : ∀ bs r a r', Steps step ok s bs r → ok' r a → step r a = some r' → P (bs ++ [a]) r' →
      ok r a) :
    Throughout step P s as ↔ Steps step ok s as s' := by
  constructor
  · intro hthrough
    induction h with
    | nil => exact .nil
    | @snoc as s₁ s₂ a run hok hstep ih =>
      have hbefore := ih fun bs r hpre => hthrough bs r (hpre.trans (List.prefix_append _ _))
      have hall : AllSteps step s (as ++ [a]) s₂ :=
        (run.mono fun _ _ _ => trivial).snoc trivial hstep
      exact hbefore.snoc (hneed _ _ _ _ hbefore hok hstep (hthrough _ _ List.prefix_rfl hall)) hstep
  · exact fun hrun => .of_steps hrun hP

/-- A decidable property of the state an execution ends in. -/
lemma exists_of_exec [∀ s a, Decidable (ok s a)] {s : σ} {P : σ → Prop} [DecidablePred P]
    (as : List α) (h : (exec step ok s as).any (fun s' => decide (P s')) = true) :
    ∃ s', Run step ok s s' ∧ P s' := by
  cases hs : exec step ok s as with
  | none => simp [hs] at h
  | some s' =>
    rw [hs, Option.any_some, decide_eq_true_eq] at h
    exact ⟨s', .of_exec hs, h⟩

/-- Where runs are bounded in length, some run gets to a state from which there is no step. -/
lemma exists_stuck {s : σ} {N : Nat} (h : ∀ as s', AllSteps step s as s' → as.length ≤ N) :
    ∃ s', Reach step s s' ∧ ∀ a, step s' a = none := by
  by_contra hno
  have hlong : ∀ n, ∃ as s', AllSteps step s as s' ∧ Reach step s s' ∧ as.length = n := by
    intro n
    induction n with
    | zero => exact ⟨[], s, .nil, .refl, rfl⟩
    | succ n ih =>
      obtain ⟨as, s', hrun, hreach, hlen⟩ := ih
      obtain ⟨a, hne⟩ := not_forall.1 fun hstuck => hno ⟨s', hreach, hstuck⟩
      obtain ⟨s'', hstep⟩ := Option.ne_none_iff_exists'.1 hne
      refine ⟨as ++ [a], s'', hrun.snoc trivial hstep, hreach.tail ⟨a, trivial, hstep⟩, ?_⟩
      rw [List.length_append, hlen, List.length_singleton]
  obtain ⟨as, s', hrun, -, hlen⟩ := hlong (N + 1)
  have hle := h as s' hrun
  omega

/-! ### Unending supplies of actions -/

/-- The state after `n` steps with the actions `acts`. -/
def trace (step : σ → α → Option σ) (s : σ) (acts : Nat → α) : Nat → Option σ
  | 0 => some s
  | n + 1 => (trace step s acts n).bind fun s' => step s' (acts n)

variable {acts : Nat → α}

lemma trace_succ {s s' : σ} {n : Nat} (h : trace step s acts n = some s') :
    trace step s acts (n + 1) = step s' (acts n) := by
  rw [trace, h, Option.bind_some]

lemma trace_invariant {P : σ → Prop} {R : σ → α → Prop} {s : σ} (hs : P s)
    (hok : ∀ n s', trace step s acts n = some s' → R s' (acts n))
    (hstep : ∀ s a s', P s → R s a → step s a = some s' → P s') {n : Nat} {s' : σ}
    (h : trace step s acts n = some s') : P s' := by
  induction n generalizing s' with
  | zero =>
    obtain rfl : s = s' := Option.some.inj h
    exact hs
  | succ n ih =>
    obtain ⟨r, hr, hlast⟩ := Option.bind_eq_some_iff.1 h
    exact hstep r _ s' (ih hr) (hok n r hr) hlast

/-- A run comes to an end when as long as it has not, the next step is there and a measure goes
down. -/
lemma exists_trace {P : Nat → σ → Prop} {Q : σ → Prop} {s : σ}
    (hok : ∀ n s', trace step s acts n = some s' → ok s' (acts n))
    (hstep : ∀ b s a, P b s → ok s a → ¬Q s → ∃ b' s', step s a = some s' ∧ P b' s' ∧ b' < b)
    {b n : Nat} {r : σ} (hr : trace step s acts n = some r) (hP : P b r) :
    ∃ n' r', trace step s acts n' = some r' ∧ Q r' ∧ ∃ b', P b' r' := by
  induction b using Nat.strong_induction_on generalizing n r with
  | _ b ih =>
    by_cases hfinal : Q r
    · exact ⟨n, r, hr, hfinal, b, hP⟩
    · obtain ⟨b', r', hnext, hP', hlt⟩ := hstep b r _ hP (hok n r hr) hfinal
      exact ih b' hlt ((trace_succ hr).trans hnext) hP'

/-- A run under a guard is the beginning of the run of a supply that begins with its actions. -/
lemma Steps.trace_eq {f : Nat → α} {s s' : σ} {as : List α} (h : Steps step ok s as s')
    (hf : ∀ i a, as[i]? = some a → f i = a) :
    trace step s f as.length = some s' ∧
      ∀ n r, n < as.length → trace step s f n = some r → ok r (f n) := by
  induction h with
  | nil => exact ⟨rfl, fun n r hn => absurd hn (Nat.not_lt_zero n)⟩
  | @snoc as s' s'' a run hok hstep ih =>
    obtain ⟨htrace, hguard⟩ := ih fun i b hi => by
      obtain ⟨hlt, -⟩ := List.getElem?_eq_some_iff.1 hi
      exact hf i b (by rwa [List.getElem?_append_left hlt])
    have ha : f as.length = a := hf as.length a (by simp)
    rw [List.length_append, List.length_singleton]
    refine ⟨?_, ?_⟩
    · rw [trace_succ htrace, ha, hstep]
    · intro n r hn hr
      rcases Nat.lt_succ_iff_lt_or_eq.1 hn with hlt | rfl
      · exact hguard n r hlt hr
      · obtain rfl := Option.some.inj (htrace.symm.trans hr)
        rwa [ha]

/-- A run that has come to a state without a step does not go on. -/
lemma trace_of_stuck {s s' : σ} {n : Nat} (h : trace step s acts n = some s')
    (hstuck : step s' (acts n) = none) {k : Nat} (hk : n < k) : trace step s acts k = none := by
  induction k, hk using Nat.le_induction with
  | base => rw [trace_succ h, hstuck]
  | succ k _ ih => rw [trace, ih, Option.bind_none]

/-! ### Small systems

What a numeral of `Fin n` rests on, as a constant, so that the definitions of closed runs share
no proof. -/

instance neZero_two : NeZero 2 := ⟨by decide⟩

instance neZero_three : NeZero 3 := ⟨by decide⟩

instance neZero_four : NeZero 4 := ⟨by decide⟩

end TiPI
