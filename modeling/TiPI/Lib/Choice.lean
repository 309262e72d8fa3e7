import Mathlib.Data.List.Basic

/-!
# Computations with choices

A computation makes choices among finitely many, nonempty alternatives, and ends with a value or
fails. `Always` is its weakest precondition: no choices lead to a failure, and all lead to a value
with the property. It is computed along the computation, and it commutes with conjunctions.
-/

namespace TiPI

inductive Choice (α : Type)
  | ret (a : α)
  | fail
  /-- goes on with one of the numbers `0`, …, `n` -/
  | draw (n : Nat) (k : Nat → Choice α)

namespace Choice

variable {α β γ : Type}

def bind : Choice α → (α → Choice β) → Choice β
  | ret a, f => f a
  | fail, _ => fail
  | draw n k, f => draw n fun i => (k i).bind f

instance : Monad Choice where
  pure := ret
  bind := bind

/-- A number from `0` to `n`. -/
def upTo (n : Nat) : Choice Nat := draw n ret

/-- The computations one after the other. -/
def sequence : List (Choice α) → Choice (List α)
  | [] => ret []
  | m :: ms => m.bind fun a => (sequence ms).bind fun as => ret (a :: as)

/-- The value for the given choices. -/
def run : Choice α → List Nat → Option α
  | ret a, _ => some a
  | fail, _ => none
  | draw _ _, [] => none
  | draw n k, i :: is => if i ≤ n then (k i).run is else none

def Always : Choice α → (α → Prop) → Prop
  | ret a, P => P a
  | fail, _ => False
  | draw n k, P => ∀ i, i ≤ n → (k i).Always P

variable {m : Choice α} {f : α → Choice β} {P Q : α → Prop} {R : β → Prop}

@[simp] lemma always_ret (a : α) : (ret a).Always P ↔ P a := Iff.rfl

@[simp] lemma always_pure (a : α) : (pure a : Choice α).Always P ↔ P a := Iff.rfl

@[simp] lemma always_fail : (fail : Choice α).Always P ↔ False := Iff.rfl

@[simp] lemma always_upTo {n : Nat} {P : Nat → Prop} :
    (upTo n).Always P ↔ ∀ i, i ≤ n → P i := Iff.rfl

@[simp] lemma always_bind : (m.bind f).Always R ↔ m.Always fun a => (f a).Always R := by
  induction m with
  | ret a => rfl
  | fail => rfl
  | draw n k ih =>
    simp only [bind, Always]
    exact forall_congr' fun i => imp_congr_right fun _ => ih i

@[simp] lemma always_bind' : (m >>= f).Always R ↔ m.Always fun a => (f a).Always R := always_bind

lemma Always.imp (h : m.Always P) (hPQ : ∀ a, P a → Q a) : m.Always Q := by
  induction m with
  | ret a => exact hPQ a h
  | fail => exact h
  | draw n k ih => exact fun i hi => ih i (h i hi)

lemma always_congr (h : ∀ a, P a ↔ Q a) : m.Always P ↔ m.Always Q :=
  ⟨fun hm => hm.imp fun a => (h a).1, fun hm => hm.imp fun a => (h a).2⟩

lemma always_and : (m.Always fun a => P a ∧ Q a) ↔ m.Always P ∧ m.Always Q := by
  constructor
  · intro h
    exact ⟨h.imp fun _ => And.left, h.imp fun _ => And.right⟩
  · rintro ⟨hP, hQ⟩
    induction m with
    | ret a => exact ⟨hP, hQ⟩
    | fail => exact hP
    | draw n k ih => exact fun i hi => ih i (hP i hi) (hQ i hi)

/-- The computation does not fail. -/
def Safe (m : Choice α) : Prop := m.Always fun _ => True

lemma Always.safe (h : m.Always P) : m.Safe := h.imp fun _ _ => trivial

/-- Some choices lead to a value, so that a property of no value holds on its own. -/
lemma always_const {p : Prop} : (m.Always fun _ => p) ↔ m.Safe ∧ p := by
  constructor
  · intro h
    refine ⟨h.safe, ?_⟩
    induction m with
    | ret a => exact h
    | fail => exact h.elim
    | draw n k ih => exact ih 0 (h 0 (Nat.zero_le n))
  · rintro ⟨h, hp⟩
    exact h.imp fun _ _ => hp

/-- What does not depend on the value can be taken out. -/
lemma always_and_const {p : Prop} : (m.Always fun a => P a ∧ p) ↔ m.Always P ∧ p := by
  rw [always_and, always_const]
  constructor
  · rintro ⟨hP, -, hp⟩
    exact ⟨hP, hp⟩
  · rintro ⟨hP, hp⟩
    exact ⟨hP, hP.safe, hp⟩

lemma always_const_and {p : Prop} : (m.Always fun a => p ∧ P a) ↔ p ∧ m.Always P := by
  rw [and_comm, ← always_and_const]
  exact always_congr fun _ => and_comm

/-! ### Outcomes -/

lemma Always.of_run {is : List Nat} {a : α} (h : m.Always P) (hrun : m.run is = some a) : P a := by
  induction m generalizing is with
  | ret b =>
    cases hrun
    exact h
  | fail => exact h.elim
  | draw n k ih =>
    cases is with
    | nil => cases hrun
    | cons i is =>
      simp only [run] at hrun
      split at hrun
      · next hi => exact ih i (h i hi) hrun
      · cases hrun

/-! ### Sequences -/

lemma always_sequence_cons {ms : List (Choice α)} {R : List α → Prop} :
    (sequence (m :: ms)).Always R ↔
      m.Always fun a => (sequence ms).Always fun as => R (a :: as) := by
  simp [sequence]

/-- A property of each value by itself is one of each computation by itself. -/
lemma always_sequence_forall_mem {ms : List (Choice α)} :
    (sequence ms).Always (fun as => ∀ a ∈ as, Q a) ↔ ∀ m ∈ ms, m.Always Q := by
  induction ms with
  | nil => simp [sequence]
  | cons m ms ih =>
    simp only [always_sequence_cons, List.forall_mem_cons, always_const_and, always_and_const, ih]

lemma safe_sequence {ms : List (Choice α)} : (sequence ms).Safe ↔ ∀ m ∈ ms, m.Safe := by
  have hall : ((sequence ms).Always fun as => ∀ a ∈ as, True) ↔ ∀ m ∈ ms, m.Safe :=
    always_sequence_forall_mem
  rw [← hall, Safe]
  exact always_congr fun as => by simp

lemma always_length_sequence {ms : List (Choice α)} (h : ∀ m ∈ ms, m.Safe) :
    (sequence ms).Always fun as => as.length = ms.length := by
  induction ms with
  | nil => simp [sequence]
  | cons m ms ih =>
    rw [always_sequence_cons]
    rw [List.forall_mem_cons] at h
    apply h.1.imp
    intro a _
    apply (ih h.2).imp
    intro as has
    rw [List.length_cons, List.length_cons, has]

/-- What each value tells of the place it comes from. -/
lemma always_map_sequence {bs : List β} {k : β → Choice α} {g : α → β}
    (h : ∀ b ∈ bs, (k b).Always fun a => g a = b) :
    (sequence (bs.map k)).Always fun as => as.map g = bs := by
  induction bs with
  | nil => simp [sequence]
  | cons b bs ih =>
    rw [List.map_cons, always_sequence_cons]
    rw [List.forall_mem_cons] at h
    apply h.1.imp
    intro a ha
    apply (ih h.2).imp
    intro as has
    rw [List.map_cons, ha, has]

end Choice

end TiPI
