import Mathlib.Logic.Function.Basic
import Mathlib.Data.List.Basic
import Mathlib.Tactic.Common

/-!
# Replicated lists

A family of lists agrees when two of them that have a value at one place have the same value
there, up to a function `f`. The ways a replica is changed: it is cut back, or one value is put
behind it that every other replica with a value at this place has, too.
-/

namespace TiPI

variable {ι α β : Type*} {f : α → β} {logs logs' : ι → List α}

def Agree (f : α → β) (logs : ι → List α) : Prop :=
  ∀ (i j : ι) (k : Nat) (a b : α), (logs i)[k]? = some a → (logs j)[k]? = some b → f a = f b

lemma getElem?_mono {xs ys : List α} (h : xs <+: ys) {k : Nat} {a : α}
    (hk : xs[k]? = some a) : ys[k]? = some a := by
  obtain ⟨rest, rfl⟩ := h
  rw [List.getElem?_append_left (List.getElem?_eq_some_iff.mp hk).1]
  exact hk

lemma Agree.mono (h : Agree f logs) (hp : ∀ i, logs' i <+: logs i) : Agree f logs' :=
  fun i j k a b ha hb =>
    h i j k a b (getElem?_mono (hp i) ha) (getElem?_mono (hp j) hb)

/-- What `x` has to meet to be put behind replica `i`. -/
def Fits (f : α → β) (logs : ι → List α) (i : ι) (x : α) : Prop :=
  ∀ j, j ≠ i → ∀ b, (logs j)[(logs i).length]? = some b → f x = f b

/-- No other replica is longer. -/
lemma Fits.of_longest {i : ι} {x : α} (h : ∀ j, (logs j).length ≤ (logs i).length) :
    Fits f logs i x := by
  intro j _ b hb
  have hlt := (List.getElem?_eq_some_iff.mp hb).1
  exact absurd hlt (Nat.not_lt.mpr (h j))

/-- Some replica already has the value at this place. -/
lemma Fits.of_copy (h : Agree f logs) {i j : ι} {x y : α}
    (hy : (logs j)[(logs i).length]? = some y) (hxy : f x = f y) : Fits f logs i x :=
  fun j' _ b hb => hxy.trans (h j j' _ y b hy hb)

variable [DecidableEq ι]

lemma Agree.cut (h : Agree f logs) {i : ι} {xs : List α} (hp : xs <+: logs i) :
    Agree f (Function.update logs i xs) := by
  refine h.mono fun j => ?_
  by_cases hj : j = i
  · subst hj
    rwa [Function.update_self]
  · have hsame : Function.update logs i xs j = logs j := Function.update_of_ne hj _ _
    exact hsame ▸ List.prefix_rfl

lemma Agree.extend (h : Agree f logs) {i : ι} {x : α} (hx : Fits f logs i x) :
    Agree f (Function.update logs i (logs i ++ [x])) := by
  have hnew : ∀ (j : ι) (k : Nat) (a b : α), j ≠ i → (logs i ++ [x])[k]? = some a →
      (logs j)[k]? = some b → f a = f b := by
    intro j k a b hj ha hb
    rw [List.getElem?_append] at ha
    split at ha
    · exact h i j k a b ha hb
    · next hlt =>
      obtain ⟨hk, hxa⟩ := List.getElem?_eq_some_iff.mp ha
      rw [List.length_singleton] at hk
      obtain rfl : k = (logs i).length := by omega
      obtain rfl : x = a := by simpa using hxa
      exact hx j hj b hb
  intro j j' k a b ha hb
  by_cases hj : j = i <;> by_cases hj' : j' = i
  · subst hj
    subst hj'
    rw [ha] at hb
    rw [Option.some.inj hb]
  · subst hj
    rw [Function.update_self] at ha
    rw [Function.update_of_ne hj'] at hb
    exact hnew j' k a b hj' ha hb
  · subst hj'
    rw [Function.update_of_ne hj] at ha
    rw [Function.update_self] at hb
    exact (hnew j k b a hj hb ha).symm
  · rw [Function.update_of_ne hj] at ha
    rw [Function.update_of_ne hj'] at hb
    exact h j j' k a b ha hb

end TiPI
