import Mathlib.Data.List.Sort

/-!
# The upper median

The value in the middle of the sorted list is the greatest that at least half of the values reach.
-/

namespace TiPI

variable {α : Type*} [LinearOrder α] {l : List α} {v : α}

def upperMedian (l : List α) : Option α := (l.insertionSort (· ≤ ·))[l.length / 2]?

lemma upperMedian_le (h : upperMedian l = some v) :
    ∀ a ∈ (l.insertionSort (· ≤ ·)).drop (l.length / 2), v ≤ a := by
  obtain ⟨hlt, hv⟩ := List.getElem?_eq_some_iff.mp h
  have hsorted := (List.pairwise_insertionSort (· ≤ ·) l).drop (i := l.length / 2)
  rw [List.drop_eq_getElem_cons hlt, hv] at hsorted ⊢
  intro a ha
  rcases List.mem_cons.mp ha with rfl | ha
  · exact le_rfl
  · exact List.rel_of_pairwise_cons hsorted ha

lemma half_le_countP (h : upperMedian l = some v) :
    l.length - l.length / 2 ≤ l.countP (fun a => decide (v ≤ a)) := by
  have hdrop : ((l.insertionSort (· ≤ ·)).drop (l.length / 2)).countP (fun a => decide (v ≤ a)) =
      l.length - l.length / 2 := by
    rw [List.countP_eq_length.mpr fun a ha => decide_eq_true (upperMedian_le h a ha),
      List.length_drop, List.length_insertionSort]
  calc l.length - l.length / 2
      = ((l.insertionSort (· ≤ ·)).drop (l.length / 2)).countP (fun a => decide (v ≤ a)) :=
        hdrop.symm
    _ ≤ (l.insertionSort (· ≤ ·)).countP (fun a => decide (v ≤ a)) :=
        (List.drop_sublist _ _).countP_le
    _ = l.countP (fun a => decide (v ≤ a)) := (List.perm_insertionSort _ l).countP_eq _

lemma exists_upperMedian (hl : l ≠ []) : ∃ v, upperMedian l = some v := by
  have hpos := List.length_pos_of_ne_nil hl
  have hlt : l.length / 2 < (l.insertionSort (· ≤ ·)).length := by
    rw [List.length_insertionSort]
    exact Nat.div_lt_self hpos (by decide)
  exact ⟨_, List.getElem?_eq_getElem hlt⟩

lemma le_of_upperMedian (h : upperMedian l = some v) :
    ∀ a ∈ (l.insertionSort (· ≤ ·)).take (l.length / 2 + 1), a ≤ v := by
  obtain ⟨hlt, hv⟩ := List.getElem?_eq_some_iff.mp h
  intro a ha
  obtain ⟨i, hi, rfl⟩ := List.mem_take_iff_getElem.1 ha
  rw [← hv]
  refine List.SortedLE.getElem_le_getElem_of_le ?_ ?_
  · exact List.sortedLE_insertionSort
  · omega

/-- A value that half of the list reaches is not above the median. -/
lemma le_upperMedian (h : upperMedian l = some v) {w : α}
    (hw : l.length - l.length / 2 ≤ l.countP (fun a => decide (w ≤ a))) : w ≤ v := by
  by_contra hlt
  rw [not_le] at hlt
  have htake : ((l.insertionSort (· ≤ ·)).take (l.length / 2 + 1)).countP
      (fun a => decide (w ≤ a)) = 0 := by
    rw [List.countP_eq_zero]
    intro a ha
    rw [decide_eq_true_eq, not_le]
    exact (le_of_upperMedian h a ha).trans_lt hlt
  have hdrop : ((l.insertionSort (· ≤ ·)).drop (l.length / 2 + 1)).countP
      (fun a => decide (w ≤ a)) ≤ l.length - (l.length / 2 + 1) := by
    refine List.countP_le_length.trans_eq ?_
    rw [List.length_drop, List.length_insertionSort]
  have hsplit : l.countP (fun a => decide (w ≤ a)) ≤ l.length - (l.length / 2 + 1) := by
    rw [← (List.perm_insertionSort (· ≤ ·) l).countP_eq,
      ← List.take_append_drop (l.length / 2 + 1) (l.insertionSort (· ≤ ·)), List.countP_append,
      htake, Nat.zero_add]
    exact hdrop
  have hpos : l.length / 2 < l.length := by
    obtain ⟨hlen, _⟩ := List.getElem?_eq_some_iff.mp h
    rwa [List.length_insertionSort] at hlen
  omega

end TiPI
