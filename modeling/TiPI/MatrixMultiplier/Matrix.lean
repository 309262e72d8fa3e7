import TiPI.Lib.Interleave
import Mathlib.Algebra.BigOperators.Intervals
import Mathlib.Algebra.Ring.Int.Defs
import Mathlib.Data.List.Range

/-!
# Matrices and their plain products

`QMatrix` and `QMatrix::multiply` of the versions V1 and V2. The loops of a product are given by the
executions of their innermost statement, in program order.
-/

namespace TiPI.MatrixMultiplier

/-- A matrix that fits in memory has so few rows that an `int` counts them. -/
structure QMatrix (α : Type) where
  size : Nat
  data : Nat → α

/-- `C.at(i, j) += A.at(i, k) * B.at(k, j);` -/
structure Update where
  i : Nat
  k : Nat
  j : Nat
  deriving DecidableEq

/-- `for (int i = start; i < stop; i += step)` -/
def forLoop (start stop step : Nat) (body : Nat → List Update) : List Update :=
  (List.range' start ((stop - start + (step - 1)) / step) step).flatMap body

namespace QMatrix

variable {α : Type}

/-- `at(i, j)` -/
def entry (m : QMatrix α) (i j : Nat) : α := m.data (i * m.size + j)

/-- `QMatrix(size)`, where `memory` is what `new double[size_ * size_]` holds: the `memset` clears
`size_` doubles of it. -/
def new [Zero α] (size : Nat) (memory : Nat → α) : QMatrix α where
  size := size
  data p := if p < size then 0 else memory p

def accumulate [Add α] [Mul α] (A B C : QMatrix α) (u : Update) : QMatrix α :=
  { C with
    data := Function.update C.data (u.i * C.size + u.j)
      (C.entry u.i u.j + A.entry u.i u.k * B.entry u.k u.j) }

/-- The beginning of every `multiply`. -/
def checkSizes (A B : QMatrix α) : Except String Unit :=
  if A.size ≠ B.size then throw "A and B matrices have different size" else pure ()

variable [Zero α] [Add α] [Mul α]

/-- The products of the versions without threads. -/
def multiply (updates : Nat → List Update) (A B : QMatrix α) (memory : Nat → α) :
    Except String (QMatrix α) := do
  checkSizes A B
  return (updates A.size).foldl (accumulate A B) (new A.size memory)

end QMatrix

namespace V1

def updates (size : Nat) : List Update :=
  forLoop 0 size 1 fun i => forLoop 0 size 1 fun j => forLoop 0 size 1 fun k => [⟨i, k, j⟩]

variable {α : Type} [Zero α] [Add α] [Mul α]

def multiply (A B : QMatrix α) (_nThreads : Nat) (memory : Nat → α) : Except String (QMatrix α) :=
  QMatrix.multiply updates A B memory

end V1

namespace V2

def updates (size : Nat) : List Update :=
  forLoop 0 size 1 fun i => forLoop 0 size 1 fun k => forLoop 0 size 1 fun j => [⟨i, k, j⟩]

variable {α : Type} [Zero α] [Add α] [Mul α]

def multiply (A B : QMatrix α) (_nThreads : Nat) (memory : Nat → α) : Except String (QMatrix α) :=
  QMatrix.multiply updates A B memory

end V2

/-! ### Loops -/

section

variable {start stop step a n : Nat} {body : Nat → List Update} {u : Update}

lemma mem_forLoop : u ∈ forLoop start stop 1 body ↔ ∃ a, start ≤ a ∧ a < stop ∧ u ∈ body a := by
  simp only [forLoop, Nat.sub_self, Nat.add_zero, Nat.div_one, List.mem_flatMap,
    List.mem_range'_1]
  constructor
  · rintro ⟨a, ⟨hlo, hhi⟩, hu⟩
    exact ⟨a, hlo, by omega, hu⟩
  · rintro ⟨a, hlo, hhi, hu⟩
    exact ⟨a, ⟨hlo, by omega⟩, hu⟩

lemma filter_forLoop (c : Update → Bool) :
    (forLoop start stop step body).filter c =
      forLoop start stop step fun a => (body a).filter c :=
  List.filter_flatMap

lemma flatMap_eq_of_unique {ι β : Type} {l : List ι} {f : ι → List β} {a : ι} (hl : l.Nodup)
    (ha : a ∈ l) (h : ∀ b ≠ a, f b = []) : l.flatMap f = f a := by
  obtain ⟨l₁, l₂, rfl⟩ := List.append_of_mem ha
  have hnot : ∀ b ∈ l₁ ++ l₂, f b = [] := by
    intro b hb
    refine h b fun hba => ?_
    rw [hba] at hb
    exact (List.nodup_middle.1 hl).notMem hb
  rw [List.flatMap_append, List.flatMap_cons,
    List.flatMap_eq_nil_iff.2 fun b hb => hnot b (List.mem_append_left _ hb),
    List.flatMap_eq_nil_iff.2 fun b hb => hnot b (List.mem_append_right _ hb), List.nil_append,
    List.append_nil]

/-- A loop of which one round alone does something. -/
lemma forLoop_eq_of_unique (hlo : start ≤ a) (hhi : a < stop) (h : ∀ b ≠ a, body b = []) :
    forLoop start stop 1 body = body a := by
  refine flatMap_eq_of_unique (List.nodup_range' 1) ?_ h
  rw [List.mem_range'_1]
  omega

lemma forLoop_singleton (g : Nat → Update) :
    (forLoop 0 n 1 fun k => [g k]) = (List.range n).map g := by
  rw [forLoop, ← List.map_eq_flatMap, List.range_eq_range']
  simp

end

/-! ### Which products an element gets -/

/-- The update is one of the element `(i, j)`. -/
def Update.isAt (i j : Nat) (u : Update) : Bool := u.i = i ∧ u.j = j

/-- The products of an element in ascending `k`. -/
def products (n i j : Nat) : List Update := (List.range n).map fun k => ⟨i, k, j⟩

/-- Indices are below `n`, and every element gets its products in ascending `k`. -/
structure Ordered (n : Nat) (l : List Update) : Prop where
  inRange : ∀ u ∈ l, u.i < n ∧ u.k < n ∧ u.j < n
  inOrder : ∀ i < n, ∀ j < n, l.filter (Update.isAt i j) = products n i j

section

variable {n i j : Nat} {u : Update}

lemma isAt_iff : u.isAt i j = true ↔ u.i = i ∧ u.j = j := by
  simp [Update.isAt]

lemma isAt_self (i k j : Nat) : Update.isAt i j ⟨i, k, j⟩ = true := isAt_iff.2 ⟨rfl, rfl⟩

/-- Updates of other rows are no updates of the element. -/
lemma filter_eq_nil_of_row {l : List Update} (h : ∀ u ∈ l, u.i ≠ i) :
    l.filter (Update.isAt i j) = [] := by
  rw [List.filter_eq_nil_iff]
  intro u hu hat
  exact h u hu (isAt_iff.1 hat).1

namespace V1

lemma ordered (n : Nat) : Ordered n (updates n) where
  inRange u hu := by
    simp only [updates, mem_forLoop, List.mem_singleton] at hu
    obtain ⟨i, -, hi, j, -, hj, k, -, hk, rfl⟩ := hu
    exact ⟨hi, hk, hj⟩
  inOrder i hi j hj := by
    have hrow : ∀ b ≠ i, (forLoop 0 n 1 fun j => forLoop 0 n 1 fun k => [⟨b, k, j⟩]).filter
        (Update.isAt i j) = [] := by
      intro b hb
      refine filter_eq_nil_of_row fun u hu => ?_
      simp only [mem_forLoop, List.mem_singleton] at hu
      obtain ⟨_, -, -, k, -, -, rfl⟩ := hu
      exact hb
    have hcolumn : ∀ b ≠ j, (forLoop 0 n 1 fun k => [⟨i, k, b⟩]).filter (Update.isAt i j) = [] := by
      intro b hb
      rw [List.filter_eq_nil_iff]
      intro u hu hat
      simp only [mem_forLoop, List.mem_singleton] at hu
      obtain ⟨k, -, -, rfl⟩ := hu
      exact hb (isAt_iff.1 hat).2
    rw [updates, filter_forLoop, forLoop_eq_of_unique (Nat.zero_le i) hi hrow, filter_forLoop,
      forLoop_eq_of_unique (Nat.zero_le j) hj hcolumn, forLoop_singleton, products,
      List.filter_eq_self]
    intro u hu
    obtain ⟨k, -, rfl⟩ := List.mem_map.1 hu
    exact isAt_self i k j

end V1

/-- The loops over `k` and `j` for the rows from `start` on. -/
def rows (n start stop : Nat) : List Update :=
  forLoop start stop 1 fun i => forLoop 0 n 1 fun k => forLoop 0 n 1 fun j => [⟨i, k, j⟩]

lemma mem_rows {start stop : Nat} :
    u ∈ rows n start stop ↔ (start ≤ u.i ∧ u.i < stop) ∧ u.k < n ∧ u.j < n := by
  simp only [rows, mem_forLoop, List.mem_singleton]
  constructor
  · rintro ⟨i, hlo, hhi, k, -, hk, j, -, hj, rfl⟩
    exact ⟨⟨hlo, hhi⟩, hk, hj⟩
  · rintro ⟨⟨hlo, hhi⟩, hk, hj⟩
    exact ⟨u.i, hlo, hhi, u.k, Nat.zero_le _, hk, u.j, Nat.zero_le _, hj, rfl⟩

/-- The elements of a row get their products in ascending `k`, although `j` is the inner loop. -/
lemma filter_rows {start stop : Nat} (hlo : start ≤ i) (hhi : i < stop) (hj : j < n) :
    (rows n start stop).filter (Update.isAt i j) = products n i j := by
  have hrow : ∀ b ≠ i, (forLoop 0 n 1 fun k => forLoop 0 n 1 fun j => [⟨b, k, j⟩]).filter
      (Update.isAt i j) = [] := by
    intro b hb
    refine filter_eq_nil_of_row fun u hu => ?_
    simp only [mem_forLoop, List.mem_singleton] at hu
    obtain ⟨k, -, -, _, -, -, rfl⟩ := hu
    exact hb
  have hproduct : ∀ k, ((forLoop 0 n 1 fun j => [⟨i, k, j⟩]).filter (Update.isAt i j)) =
      [⟨i, k, j⟩] := by
    intro k
    have hcolumn : ∀ b ≠ j, [(⟨i, k, b⟩ : Update)].filter (Update.isAt i j) = [] := by
      intro b hb
      rw [List.filter_cons_of_neg fun hat => hb (isAt_iff.1 hat).2, List.filter_nil]
    rw [filter_forLoop, forLoop_eq_of_unique (Nat.zero_le j) hj hcolumn,
      List.filter_cons_of_pos (isAt_self i k j), List.filter_nil]
  rw [rows, filter_forLoop, forLoop_eq_of_unique hlo hhi hrow, filter_forLoop]
  simp only [hproduct]
  rw [forLoop_singleton, products]

lemma V2.ordered (n : Nat) : Ordered n (V2.updates n) where
  inRange u hu := by
    obtain ⟨⟨-, hi⟩, hk, hj⟩ := mem_rows.1 hu
    exact ⟨hi, hk, hj⟩
  inOrder i hi j hj := filter_rows (Nat.zero_le i) hi hj

end

/-! ### The result of the updates -/

section

variable {α : Type} [Add α] [Mul α] {A B C : QMatrix α} {n i j : Nat} {l l' : List Update}

/-- The update of a cell that an execution of the statement makes. -/
def accumulated (A B : QMatrix α) (u : Update) (x : α) : α :=
  x + A.entry u.i u.k * B.entry u.k u.j

lemma foldl_accumulate (l : List Update) (C : QMatrix α) :
    l.foldl (QMatrix.accumulate A B) C =
      ⟨C.size, l.foldl (updateCell (fun u => u.i * C.size + u.j) (accumulated A B)) C.data⟩ := by
  induction l generalizing C with
  | nil => rfl
  | cons u l ih =>
    rw [List.foldl_cons, List.foldl_cons, ih]
    rfl

/-- An index of the array is one of a row and a column. -/
lemma index_eq_iff {c m : Nat} (hm : m < n) :
    i * n + m = c ↔ i = c / n ∧ m = c % n := by
  constructor
  · rintro rfl
    rw [Nat.mul_comm, Nat.mul_add_div (by omega), Nat.div_eq_of_lt hm, Nat.mul_add_mod,
      Nat.mod_eq_of_lt hm]
    exact ⟨rfl, rfl⟩
  · rintro ⟨rfl, rfl⟩
    exact Nat.div_add_mod' c n

lemma Ordered.filter_index (h : Ordered n l) (c : Nat) :
    (l.filter fun u => u.i * n + u.j = c) = l.filter (Update.isAt (c / n) (c % n)) := by
  refine List.filter_congr fun u hu => ?_
  obtain ⟨-, -, hj⟩ := h.inRange u hu
  rw [Bool.eq_iff_iff, isAt_iff, decide_eq_true_eq]
  exact index_eq_iff hj

/-- Two orders of the updates that treat every element alike have the same result. -/
lemma Ordered.foldl_eq (h : Ordered n l) (h' : Ordered n l') (hC : C.size = n) :
    l.foldl (QMatrix.accumulate A B) C = l'.foldl (QMatrix.accumulate A B) C := by
  subst hC
  rw [foldl_accumulate, foldl_accumulate]
  refine congrArg (QMatrix.mk C.size) (foldl_updateCell_congr _ _ (fun c => ?_) C.data)
  rw [h.filter_index, h'.filter_index]
  by_cases hrow : c / C.size < C.size
  · have hcol : c % C.size < C.size := Nat.mod_lt _ (Nat.zero_lt_of_lt hrow)
    rw [h.inOrder _ hrow _ hcol, h'.inOrder _ hrow _ hcol]
  · have hnone : ∀ l, Ordered C.size l →
        l.filter (Update.isAt (c / C.size) (c % C.size)) = [] := by
      intro l hl
      refine filter_eq_nil_of_row fun u hu heq => hrow ?_
      rw [← heq]
      exact (hl.inRange u hu).1
    rw [hnone l h, hnone l' h']

/-- An element gets its products one after the other. -/
lemma Ordered.entry_foldl (h : Ordered n l) (hC : C.size = n) (hi : i < n) (hj : j < n) :
    (l.foldl (QMatrix.accumulate A B) C).entry i j =
      (List.range n).foldl (fun x k => x + A.entry i k * B.entry k j) (C.entry i j) := by
  subst hC
  have hindex := (index_eq_iff hj).1 (rfl : i * C.size + j = _)
  rw [foldl_accumulate]
  simp only [QMatrix.entry]
  rw [foldl_updateCell, h.filter_index, ← hindex.1, ← hindex.2, h.inOrder i hi j hj, products,
    List.foldl_map]
  rfl

end

section

variable {α : Type} [Zero α] [Add α] [Mul α]

lemma V1.multiply_eq (n : Nat) (a b memory : Nat → α) (nThreads : Nat) :
    V1.multiply ⟨n, a⟩ ⟨n, b⟩ nThreads memory =
      .ok ((V1.updates n).foldl (QMatrix.accumulate ⟨n, a⟩ ⟨n, b⟩) (QMatrix.new n memory)) := by
  rw [multiply, QMatrix.multiply, QMatrix.checkSizes, if_neg (not_not.2 rfl)]
  rfl

lemma V2.multiply_eq (n : Nat) (a b memory : Nat → α) (nThreads : Nat) :
    V2.multiply ⟨n, a⟩ ⟨n, b⟩ nThreads memory =
      .ok ((V2.updates n).foldl (QMatrix.accumulate ⟨n, a⟩ ⟨n, b⟩) (QMatrix.new n memory)) := by
  rw [multiply, QMatrix.multiply, QMatrix.checkSizes, if_neg (not_not.2 rfl)]
  rfl

end

/-! ### The product from fresh memory -/

section

variable {R : Type} [Ring R]

lemma foldl_add_eq_sum (f : Nat → R) (n : Nat) (x : R) :
    (List.range n).foldl (fun x k => x + f k) x = x + ∑ k ∈ Finset.range n, f k := by
  induction n with
  | zero => simp
  | succ n ih =>
    rw [List.range_succ, List.foldl_append, ih, Finset.sum_range_succ, ← add_assoc]
    rfl

/-- The product is right exactly when the memory that the `memset` does not reach is zero. -/
theorem V1.multiply_eq_sum_iff (n : Nat) (a b memory : Nat → R) (nThreads : Nat) :
    (∃ C, V1.multiply ⟨n, a⟩ ⟨n, b⟩ nThreads memory = .ok C ∧ C.size = n ∧
      ∀ i < n, ∀ j < n, C.entry i j = ∑ k ∈ Finset.range n,
        QMatrix.entry ⟨n, a⟩ i k * QMatrix.entry ⟨n, b⟩ k j) ↔
      ∀ p, n ≤ p → p < n * n → memory p = 0 := by
  have hentry : ∀ i < n, ∀ j < n,
      ((V1.updates n).foldl (QMatrix.accumulate ⟨n, a⟩ ⟨n, b⟩) (QMatrix.new n memory)).entry i j =
        (QMatrix.new n memory).entry i j + ∑ k ∈ Finset.range n,
          QMatrix.entry ⟨n, a⟩ i k * QMatrix.entry ⟨n, b⟩ k j := by
    intro i hi j hj
    rw [(V1.ordered n).entry_foldl rfl hi hj, foldl_add_eq_sum]
  rw [multiply_eq]
  constructor
  · rintro ⟨C, hC, -, hsum⟩ p hlo hhi
    cases hC
    have hn : 0 < n := Nat.pos_of_ne_zero fun h0 => by simp [h0] at hhi
    have hrow : p / n < n := Nat.div_lt_of_lt_mul hhi
    have hcol : p % n < n := Nat.mod_lt p hn
    have heq := hsum _ hrow _ hcol
    rw [hentry _ hrow _ hcol, add_eq_right] at heq
    simpa [QMatrix.entry, QMatrix.new, Nat.div_add_mod', Nat.not_lt.2 hlo] using heq
  · intro hzero
    refine ⟨_, rfl, by rw [foldl_accumulate]; rfl, fun i hi j hj => ?_⟩
    have hindex : i * n + j < n * n := by
      calc i * n + j < i * n + n := Nat.add_lt_add_left hj _
        _ = (i + 1) * n := (Nat.succ_mul i n).symm
        _ ≤ n * n := Nat.mul_le_mul_right n hi
    have hinit : (QMatrix.new n memory).entry i j = 0 := by
      simp only [QMatrix.entry, QMatrix.new]
      split
      · rfl
      · next hreach => exact hzero _ (Nat.not_lt.1 hreach) hindex
    rw [hentry i hi j hj, hinit, zero_add]

end

/-- Two by two zeros in memory full of ones. -/
theorem V1.multiply_keeps_memory :
    ∃ C, V1.multiply (α := Int) ⟨2, fun _ => 0⟩ ⟨2, fun _ => 0⟩ 1 (fun _ => 1) = .ok C ∧
      C.entry 1 0 = 1 ∧ ∑ k ∈ Finset.range 2, QMatrix.entry (α := Int) ⟨2, fun _ => 0⟩ 1 k *
        QMatrix.entry ⟨2, fun _ => 0⟩ k 0 = 0 :=
  ⟨_, rfl, by decide, by decide⟩

end TiPI.MatrixMultiplier
