import Mathlib.Data.List.Basic
import Mathlib.Data.List.GetD
import Mathlib.Order.Lattice
import Mathlib.Order.MinMax
import Mathlib.Order.Nat

/-!
# Files

A file is the list of its bytes. A write behind the end leaves a hole of zeros in front of it, a
write of no bytes changes nothing.
-/

namespace TiPI

variable {α : Type*}

/-- `n` bytes from `offset` on; `none` when the file ends before. -/
def pread (file : List α) (offset n : Nat) : Option (List α) :=
  if offset + n ≤ file.length then some ((file.drop offset).take n) else none

/-- A part of what is read. -/
lemma pread_part {file bytes : List α} {offset n o k : Nat} (h : pread file offset n = some bytes)
    (hk : o + k ≤ n) : pread file (offset + o) k = some ((bytes.drop o).take k) := by
  rw [pread] at h ⊢
  split at h
  · next hle =>
    obtain rfl := Option.some.inj h
    rw [if_pos (by omega), List.drop_take, List.drop_drop, List.take_take,
      Nat.min_eq_left (by omega)]
  · cases h

variable [Zero α]

def pwrite (file : List α) (offset : Nat) (bytes : List α) : List α :=
  if bytes.isEmpty then file
  else (file ++ List.replicate (offset - file.length) 0).take offset ++ bytes ++
    file.drop (offset + bytes.length)

variable {file bytes : List α} {offset : Nat}

@[simp] lemma pwrite_nil (file : List α) (offset : Nat) : pwrite file offset [] = file := rfl

lemma length_pwrite (hb : bytes ≠ []) :
    (pwrite file offset bytes).length = max file.length (offset + bytes.length) := by
  rw [pwrite, if_neg (by simpa using hb)]
  simp only [List.length_append, List.length_take, List.length_replicate, List.length_drop]
  omega

lemma length_le_pwrite : file.length ≤ (pwrite file offset bytes).length := by
  by_cases hb : bytes = []
  · rw [hb, pwrite_nil]
  · rw [length_pwrite hb]
    exact Nat.le_max_left _ _

lemma getD_pwrite (i : Nat) : (pwrite file offset bytes).getD i 0 =
    if offset ≤ i ∧ i < offset + bytes.length then bytes.getD (i - offset) 0
    else file.getD i 0 := by
  by_cases hb : bytes = []
  · rw [hb, pwrite_nil, if_neg (by simp)]
  have hhead : ((file ++ List.replicate (offset - file.length) 0).take offset).length = offset := by
    simp only [List.length_take, List.length_append, List.length_replicate]
    omega
  rw [pwrite, if_neg (by simpa using hb), List.append_assoc]
  rcases Nat.lt_or_ge i offset with hi | hi
  · -- in front of the bytes: the file, or the hole
    rw [if_neg (by omega), List.getD_append _ _ _ _ (by omega), List.getD_eq_getElem?_getD,
      List.getElem?_take_of_lt hi, ← List.getD_eq_getElem?_getD]
    rcases Nat.lt_or_ge i file.length with hlen | hlen
    · rw [List.getD_append _ _ _ _ hlen]
    · rw [List.getD_append_right _ _ _ _ hlen, List.getD_eq_default _ _ hlen,
        List.getD_replicate 0 (by omega)]
  · rw [List.getD_append_right _ _ _ _ (by omega), hhead]
    rcases Nat.lt_or_ge i (offset + bytes.length) with hlt | hge
    · rw [if_pos ⟨hi, hlt⟩, List.getD_append _ _ _ _ (by omega)]
    · rw [if_neg (by omega), List.getD_append_right _ _ _ _ (by omega),
        List.getD_eq_getElem?_getD, List.getElem?_drop, ← List.getD_eq_getElem?_getD]
      congr 1
      omega

/-- Two files of the same length with the same bytes. -/
lemma eq_of_getD {l l' : List α} (hlen : l.length = l'.length)
    (h : ∀ i, i < l.length → l.getD i 0 = l'.getD i 0) : l = l' := by
  apply List.ext_getElem hlen
  intro i hi hi'
  have hi'' := h i hi
  rwa [List.getD_eq_getElem _ _ hi, List.getD_eq_getElem _ _ hi'] at hi''

lemma pread_eq_some_iff {n : Nat} : pread file offset n = some bytes ↔
    offset + n ≤ file.length ∧ bytes.length = n ∧
      ∀ i, i < n → bytes.getD i 0 = file.getD (offset + i) 0 := by
  have hbyte : ∀ i, i < n → ((file.drop offset).take n).getD i 0 = file.getD (offset + i) 0 := by
    intro i hi
    rw [List.getD_eq_getElem?_getD, List.getElem?_take_of_lt hi, List.getElem?_drop,
      ← List.getD_eq_getElem?_getD]
  rw [pread]
  constructor
  · intro h
    split at h
    · next hle =>
      obtain rfl := Option.some.inj h
      refine ⟨hle, ?_, hbyte⟩
      rw [List.length_take, List.length_drop]
      omega
    · cases h
  · rintro ⟨hle, hlen, hbytes⟩
    rw [if_pos hle]
    congr 1
    apply eq_of_getD
    · rw [List.length_take, List.length_drop]
      omega
    · intro i hi
      rw [List.length_take] at hi
      rw [hbyte i (by omega), hbytes i (by omega)]

lemma pread_pwrite_self {n : Nat} (hlen : bytes.length = n) (hpos : 0 < n) :
    pread (pwrite file offset bytes) offset n = some bytes := by
  subst hlen
  rw [pread_eq_some_iff, length_pwrite (List.ne_nil_of_length_pos hpos)]
  refine ⟨Nat.le_max_right _ _, rfl, ?_⟩
  intro i hi
  rw [getD_pwrite, if_pos ⟨Nat.le_add_right _ _, by omega⟩, Nat.add_sub_cancel_left]

/-- A write beside a place leaves what is read there. -/
lemma pread_pwrite_of_disjoint {offset' n : Nat} {bytes' : List α}
    (hread : pread file offset n = some bytes)
    (hdisj : offset + n ≤ offset' ∨ offset' + bytes'.length ≤ offset) :
    pread (pwrite file offset' bytes') offset n = some bytes := by
  rw [pread_eq_some_iff] at hread ⊢
  obtain ⟨hle, hlen, hbytes⟩ := hread
  refine ⟨hle.trans length_le_pwrite, hlen, ?_⟩
  intro i hi
  rw [getD_pwrite, if_neg (by omega), hbytes i hi]

lemma length_pwrite_of_le (h : offset + bytes.length ≤ file.length) :
    (pwrite file offset bytes).length = file.length := by
  by_cases hb : bytes = []
  · rw [hb, pwrite_nil]
  · rw [length_pwrite hb, Nat.max_eq_left h]

lemma pwrite_end (file bytes : List α) : pwrite file file.length bytes = file ++ bytes := by
  cases bytes with
  | nil => simp
  | cons b bytes => simp [pwrite]

/-- What has been written, at the end of the file or in it, is read back. -/
lemma pread_pwrite (h : offset ≤ file.length) :
    pread (pwrite file offset bytes) offset bytes.length = some bytes := by
  rcases Nat.eq_zero_or_pos bytes.length with hnil | hpos
  · obtain rfl := List.length_eq_zero_iff.1 hnil
    simp [pread, h]
  · exact pread_pwrite_self rfl hpos

/-- A shorter write over the front of a place. -/
lemma pread_pwrite_front {n : Nat} {bytes' : List α} (hread : pread file offset n = some bytes)
    (hle : bytes'.length ≤ n) :
    pread (pwrite file offset bytes') offset n = some (bytes' ++ bytes.drop bytes'.length) := by
  rw [pread_eq_some_iff] at hread ⊢
  obtain ⟨hend, hlen, hbytes⟩ := hread
  refine ⟨hend.trans length_le_pwrite, ?_, ?_⟩
  · rw [List.length_append, List.length_drop]
    omega
  · intro i hi
    rw [getD_pwrite]
    split_ifs with hin
    · rw [Nat.add_sub_cancel_left, List.getD_append _ _ _ _ (by omega)]
    · rw [List.getD_append_right _ _ _ _ (by omega), List.getD_eq_getElem?_getD, List.getElem?_drop,
        ← List.getD_eq_getElem?_getD, Nat.add_sub_cancel' (by omega), hbytes i hi]

/-! ### Copies of parts of a file -/

/-- The first `n` bytes from `offset` on, for each of the parts `(offset, n)`, copied to where they
stand in the source. -/
def copyParts (source : List α) (parts : List (Nat × Nat)) (file : List α) : List α :=
  parts.foldl (fun file part => pwrite file part.1 ((source.drop part.1).take part.2)) file

/-- Byte `i` lies in one of the parts. -/
def InPart (parts : List (Nat × Nat)) (i : Nat) : Prop :=
  ∃ part ∈ parts, part.1 ≤ i ∧ i < part.1 + part.2

instance (parts : List (Nat × Nat)) (i : Nat) : Decidable (InPart parts i) :=
  inferInstanceAs (Decidable (∃ part ∈ parts, part.1 ≤ i ∧ i < part.1 + part.2))

variable {source : List α} {parts : List (Nat × Nat)}

omit [Zero α] in
lemma length_part {part : Nat × Nat} (h : part.1 + part.2 ≤ source.length) :
    ((source.drop part.1).take part.2).length = part.2 := by
  rw [List.length_take, List.length_drop]
  omega

lemma getD_copyParts (hparts : ∀ part ∈ parts, part.1 + part.2 ≤ source.length) (i : Nat) :
    (copyParts source parts file).getD i 0 =
      if InPart parts i then source.getD i 0 else file.getD i 0 := by
  induction parts generalizing file with
  | nil => simp [copyParts, InPart]
  | cons part parts ih =>
    rw [List.forall_mem_cons] at hparts
    have hin : InPart (part :: parts) i ↔
        (part.1 ≤ i ∧ i < part.1 + part.2) ∨ InPart parts i := by
      simp [InPart]
    have hstep : copyParts source (part :: parts) file =
        copyParts source parts (pwrite file part.1 ((source.drop part.1).take part.2)) := rfl
    rw [hstep, ih hparts.2, getD_pwrite, length_part hparts.1]
    by_cases hrest : InPart parts i
    · rw [if_pos hrest, if_pos (hin.2 (.inr hrest))]
    · rw [if_neg hrest]
      by_cases hfirst : part.1 ≤ i ∧ i < part.1 + part.2
      · rw [if_pos hfirst, if_pos (hin.2 (.inl hfirst)), List.getD_eq_getElem?_getD,
          List.getElem?_take_of_lt (by omega), List.getElem?_drop, ← List.getD_eq_getElem?_getD,
          Nat.add_sub_cancel' hfirst.1]
      · rw [if_neg hfirst, if_neg (by simp [hin, hfirst, hrest])]

/-- A file ends where it did, or where a part does. -/
lemma lt_length_copyParts_iff (hparts : ∀ part ∈ parts, part.1 + part.2 ≤ source.length) (i : Nat) :
    i < (copyParts source parts file).length ↔
      i < file.length ∨ ∃ part ∈ parts, 0 < part.2 ∧ i < part.1 + part.2 := by
  induction parts generalizing file with
  | nil => simp [copyParts]
  | cons part parts ih =>
    rw [List.forall_mem_cons] at hparts
    have hstep : copyParts source (part :: parts) file =
        copyParts source parts (pwrite file part.1 ((source.drop part.1).take part.2)) := rfl
    have hlen := length_part hparts.1
    have hfirst : i < (pwrite file part.1 ((source.drop part.1).take part.2)).length ↔
        i < file.length ∨ (0 < part.2 ∧ i < part.1 + part.2) := by
      by_cases hzero : part.2 = 0
      · rw [hzero, List.take_zero, pwrite_nil]
        simp
      · have hne : (source.drop part.1).take part.2 ≠ [] := by
          apply List.ne_nil_of_length_pos
          omega
        rw [length_pwrite hne, hlen, lt_max_iff]
        simp [Nat.pos_of_ne_zero hzero]
    rw [hstep, ih hparts.2, hfirst]
    simp [or_assoc]

/-- Parts copied into an empty file make the source exactly when each byte lies in a part, or is a
zero in front of the end of one. -/
lemma copyParts_nil_eq_iff (hparts : ∀ part ∈ parts, part.1 + part.2 ≤ source.length) :
    copyParts source parts [] = source ↔ ∀ i, i < source.length →
      InPart parts i ∨
        source.getD i 0 = 0 ∧ ∃ part ∈ parts, 0 < part.2 ∧ i < part.1 + part.2 := by
  have hlt := fun i => @lt_length_copyParts_iff α _ [] source parts hparts i
  have hget := fun i => @getD_copyParts α _ [] source parts hparts i
  constructor
  · intro heq i hi
    rw [heq] at hlt hget
    by_cases hin : InPart parts i
    · exact .inl hin
    · refine .inr ⟨?_, ?_⟩
      · rw [hget i, if_neg hin, List.getD_nil]
      · simpa using (hlt i).1 hi
  · intro h
    have hlen : (copyParts source parts []).length = source.length := by
      apply Nat.le_antisymm
      · by_contra hge
        obtain hpos | ⟨part, hpart, -, hend⟩ := (hlt source.length).1 (Nat.lt_of_not_ge hge)
        · simp at hpos
        · exact absurd (hparts part hpart) (by omega)
      · by_contra hge
        set i := (copyParts source parts []).length with hi
        have hlong := h i (Nat.lt_of_not_ge hge)
        have hshort : ¬i < (copyParts source parts []).length := by omega
        apply hshort
        rw [hlt i]
        rcases hlong with ⟨part, hpart, hfrom, hto⟩ | ⟨-, part, hpart, hpos, hto⟩
        · exact .inr ⟨part, hpart, by omega, hto⟩
        · exact .inr ⟨part, hpart, hpos, hto⟩
    apply eq_of_getD hlen
    intro i hi
    rw [hget i]
    split_ifs with hin
    · rfl
    · rw [List.getD_nil]
      exact ((h i (by omega)).resolve_left hin).1.symm

end TiPI
