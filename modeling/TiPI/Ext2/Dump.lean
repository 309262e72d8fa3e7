import TiPI.Ext2.Blocks

/-!
# Dumping a file

`Reader::printFile` writes the blocks of a file until the first hole.
-/

namespace TiPI.Ext2

section

variable (image : Image) (b : Nat) (buff : List UInt8)

def fileByte (j : Nat) : UInt8 :=
  if address image b buff (j / b) = 0 then 0
  else image.byte (address image b buff (j / b) * b + j % b)

def content : List UInt8 := (List.range (fileSize buff)).map (fileByte image b buff)

/-- The first `n` bytes that come out when no pointer is `0`. -/
def dumped (n : Nat) : List UInt8 :=
  (List.range n).map fun j => image.byte ((position image b buff (j / b)).toNat + j % b)

end

variable {image : Image} {g : Globals} {b : Nat} {buff : List UInt8}

/-! ### What one round of the loop does -/

section

variable {ino : Inode} {w : World}

lemma run_printData_zero (hnext : (ino.nextBlock image g).run w = .ok 0 w) :
    (ino.printData image g).run w = .ok (0, ino) w := by
  simp [Inode.printData, hnext]

lemma run_printData {ptr : Int} (hnext : (ino.nextBlock image g).run w = .ok ptr w)
    (hptr : ptr ≠ 0) (hb : g.blckSize = b) (hblt : b < 2 ^ 31) {S : Nat} (hS : ino.size = S)
    (hlt : S < 2 ^ 31) (hle : ino.ind * b ≤ S) (herrno : w.errno = 0)
    (hholds : image.Holds (int32 (ptr * b)) (min b (S - ino.ind * b))) :
    (ino.printData image g).run w =
      .ok ((min b (S - ino.ind * b) : Nat), { ino with ind := ino.ind + 1 })
        (w.write (image.bytes (int32 (ptr * b)).toNat (min b (S - ino.ind * b)))) := by
  have hend := not_past_end hb hS hlt hle
  have hleft : sizeT (sizeT ino.size - sizeT (ino.ind * g.blckSize)) = S - ino.ind * b := by
    rw [hS, hb, ← Int.natCast_mul, sizeT_of_lt (by omega), sizeT_of_lt (by omega),
      ← Int.natCast_sub hle, sizeT_of_lt (by omega)]
  have hsizeT : sizeT g.blckSize = b := by rw [hb, sizeT_of_lt (by omega)]
  have hcount : (if S - ino.ind * b < b then int32 (S - ino.ind * b : Nat) else g.blckSize) =
      (min b (S - ino.ind * b) : Nat) := by
    rw [int32_of_lt (by omega), hb]
    split <;> omega
  have hread := run_pread (w := w) (by omega) hholds
  have hnew : (newArray (b : Int)).run w = .ok () w := run_newArray (Int.natCast_nonneg b)
  simp only [Inode.printData, EStateM.run_bind, hnext, hptr, hend, hleft, hsizeT, hcount]
  simp only [hb, hnew, hread, EStateM.run_bind, EStateM.run_get, or_self, ↓reduceIte,
    Image.length_bytes]
  rw [if_neg (not_not.2 herrno)]
  rfl

end

/-! ### The run -/

/-- The first pointer of the doubly indirect blocks, as `nextBlock` finds it. -/
def layer1At (image : Image) (b : Nat) (buff : List UInt8) : Int :=
  int32 (word (image.bytes (int32 (int32 (word buff 92) * b)).toNat b) 0)

/-- What `nextBlock` returns for block `12 + b / 4`. -/
def pointerBeyond (image : Image) (g : Globals) (b : Nat) (buff : List UInt8) : Int :=
  int32 (word (image.bytes (int32 (layer1At image b buff * b)).toNat b)
    (4 * (b / 4 - (g.bgdtSize.tdiv 4).toNat)))

/-- The `pread`s that the dump makes are complete. -/
structure ReadsComplete (image : Image) (g : Globals) (b : Nat) (buff : List UInt8) : Prop where
  single : 12 * b ≤ fileSize buff → image.Holds (int32 (int32 (word buff 88) * b)) b
  data : ∀ i < 12 + b / 4, i * b ≤ fileSize buff → pointer image b buff i ≠ 0 →
    image.Holds (position image b buff i) (min b (fileSize buff - i * b))
  double : fileSize buff = (12 + b / 4) * b → image.Holds (int32 (int32 (word buff 92) * b)) b
  layer1 : fileSize buff = (12 + b / 4) * b → g.bgdtSize ≤ b →
    image.Holds (int32 (layer1At image b buff * b)) b
  beyond : fileSize buff = (12 + b / 4) * b → g.bgdtSize ≤ b → pointerBeyond image g b buff ≠ 0 →
    image.Holds (int32 (pointerBeyond image g b buff * b)) 0

/-- The dump is right when no block of the file is a hole, the 32-bit product of its pointer and the
block size is where the block's bytes are, and the reader does not leave the array of pointers when
it looks behind a file that fills the singly indirect blocks. -/
structure Dumpable (image : Image) (g : Globals) (b : Nat) (buff : List UInt8) : Prop where
  noHole : ∀ i, i * b < fileSize buff → pointer image b buff i ≠ 0
  inPlace : ∀ j < fileSize buff,
    image.byte ((position image b buff (j / b)).toNat + j % b) = fileByte image b buff j
  inTable : fileSize buff = (12 + b / 4) * b → g.bgdtSize ≤ b

section

variable {w : World} {inode : Int}

lemma bgdtSize_dvd (g : Globals) : 4 ∣ g.bgdtSize := by
  unfold Globals.bgdtSize int32
  rw [Int.bmod_eq_emod]
  split <;> omega

/-- What a dump of the file relies on. -/
structure Dumping (image : Image) (g : Globals) (b : Nat) (buff : List UInt8) (ino : Inode) : Prop
    extends Mapped image g b buff ino where
  size_le : fileSize buff ≤ (12 + b / 4) * b
  groups : 4 ≤ g.bgdtSize
  reads : ReadsComplete image g b buff

namespace Dumping

variable {ino : Inode}

lemma not_past_end (h : Dumping image g b buff ino) {i : Nat} (hi : i * b ≤ fileSize buff) :
    ¬ sizeT (ino.seek i).size < sizeT ((ino.seek i).ind * g.blckSize) :=
  Ext2.not_past_end h.blckSize h.size h.size_lt hi

lemma run_nextBlock (h : Dumping image g b buff ino) {i : Nat} (hi : i * b ≤ fileSize buff)
    (hin : i < 12 + b / 4) (herrno : w.errno = 0) :
    ((ino.seek i).nextBlock image g).run w = .ok (pointer image b buff i) w :=
  (h.toMapped.seek i).run_nextBlock hi hin
    (fun h12 => h.reads.single (Nat.le_trans (Nat.mul_le_mul_right b h12) hi)) herrno

/-- Behind the singly indirect blocks the reader is in the doubly indirect ones. -/
lemma bounds_at_end (h : Dumping image g b buff ino) :
    sizeT (int32 (12 + g.blckSize.tdiv 4)) = 12 + b / 4 ∧
      12 + b / 4 < sizeT (int32 (12 + (int32 ((g.blckSize.tdiv 4 + 1) * g.blckSize)).tdiv 4)) := by
  obtain ⟨h4, hlo, hhi⟩ := h.isBlockSize.quarters
  have hdiv : g.blckSize.tdiv 4 = ((b / 4 : Nat) : Int) := by rw [h.blckSize]; rfl
  have hle : (b / 4 + 1) * b ≤ (2 ^ 14 + 1) * 2 ^ 16 := Nat.mul_le_mul (by omega) (by omega)
  have hge : 2 * b ≤ (b / 4 + 1) * b := Nat.mul_le_mul_right b (by omega)
  have hprod : int32 ((g.blckSize.tdiv 4 + 1) * g.blckSize) = ((b / 4 + 1) * b : Nat) := by
    rw [hdiv, h.blckSize, ← int32_of_lt (n := (b / 4 + 1) * b) (by omega)]
    rfl
  have hquot : (((b / 4 + 1) * b : Nat) : Int).tdiv 4 = ((b / 4 + 1) * b / 4 : Nat) := rfl
  refine ⟨single_limit h.blckSize (by omega), ?_⟩
  rw [hprod, hquot, int32_of_bounds (by omega) (by omega)]
  calc 12 + b / 4 < 12 + (b / 4 + 1) * b / 4 := by omega
    _ = _ := (sizeT_of_lt (n := 12 + (b / 4 + 1) * b / 4) (by omega)).symm

/-- The index that the reader forms there: words of the descriptor table are taken off where words
of a block were meant. -/
lemma index_at_end (h : Dumping image g b buff ino) :
    sizeT ((12 + b / 4 : Nat) - 12 - g.bgdtSize.tdiv 4) =
      if g.bgdtSize ≤ b then b / 4 - (g.bgdtSize.tdiv 4).toNat
      else 2 ^ 64 - ((g.bgdtSize.tdiv 4).toNat - b / 4) := by
  obtain ⟨h4, hlo, hhi⟩ := h.isBlockSize.quarters
  have hdvd := bgdtSize_dvd g
  have hgroups := h.groups
  have hlt : g.bgdtSize < 2 ^ 31 := by
    have := Int.bmod_lt (x := g.numOfBlckGroups * 32) (m := 2 ^ 32) (by decide)
    exact this
  have hdiv : g.bgdtSize.tdiv 4 = g.bgdtSize / 4 := Int.tdiv_eq_ediv_of_nonneg (by omega)
  rw [hdiv]
  unfold sizeT
  split <;> omega

/-- The part of `nextBlock` for the doubly indirect blocks. -/
lemma nextBlock_at_end (h : Dumping image g b buff ino)
    (hend : fileSize buff = (12 + b / 4) * b) :
    (ino.seek (12 + b / 4)).nextBlock image g = (do
      let layer1 ← Inode.layer image g "indirect2.1 Inode::nextBlock::pread() : " ino.doublyIbp
      let ind := sizeT ((12 + b / 4 : Nat) - 12 - g.bgdtSize.tdiv 4)
      let ptr ← load32 layer1 (4 * (ind / (b / 4)))
      let layer2 ← Inode.layer image g "indirect2.2 Inode::nextBlock::pread() : " ptr
      load32 layer2 (4 * (ind % (b / 4)))) := by
  obtain ⟨-, -, hhi⟩ := h.isBlockSize.quarters
  obtain ⟨hbound, hin⟩ := h.bounds_at_end
  have hpast := h.not_past_end (Nat.le_of_eq hend.symm)
  have hp : sizeT (g.blckSize.tdiv 4) = b / 4 := by
    rw [h.blckSize]
    exact sizeT_of_lt (n := b / 4) (by omega)
  have h12 : ¬ 12 + b / 4 < 12 := by omega
  rw [Inode.nextBlock, if_neg hpast, Inode.seek_ind, dif_neg h12, hbound,
    if_neg (Nat.lt_irrefl _), if_pos hin, hp]
  rfl

lemma run_layer1 (h : Dumping image g b buff ino) (hend : fileSize buff = (12 + b / 4) * b)
    (herrno : w.errno = 0) :
    (Inode.layer image g "indirect2.1 Inode::nextBlock::pread() : " ino.doublyIbp).run w =
      .ok (image.bytes (int32 (ino.doublyIbp * b)).toNat b) w := by
  obtain ⟨-, -, hhi⟩ := h.isBlockSize.quarters
  have hdouble := h.reads.double hend
  rw [← h.doublyIbp] at hdouble
  exact run_layer _ h.blckSize (by omega) herrno hdouble

lemma run_nextBlock_beyond (h : Dumping image g b buff ino)
    (hend : fileSize buff = (12 + b / 4) * b) (hgroups : g.bgdtSize ≤ b) (herrno : w.errno = 0) :
    ((ino.seek (12 + b / 4)).nextBlock image g).run w = .ok (pointerBeyond image g b buff) w := by
  obtain ⟨h4, hlo, hhi⟩ := h.isBlockSize.quarters
  have hd : 1 ≤ (g.bgdtSize.tdiv 4).toNat := by
    have := h.groups
    rw [Int.tdiv_eq_ediv_of_nonneg (by omega)]
    omega
  have hlt : b / 4 - (g.bgdtSize.tdiv 4).toNat < b / 4 := by omega
  have hload1 := run_load32 (w := w) (image.bytes (int32 (ino.doublyIbp * b)).toNat b) (i := 4 * 0)
    (by rw [Image.length_bytes]; omega)
  have hlayer2 := run_layer (w := w) "indirect2.2 Inode::nextBlock::pread() : " h.blckSize
    (by omega) herrno (h.reads.layer1 hend hgroups)
  have hload2 := run_load32 (w := w) (image.bytes (int32 (layer1At image b buff * b)).toNat b)
    (i := 4 * (b / 4 - (g.bgdtSize.tdiv 4).toNat)) (by rw [Image.length_bytes]; omega)
  have hptr : int32 (word (image.bytes (int32 (ino.doublyIbp * b)).toNat b) (4 * 0)) =
      layer1At image b buff := by
    rw [layer1At, h.doublyIbp]
  rw [h.nextBlock_at_end hend, h.index_at_end, if_pos hgroups]
  simp only [Nat.div_eq_of_lt hlt, Nat.mod_eq_of_lt hlt, EStateM.run_bind,
    h.run_layer1 hend herrno, hload1, hptr, hlayer2, hload2]
  rfl

/-- With a longer descriptor table the index is negative, and so, as a `size_t`, far behind the
array. -/
lemma run_nextBlock_outside (h : Dumping image g b buff ino)
    (hend : fileSize buff = (12 + b / 4) * b) (hgroups : ¬ g.bgdtSize ≤ b) (herrno : w.errno = 0) :
    ((ino.seek (12 + b / 4)).nextBlock image g).run w = .error .undefined w := by
  obtain ⟨h4, hlo, hhi⟩ := h.isBlockSize.quarters
  have hlt : g.bgdtSize < 2 ^ 31 := Int.bmod_lt (m := 2 ^ 32) (by decide)
  have hd : (g.bgdtSize.tdiv 4).toNat < 2 ^ 29 := by
    rw [Int.tdiv_eq_ediv_of_nonneg (by omega)]
    omega
  have hind : b ≤ (2 ^ 64 - ((g.bgdtSize.tdiv 4).toNat - b / 4)) / (b / 4) := by
    rw [Nat.le_div_iff_mul_le (by omega)]
    calc b * (b / 4) ≤ 2 ^ 16 * 2 ^ 14 := Nat.mul_le_mul (by omega) hhi
      _ ≤ _ := by omega
  rw [h.nextBlock_at_end hend, h.index_at_end, if_neg hgroups]
  simp only [EStateM.run_bind, h.run_layer1 hend herrno]
  rw [load32, if_neg (by rw [Image.length_bytes]; omega)]
  rfl

lemma dumped_block (h : Dumping image g b buff ino) {n m : Nat} (hm : m ≤ b) :
    dumped image b buff (n * b + m) =
      dumped image b buff (n * b) ++ image.bytes (position image b buff n).toNat m := by
  obtain ⟨h4, hlo, -⟩ := h.isBlockSize.quarters
  have hb : 0 < b := by omega
  unfold dumped Image.bytes
  rw [List.range_add, List.map_append, List.map_map]
  refine congrArg _ (List.map_congr_left fun j hj => ?_)
  have hjb : j < b := Nat.lt_of_lt_of_le (List.mem_range.1 hj) hm
  have hdiv : (n * b + j) / b = n := by
    rw [Nat.mul_comm, Nat.mul_add_div hb, Nat.div_eq_of_lt hjb, Nat.add_zero]
  have hmod : (n * b + j) % b = j := by
    rw [Nat.mul_comm, Nat.mul_add_mod, Nat.mod_eq_of_lt hjb]
  simp only [Function.comp_apply, hdiv, hmod]

/-- As long as the pointers are not `0`, block after block is written. -/
lemma run_printLoop_blocks (h : Dumping image g b buff ino) {n : Nat} (hn : n * b ≤ fileSize buff)
    (hptr : ∀ i < n, pointer image b buff i ≠ 0) (herrno : w.errno = 0) (fuel : Nat) :
    (Reader.printLoop image g (n + fuel) (ino.seek 0)).run w =
      (Reader.printLoop image g fuel (ino.seek n)).run
        (w.write (dumped image b buff (n * b))) := by
  obtain ⟨h4, hlo, hhi⟩ := h.isBlockSize.quarters
  induction n generalizing fuel with
  | zero => simp [dumped]
  | succ n ih =>
    have hsucc : (n + 1) * b = n * b + b := Nat.succ_mul n b
    have hle : n * b ≤ fileSize buff := by omega
    have hin : n + 1 ≤ 12 + b / 4 :=
      Nat.le_of_mul_le_mul_right (Nat.le_trans hn h.size_le) (by omega)
    have hmin : min b (fileSize buff - n * b) = b := by omega
    have hn0 := hptr n (Nat.lt_succ_self n)
    have hholds := h.reads.data n hin hle hn0
    have hnext : ((ino.seek n).nextBlock image g).run (w.write (dumped image b buff (n * b))) = _ :=
      h.run_nextBlock hle hin herrno
    have hdata := run_printData hnext hn0 h.blckSize (by omega) h.size h.size_lt hle herrno hholds
    simp only [Inode.seek_ind, Inode.seek_next, hmin, World.write_write] at hdata
    rw [Nat.succ_add_eq_add_succ, ih hle (fun i hi => hptr i (Nat.lt_succ_of_lt hi)) fuel.succ,
      Reader.printLoop, EStateM.run_bind, hdata, hsucc, h.dumped_block Nat.le.refl]
    simp only [h.blckSize, if_true]
    rfl

lemma run_printLoop_zero (h : Dumping image g b buff ino) {i : Nat}
    (hnext : ((ino.seek i).nextBlock image g).run w = .ok 0 w) (fuel : Nat) :
    (Reader.printLoop image g (fuel + 1) (ino.seek i)).run w = .ok () w := by
  obtain ⟨h4, hlo, -⟩ := h.isBlockSize.quarters
  have hne : ¬ (0 : Int) = g.blckSize := by rw [h.blckSize]; omega
  rw [Reader.printLoop, EStateM.run_bind, run_printData_zero hnext]
  simp only [hne, if_false]
  rfl

/-- The round that writes less than a block is the last one. -/
lemma run_printLoop_last (h : Dumping image g b buff ino) {i : Nat} {ptr : Int}
    (hlo : i * b ≤ fileSize buff) (hhi : fileSize buff < i * b + b)
    (hnext : ((ino.seek i).nextBlock image g).run w = .ok ptr w) (hptr : ptr ≠ 0)
    (hholds : image.Holds (int32 (ptr * b)) (min b (fileSize buff - i * b)))
    (herrno : w.errno = 0) (fuel : Nat) :
    (Reader.printLoop image g (fuel + 1) (ino.seek i)).run w =
      .ok () (w.write (image.bytes (int32 (ptr * b)).toNat (fileSize buff - i * b))) := by
  obtain ⟨h4, -, hb⟩ := h.isBlockSize.quarters
  have hdata := run_printData hnext hptr h.blckSize (by omega) h.size h.size_lt hlo herrno hholds
  have hmin : min b (fileSize buff - i * b) = fileSize buff - i * b := by omega
  simp only [Inode.seek_ind, Inode.seek_next, hmin] at hdata
  have hne : ¬ ((fileSize buff - i * b : Nat) : Int) = g.blckSize := by rw [h.blckSize]; omega
  rw [Reader.printLoop, EStateM.run_bind, hdata]
  simp only [hne, if_false]
  rfl

lemma printLoop_hole (h : Dumping image g b buff ino) {i : Nat} (hi : i * b < fileSize buff)
    (hhole : pointer image b buff i = 0) (hptr : ∀ k < i, pointer image b buff k ≠ 0)
    (herrno : w.errno = 0) (fuel : Nat) :
    (Reader.printLoop image g (i + (fuel + 1)) (ino.seek 0)).run w =
      .ok () (w.write (dumped image b buff (i * b))) := by
  have hin : i < 12 + b / 4 := Nat.lt_of_mul_lt_mul_right (Nat.lt_of_lt_of_le hi h.size_le)
  have hle := Nat.le_of_lt hi
  have hnext : ((ino.seek i).nextBlock image g).run (w.write (dumped image b buff (i * b))) = _ :=
    h.run_nextBlock hle hin herrno
  rw [hhole] at hnext
  rw [h.run_printLoop_blocks hle hptr herrno, h.run_printLoop_zero hnext]

/-- What `nextBlock` returns behind the last full block: it looks at the next pointer although the
file may end there. -/
lemma run_nextBlock_last (h : Dumping image g b buff ino)
    (htable : fileSize buff = (12 + b / 4) * b → g.bgdtSize ≤ b) (herrno : w.errno = 0) :
    ∃ ptr, ((ino.seek (fileSize buff / b)).nextBlock image g).run w = .ok ptr w ∧
      (fileSize buff = fileSize buff / b * b ∨ ptr = pointer image b buff (fileSize buff / b)) ∧
      (ptr ≠ 0 → image.Holds (int32 (ptr * b))
        (min b (fileSize buff - fileSize buff / b * b))) := by
  obtain ⟨h4, hlo, -⟩ := h.isBlockSize.quarters
  have hle : fileSize buff / b * b ≤ fileSize buff := Nat.div_mul_le_self _ _
  have hq : fileSize buff / b ≤ 12 + b / 4 :=
    Nat.le_of_mul_le_mul_right (Nat.le_trans hle h.size_le) (by omega)
  rcases Nat.lt_or_eq_of_le hq with hin | hend
  · exact ⟨_, h.run_nextBlock hle hin herrno, .inr rfl, h.reads.data _ hin hle⟩
  · rw [hend] at hle ⊢
    have hfull : fileSize buff = (12 + b / 4) * b := Nat.le_antisymm h.size_le hle
    refine ⟨_, h.run_nextBlock_beyond hfull (htable hfull) herrno, .inl hfull, fun hptr => ?_⟩
    rw [← hfull, Nat.sub_self, Nat.min_zero]
    exact h.reads.beyond hfull (htable hfull) hptr

/-- A file without holes is written, and the loop ends. -/
lemma printLoop_full (h : Dumping image g b buff ino)
    (hno : ∀ i, i * b < fileSize buff → pointer image b buff i ≠ 0)
    (htable : fileSize buff = (12 + b / 4) * b → g.bgdtSize ≤ b)
    (herrno : w.errno = 0) (fuel : Nat) :
    (Reader.printLoop image g (fileSize buff / b + (fuel + 1)) (ino.seek 0)).run w =
      .ok () (w.write (dumped image b buff (fileSize buff))) := by
  obtain ⟨h4, hlo, -⟩ := h.isBlockSize.quarters
  have hle : fileSize buff / b * b ≤ fileSize buff := Nat.div_mul_le_self _ _
  have hlt : fileSize buff < fileSize buff / b * b + b := Nat.lt_div_mul_add (by omega)
  have hsplit : dumped image b buff (fileSize buff) =
      dumped image b buff (fileSize buff / b * b) ++
        image.bytes (position image b buff (fileSize buff / b)).toNat
          (fileSize buff - fileSize buff / b * b) := by
    rw [← h.dumped_block (by omega), Nat.add_sub_cancel' hle]
  have hbefore : ∀ i < fileSize buff / b, pointer image b buff i ≠ 0 := fun i hi =>
    hno i (Nat.lt_of_lt_of_le (Nat.mul_lt_mul_of_pos_right hi (by omega)) hle)
  rw [h.run_printLoop_blocks hle hbefore herrno]
  obtain ⟨ptr, hnext, hptr, hholds⟩ := h.run_nextBlock_last
    (w := w.write (dumped image b buff (fileSize buff / b * b))) htable herrno
  by_cases h0 : ptr = 0
  · -- the pointer behind the file is `0`: nothing is left to write
    have hfull : fileSize buff = fileSize buff / b * b := by
      refine Nat.le_antisymm (Nat.not_lt.1 fun hpart => ?_) hle
      rcases hptr with hfull | rfl
      · omega
      · exact hno _ hpart h0
    rw [h0] at hnext
    rw [h.run_printLoop_zero hnext, ← hfull]
  · rw [h.run_printLoop_last hle hlt hnext h0 (hholds h0) herrno, World.write_write, hsplit]
    rcases hptr with hfull | rfl
    · rw [← hfull, Nat.sub_self]
      rfl
    · rfl

lemma printLoop_outside (h : Dumping image g b buff ino)
    (hno : ∀ i, i * b < fileSize buff → pointer image b buff i ≠ 0)
    (hend : fileSize buff = (12 + b / 4) * b) (htable : ¬ g.bgdtSize ≤ b)
    (herrno : w.errno = 0) (fuel : Nat) :
    (Reader.printLoop image g (12 + b / 4 + (fuel + 1)) (ino.seek 0)).run w =
      .error .undefined (w.write (dumped image b buff (fileSize buff))) := by
  obtain ⟨h4, hlo, -⟩ := h.isBlockSize.quarters
  have hbefore : ∀ i < 12 + b / 4, pointer image b buff i ≠ 0 := fun i hi =>
    hno i (hend ▸ Nat.mul_lt_mul_of_pos_right hi (by omega))
  rw [h.run_printLoop_blocks (Nat.le_of_eq hend.symm) hbefore herrno, ← hend]
  have hnext := h.run_nextBlock_outside
    (w := w.write (dumped image b buff (fileSize buff))) hend htable herrno
  rw [Reader.printLoop, EStateM.run_bind, Inode.printData, EStateM.run_bind, hnext]

end Dumping

lemma write_injective {bytes more : List UInt8} (h : w.write bytes = w.write more) :
    bytes = more :=
  List.append_cancel_left (congrArg World.stdout h)

@[simp] lemma length_dumped (n : Nat) : (dumped image b buff n).length = n := by
  simp [dumped]

@[simp] lemma length_content : (content image b buff).length = fileSize buff := by
  simp [content]

lemma dumped_eq_content : dumped image b buff (fileSize buff) = content image b buff ↔
    ∀ j < fileSize buff,
      image.byte ((position image b buff (j / b)).toNat + j % b) = fileByte image b buff j := by
  simp [dumped, content]

/-- The loop of a dump ends, and has then written the file. -/
def Dumps (image : Image) (g : Globals) (b : Nat) (buff : List UInt8) (ino : Inode) (w : World) :
    Prop :=
  ∃ n, ∀ fuel ≥ n, (Reader.printLoop image g fuel ino).run w =
    .ok () (w.write (content image b buff))

lemma Dumping.dumps_iff {ino : Inode} (h : Dumping image g b buff ino) (herrno : w.errno = 0) :
    Dumps image g b buff (ino.seek 0) w ↔ Dumpable image g b buff := by
  constructor
  · rintro ⟨n, hn⟩
    have hno : ∀ i, i * b < fileSize buff → pointer image b buff i ≠ 0 := by
      intro i
      induction i using Nat.strong_induction_on with
      | h i ih =>
        intro hi hhole
        have hbefore : ∀ k < i, pointer image b buff k ≠ 0 := fun k hk =>
          ih k hk (Nat.lt_of_le_of_lt (Nat.mul_le_mul_right b (Nat.le_of_lt hk)) hi)
        have hrun := hn (i + (n + 1)) (by omega)
        rw [h.printLoop_hole hi hhole hbefore herrno] at hrun
        injection hrun with _ hw
        have hlen := congrArg List.length (write_injective hw)
        rw [length_dumped, length_content] at hlen
        omega
    have htable : fileSize buff = (12 + b / 4) * b → g.bgdtSize ≤ b := by
      intro hend
      refine Decidable.not_not.1 fun hgroups => ?_
      have hrun := hn (12 + b / 4 + (n + 1)) (by omega)
      rw [h.printLoop_outside hno hend hgroups herrno] at hrun
      cases hrun
    have hrun := hn (fileSize buff / b + (n + 1))
      (Nat.le_trans (Nat.le_succ n) (Nat.le_add_left _ _))
    rw [h.printLoop_full hno htable herrno] at hrun
    injection hrun with _ hw
    exact ⟨hno, dumped_eq_content.1 (write_injective hw), htable⟩
  · intro hd
    refine ⟨fileSize buff / b + 1, fun fuel hfuel => ?_⟩
    obtain ⟨more, rfl⟩ := Nat.exists_eq_add_of_le hfuel
    rw [Nat.add_assoc, Nat.add_comm 1, h.printLoop_full hd.noHole hd.inTable herrno,
      dumped_eq_content.2 hd.inPlace]

lemma Dumping.of_record {num : Int} (hb : g.blckSize = b) (hsize : IsBlockSize b)
    (hrec : (Inode.record image g num).run w = .ok buff w)
    (hle : fileSize buff ≤ (12 + b / 4) * b) (hreads : ReadsComplete image g b buff) :
    Dumping image g b buff (Inode.parse num buff) where
  toMapped := .parse num hb hsize (Nat.lt_of_le_of_lt hle (hsize.mul_lt Nat.le.refl))
  size_le := hle
  groups := (Inode.record_ok hrec).1
  reads := hreads

lemma run_printFile {num : Int} (hinode : 128 ≤ g.inodeSize)
    (hrec : (Inode.record image g num).run w = .ok buff w) (fuel : Nat) :
    (Reader.printFile image g fuel num).run w =
      (Reader.printLoop image g fuel ((Inode.parse num buff).seek 0)).run w := by
  have hlen := (Inode.record_ok hrec).2
  rw [Reader.printFile, EStateM.run_bind, Inode.run_fill hrec (by omega), Inode.parse_seek]

/-- `Reader::printFile` writes the file, byte for byte, exactly when the file is `Dumpable`. -/
theorem printFile_writes_iff {num : Int} (hb : g.blckSize = b) (hsize : IsBlockSize b)
    (hinode : 128 ≤ g.inodeSize) (hrec : (Inode.record image g num).run w = .ok buff w)
    (hle : fileSize buff ≤ (12 + b / 4) * b) (hreads : ReadsComplete image g b buff)
    (herrno : w.errno = 0) :
    (∃ n, ∀ fuel ≥ n, (Reader.printFile image g fuel num).run w =
      .ok () (w.write (content image b buff))) ↔ Dumpable image g b buff := by
  have hdumping := Dumping.of_record hb hsize hrec hle hreads
  simp only [run_printFile hinode hrec]
  exact hdumping.dumps_iff herrno

end

/-- A file without holes whose blocks all lie in the first 2 GiB is dumped, unless the table is
left. -/
lemma dumpable_of_below (hsize : IsBlockSize b)
    (hno : ∀ i, i * b < fileSize buff → address image b buff i ≠ 0)
    (hbelow : ∀ i, i * b < fileSize buff → address image b buff i * b < 2 ^ 31)
    (hsingle : 12 * b < fileSize buff → word buff 88 * b < 2 ^ 31)
    (htable : fileSize buff = (12 + b / 4) * b → g.bgdtSize ≤ b) : Dumpable image g b buff := by
  obtain ⟨h4, hlo, -⟩ := hsize.quarters
  have hb : 0 < b := by omega
  have hindirect : ∀ i, i * b < fileSize buff → 12 ≤ i → word buff 88 * b < 2 ^ 31 :=
    fun i hi h12 => hsingle (Nat.lt_of_le_of_lt (Nat.mul_le_mul_right b h12) hi)
  refine ⟨fun i hi => ?_, fun j hj => ?_, htable⟩
  · rw [pointer_of_below hb (hno i hi) (hbelow i hi) (hindirect i hi)]
    exact Int.natCast_ne_zero.2 (hno i hi)
  · have hi : j / b * b < fileSize buff := Nat.lt_of_le_of_lt (Nat.div_mul_le_self j b) hj
    rw [position_of_below hb (hno _ hi) (hbelow _ hi) (hindirect _ hi), Int.toNat_natCast, fileByte,
      if_neg (hno _ hi)]

/-! ### Two small files -/

/-- A regular file of three bytes in block `7`. -/
def greeting : Image :=
  imageOf [(2056, 3), (4480, 0xA4), (4481, 0x81), (4484, 3), (4520, 7),
    (7168, 72), (7169, 105), (7170, 10)]

theorem printFile_writes_greeting : ∃ n, ∀ fuel ≥ n,
    (Reader.printFile greeting oneGroup fuel 12).run {} =
      .ok () (World.write {} (content greeting 1024 (greeting.bytes 4480 128))) := by
  have hrec : (Inode.record greeting oneGroup 12).run {} = .ok (greeting.bytes 4480 128) {} :=
    Inode.run_record_oneGroup (k := 11) (by decide +kernel) (by decide)
  have hsize : fileSize (greeting.bytes 4480 128) = 3 := by decide +kernel
  have hblock : IsBlockSize 1024 := ⟨0, by decide, rfl⟩
  have hfirst : ∀ i, i * 1024 < 3 → i = 0 := fun i hi => by omega
  have hptr : pointer greeting 1024 (greeting.bytes 4480 128) 0 = 7 := by decide +kernel
  have haddr : address greeting 1024 (greeting.bytes 4480 128) 0 = 7 := by decide +kernel
  have hreads : ReadsComplete greeting oneGroup 1024 (greeting.bytes 4480 128) := by
    refine ⟨fun h => ?_, fun i _ hi _ => ?_, fun h => ?_, fun h => ?_, fun h => ?_⟩ <;>
      rw [hsize] at *
    · omega
    · obtain rfl : i = 0 := by omega
      rw [position, hptr]
      exact ⟨by decide, (by decide : 3 ≤ 65536 - 7168)⟩
    all_goals omega
  refine (printFile_writes_iff rfl hblock (by decide) hrec (by rw [hsize]; decide) hreads rfl).2 ?_
  refine dumpable_of_below hblock (fun i hi => ?_) (fun i hi => ?_) (fun h => ?_) fun h => ?_ <;>
    rw [hsize] at *
  · rw [hfirst i hi, haddr]
    decide
  · rw [hfirst i hi, haddr]
    decide
  · exact absurd h (by decide)
  · exact absurd h (by decide)

/-- A regular file of two blocks; the first is a hole, the second is block `7`. -/
def sparse : Image :=
  imageOf [(2056, 3), (4480, 0xA4), (4481, 0x81), (4485, 8), (4524, 7), (7168, 72)]

/-- Nothing of it is written. -/
theorem sparse_not_written : (Inode.record sparse oneGroup 12).run {} =
      .ok (sparse.bytes 4480 128) {} ∧
    fileSize (sparse.bytes 4480 128) ≤ (12 + 1024 / 4) * 1024 ∧
    ReadsComplete sparse oneGroup 1024 (sparse.bytes 4480 128) ∧
    ¬ ∃ n, ∀ fuel ≥ n, (Reader.printFile sparse oneGroup fuel 12).run {} =
      .ok () (World.write {} (content sparse 1024 (sparse.bytes 4480 128))) := by
  have hrec : (Inode.record sparse oneGroup 12).run {} = .ok (sparse.bytes 4480 128) {} :=
    Inode.run_record_oneGroup (k := 11) (by decide +kernel) (by decide)
  have hsize : fileSize (sparse.bytes 4480 128) = 2048 := by decide +kernel
  have hle : fileSize (sparse.bytes 4480 128) ≤ (12 + 1024 / 4) * 1024 := by
    rw [hsize]
    decide
  have hptr : ∀ i ≤ 2, pointer sparse 1024 (sparse.bytes 4480 128) i = if i = 1 then 7 else 0 := by
    decide +kernel
  have hreads : ReadsComplete sparse oneGroup 1024 (sparse.bytes 4480 128) := by
    refine ⟨fun h => ?_, fun i _ hi hne => ?_, fun h => ?_, fun h => ?_, fun h => ?_⟩ <;>
      rw [hsize] at *
    · omega
    · have hi2 : i ≤ 2 := by omega
      rw [hptr i hi2] at hne
      obtain rfl : i = 1 := by simpa using hne
      rw [position, hptr 1 (by decide)]
      exact ⟨by decide, (by decide : 1024 ≤ 65536 - 7168)⟩
    all_goals omega
  refine ⟨hrec, hle, hreads, ?_⟩
  rintro ⟨n, hn⟩
  have hdumping := Dumping.of_record rfl ⟨0, by decide, rfl⟩ hrec hle hreads
  have hrun := hn (0 + (n + 1)) (by omega)
  rw [run_printFile (by decide) hrec, hdumping.printLoop_hole (by rw [hsize]; decide)
    (hptr 0 (by decide)) (fun k hk => absurd hk (Nat.not_lt_zero k)) rfl] at hrun
  injection hrun with _ hw
  have hlen := congrArg List.length (write_injective hw)
  rw [length_dumped, length_content, hsize] at hlen
  omega

end TiPI.Ext2
