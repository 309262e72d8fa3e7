import TiPI.Ext2.Inode

/-!
# The blocks of a file

Which blocks a record names, and which `Inode::nextBlock` takes for them.
-/

namespace TiPI.Ext2

/-- An ext2 block size; the format allows 1 KiB to 64 KiB. -/
def IsBlockSize (b : Nat) : Prop := ∃ k ≤ 6, b = 1024 * 2 ^ k

lemma IsBlockSize.quarters {b : Nat} (h : IsBlockSize b) :
    b = 4 * (b / 4) ∧ 256 ≤ b / 4 ∧ b / 4 ≤ 2 ^ 14 := by
  obtain ⟨k, hk, rfl⟩ := h
  have hlo : 1 ≤ 2 ^ k := Nat.one_le_two_pow
  have hhi : 2 ^ k ≤ 2 ^ 6 := Nat.pow_le_pow_right (by decide) hk
  omega

/-- The blocks that the direct and the singly indirect pointers reach are less than 2 GiB. -/
lemma IsBlockSize.mul_lt {b : Nat} (h : IsBlockSize b) {i : Nat} (hi : i ≤ 12 + b / 4) :
    i * b < 2 ^ 31 := by
  obtain ⟨hb, -, hle⟩ := h.quarters
  calc i * b ≤ (12 + 2 ^ 14) * (4 * 2 ^ 14) := Nat.mul_le_mul (by omega) (by omega)
    _ < 2 ^ 31 := by decide

/-! ### The file that a record describes -/

section

variable (image : Image) (b : Nat) (buff : List UInt8)

def fileSize : Nat := word buff 4 + 2 ^ 32 * word buff 108

/-- The block that holds logical block `i`, or `0` for a hole. -/
def address (i : Nat) : Nat :=
  if i < 12 then word buff (40 + 4 * i)
  else if word buff 88 = 0 then 0
  else word (image.bytes (word buff 88 * b) b) (4 * (i - 12))

/-- What `nextBlock` returns for block `i`. -/
def pointer (i : Nat) : Int :=
  if i < 12 then int32 (word buff (40 + 4 * i))
  else int32 (word (image.bytes (int32 (int32 (word buff 88) * b)).toNat b) (4 * (i - 12)))

def position (i : Nat) : Int := int32 (pointer image b buff i * b)

end

variable {image : Image} {g : Globals} {b : Nat} {buff : List UInt8}

lemma size_parse (inode : Int) (h : fileSize buff < 2 ^ 31) :
    (Inode.parse inode buff).size = fileSize buff := by
  have hlo := word_lt buff 4
  have hhi : word buff 108 = 0 := by unfold fileSize at h; omega
  have hsize : fileSize buff = word buff 4 := by simp [fileSize, hhi]
  have hword : int32 (word buff 4) = word buff 4 := int32_of_lt (by omega)
  have hzero : int32 (word buff 108) = 0 := by simp [hhi, int32]
  simp only [Inode.parse, hword, hzero, hsize, BitVec.ofInt_ofNat, BitVec.zero_or,
    BitVec.toInt_ofInt]
  rw [Int.bmod_eq_iff (by decide)]
  omega

/-! ### `nextBlock` -/

section

variable {ino : Inode} {w : World}

lemma not_past_end (hb : g.blckSize = b) {S : Nat} (hS : ino.size = S) (hlt : S < 2 ^ 31)
    (hle : ino.ind * b ≤ S) : ¬ sizeT ino.size < sizeT (ino.ind * g.blckSize) := by
  rw [hS, hb, ← Int.natCast_mul, sizeT_of_lt (by omega), sizeT_of_lt (by omega)]
  omega

lemma run_nextBlock_direct (hend : ¬ sizeT ino.size < sizeT (ino.ind * g.blckSize))
    (hi : ino.ind < 12) :
    (ino.nextBlock image g).run w = .ok (ino.directBlock ⟨ino.ind, hi⟩) w := by
  simp [Inode.nextBlock, hend, hi]

lemma run_layer (what : String) {block : Int} (hb : g.blckSize = b) (hlt : b < 2 ^ 31)
    (herrno : w.errno = 0) (h : image.Holds (int32 (block * b)) b) :
    (Inode.layer image g what block).run w =
      .ok (image.bytes (int32 (block * b)).toNat b) w := by
  have hnew : (newArray ((b : Int).tdiv 4)).run w = .ok () w :=
    run_newArray (Int.tdiv_nonneg (Int.natCast_nonneg b) (by decide))
  have hread := run_preadAll what (by omega : b < 2 ^ 64) h herrno
  simp only [Inode.layer, hb, EStateM.run_bind, hnew, hread]

/-- Where the blocks behind the singly indirect pointer end. -/
lemma single_limit (hb : g.blckSize = b) (hlt : b < 2 ^ 32) :
    sizeT (int32 (12 + g.blckSize.tdiv 4)) = 12 + b / 4 := by
  have hdiv : g.blckSize.tdiv 4 = ((b / 4 : Nat) : Int) := by
    rw [hb]
    rfl
  rw [hdiv, int32_of_bounds (by omega) (by omega)]
  exact sizeT_of_lt (n := 12 + b / 4) (by omega)

lemma run_nextBlock_single (hb : g.blckSize = b) (hsize : IsBlockSize b)
    (hend : ¬ sizeT ino.size < sizeT (ino.ind * g.blckSize))
    (hlo : 12 ≤ ino.ind) (hhi : ino.ind < 12 + b / 4) (herrno : w.errno = 0)
    (h : image.Holds (int32 (ino.singlyIbp * b)) b) :
    (ino.nextBlock image g).run w =
      .ok (int32 (word (image.bytes (int32 (ino.singlyIbp * b)).toNat b) (4 * (ino.ind - 12))))
        w := by
  obtain ⟨h4, -, hle⟩ := hsize.quarters
  have hbound := single_limit hb (by omega)
  have hlayer := run_layer (w := w) "indirect1 Inode::nextBlock::pread() : " hb
     (by omega) herrno h
  have hload := run_load32 (w := w) (image.bytes (int32 (ino.singlyIbp * b)).toNat b)
    (i := 4 * (ino.ind - 12)) (by rw [Image.length_bytes]; omega)
  simp [Inode.nextBlock, hend, Nat.not_lt.2 hlo, hbound, hhi, hlayer, hload]

/-- The inode when it stands at block `i`. -/
def Inode.seek (ino : Inode) (i : Nat) : Inode := { ino with ind := i }

@[simp] lemma Inode.seek_ind (ino : Inode) (i : Nat) : (ino.seek i).ind = i := rfl

@[simp] lemma Inode.seek_size (ino : Inode) (i : Nat) : (ino.seek i).size = ino.size := rfl

@[simp] lemma Inode.seek_next (ino : Inode) (i : Nat) :
    { ino.seek i with ind := i + 1 } = ino.seek (i + 1) := rfl

lemma Inode.parse_seek (inode : Int) (buff : List UInt8) :
    (Inode.parse inode buff).seek 0 = Inode.parse inode buff := by
  simp only [Inode.seek, Inode.parse]

/-- An inode with the fields of a record, at any block. -/
structure Mapped (image : Image) (g : Globals) (b : Nat) (buff : List UInt8) (ino : Inode) :
    Prop where
  blckSize : g.blckSize = b
  isBlockSize : IsBlockSize b
  size_lt : fileSize buff < 2 ^ 31
  size : ino.size = fileSize buff
  directBlock : ∀ i, ino.directBlock i = int32 (word buff (40 + 4 * i))
  singlyIbp : ino.singlyIbp = int32 (word buff 88)
  doublyIbp : ino.doublyIbp = int32 (word buff 92)

namespace Mapped

lemma parse (inode : Int) (hb : g.blckSize = b) (hsize : IsBlockSize b)
    (hlt : fileSize buff < 2 ^ 31) : Mapped image g b buff (Inode.parse inode buff) :=
  ⟨hb, hsize, hlt, size_parse inode hlt, Inode.parse_directBlock, Inode.parse_singlyIbp,
    Inode.parse_doublyIbp⟩

lemma seek (h : Mapped image g b buff ino) (i : Nat) : Mapped image g b buff (ino.seek i) :=
  ⟨h.blckSize, h.isBlockSize, h.size_lt, h.size, h.directBlock, h.singlyIbp, h.doublyIbp⟩

lemma run_nextBlock (h : Mapped image g b buff ino) (hi : ino.ind * b ≤ fileSize buff)
    (hin : ino.ind < 12 + b / 4)
    (hsingle : 12 ≤ ino.ind → image.Holds (int32 (int32 (word buff 88) * b)) b)
    (herrno : w.errno = 0) :
    (ino.nextBlock image g).run w = .ok (pointer image b buff ino.ind) w := by
  have hend := not_past_end h.blckSize h.size h.size_lt hi
  by_cases hdirect : ino.ind < 12
  · rw [run_nextBlock_direct hend hdirect, pointer, if_pos hdirect]
    exact congrArg (EStateM.Result.ok · w) (h.directBlock ⟨ino.ind, hdirect⟩)
  · have h12 : 12 ≤ ino.ind := Nat.not_lt.1 hdirect
    have hholds := hsingle h12
    rw [← h.singlyIbp] at hholds
    rw [run_nextBlock_single h.blckSize h.isBlockSize hend h12 hin herrno hholds, pointer,
      if_neg hdirect, ← h.singlyIbp]

end Mapped

end

/-- Below 2 GiB the reader finds the block that the record names. -/
lemma pointer_of_below (hb : 0 < b) {i : Nat} (hne : address image b buff i ≠ 0)
    (hbelow : address image b buff i * b < 2 ^ 31)
    (hsingle : 12 ≤ i → word buff 88 * b < 2 ^ 31) :
    pointer image b buff i = address image b buff i := by
  have hsmall : ∀ n : Nat, n * b < 2 ^ 31 → int32 n = n := fun n hn =>
    int32_of_lt (Nat.lt_of_le_of_lt (Nat.le_mul_of_pos_right n hb) hn)
  unfold pointer
  unfold address at hne hbelow ⊢
  by_cases h12 : i < 12
  · rw [if_pos h12] at hbelow
    rw [if_pos h12, if_pos h12]
    exact hsmall _ hbelow
  · have hlt := hsingle (Nat.not_lt.1 h12)
    have hoffset : int32 ((word buff 88 : Int) * b) = (word buff 88 * b : Nat) := int32_of_lt hlt
    rw [if_neg h12] at hne hbelow
    by_cases h88 : word buff 88 = 0
    · exact absurd (if_pos h88) hne
    · rw [if_neg h88] at hbelow
      rw [if_neg h12, if_neg h12, if_neg h88, hsmall _ hlt, hoffset, Int.toNat_natCast]
      exact hsmall _ hbelow

lemma position_of_below (hb : 0 < b) {i : Nat} (hne : address image b buff i ≠ 0)
    (hbelow : address image b buff i * b < 2 ^ 31)
    (hsingle : 12 ≤ i → word buff 88 * b < 2 ^ 31) :
    position image b buff i = (address image b buff i * b : Nat) := by
  rw [position, pointer_of_below hb hne hbelow hsingle]
  exact int32_of_lt hbelow

end TiPI.Ext2
