import TiPI.Ext2.BlockMap

/-!
# The superblock and the place of an inode

`Reader::fill`, and when it and `Inode::fill` find the record of an inode.
-/

namespace TiPI.Ext2

/-! ### `Reader::fill` -/

namespace Reader

/-- The globals as `fill` takes them from the superblock. -/
def globals (buff : List UInt8) : Globals where
  blckSize := int32 (1024 * 2 ^ (int32 (word buff 24)).toNat)
  inodeSize := if 1 ≤ int32 (word buff 76) then int16 (half buff 88) else 128
  inodePerGroup := int32 (word buff 40)
  numOfBlckGroups :=
    int32 ((int32 (word buff 0)).tdiv (int32 (word buff 40)) +
      if (int32 (word buff 0)).tmod (int32 (word buff 40)) ≠ 0 then 1 else 0)
  dirEntryType := word buff 96 &&& 2 != 0

def line (name : String) (x : Int) : List UInt8 :=
  (name ++ " : " ++ toString x ++ "\n").toUTF8.toList

/-- What `fill` prints. -/
def report (g : Globals) (inodeTotal : Int) : List UInt8 :=
  line "BLCK_SIZE" g.blckSize ++ line "INODE_SIZE" g.inodeSize ++
    line "INODE_PER_GROUP" g.inodePerGroup ++ line "INODE_TOTAL" inodeTotal ++
    line "NUM_OF_BLCK_GROUPS" g.numOfBlckGroups ++ "\n".toUTF8.toList

def fill (image : Image) : Call Globals := do
  let buff ← preadAll image "Reader::fill::pread() : " 1024 1024
  -- a shift by such a distance and a division by zero
  if int32 (word buff 24) < 0 ∨ 32 ≤ int32 (word buff 24) ∨ int32 (word buff 40) = 0 then
    throw .undefined
  modify (World.write · (report (globals buff) (int32 (word buff 0))))
  return globals buff

end Reader

/-! ### A valid superblock -/

namespace Superblock

variable (buff : List UInt8)

def total : Nat := word buff 0

def perGroup : Nat := word buff 40

def blockSize : Nat := 1024 * 2 ^ word buff 24

def inodeSize : Nat := if word buff 76 = 0 then 128 else half buff 88

/-- A superblock as the format has it: blocks of 1 KiB to 64 KiB, a block of bits for the inodes of
a group, whole groups, and records that fit in a block. -/
structure Valid : Prop where
  logBlockSize : word buff 24 ≤ 6
  perGroup_pos : 0 < perGroup buff
  perGroup_le : perGroup buff ≤ 8 * blockSize buff
  total_dvd : perGroup buff ∣ total buff
  revision : word buff 76 ≤ 1
  inodeSize_ge : 128 ≤ inodeSize buff
  inodeSize_le : inodeSize buff ≤ blockSize buff

end Superblock

namespace Image

variable (image : Image) (n : Nat)

def superblock : List UInt8 := image.bytes 1024 1024

/-- The word at a byte of the image. -/
def wordAt (o : Nat) : Nat := word (image.bytes o 4) 0

/-- The block group of an inode. -/
def group : Nat := (n - 1) / Superblock.perGroup image.superblock

/-- The descriptors are in the block behind the superblock's. -/
def descriptors : Nat :=
  (1024 / Superblock.blockSize image.superblock + 1) * Superblock.blockSize image.superblock

/-- The block at which the inode table of a group begins. -/
def inodeTable : Nat := image.wordAt (image.descriptors + 32 * image.group n + 8)

/-- The byte at which the record of an inode begins. -/
def recordAt : Nat :=
  image.inodeTable n * Superblock.blockSize image.superblock +
    (n - 1) % Superblock.perGroup image.superblock * Superblock.inodeSize image.superblock

/-- The inode tables are behind the descriptors and in the image. -/
structure HasRecord : Prop where
  behind : image.descriptors + 32 * (Superblock.total image.superblock /
    Superblock.perGroup image.superblock) ≤ image.recordAt n
  inImage : image.recordAt n + Superblock.inodeSize image.superblock ≤ image.length

/-- An image that differs at most in the record, and there not in the size. -/
structure SameBut (image' : Image) : Prop where
  length : image'.length = image.length
  byte : ∀ o, (o < image.recordAt n ∨ (image.recordAt n + 4 ≤ o ∧ o < image.recordAt n + 8) ∨
    (image.recordAt n + 108 ≤ o ∧ o < image.recordAt n + 112) ∨
    image.recordAt n + Superblock.inodeSize image.superblock ≤ o) → image'.byte o = image.byte o

/-- The product for the place of a record does not overflow, the reader's descriptor table is the
image's, and the halves of the size can be laid over each other. -/
structure Reachable : Prop where
  total : Superblock.total image.superblock < 2 ^ 31 ∨ (image.group n = 0 ∧
    2 ^ 32 < Superblock.total image.superblock + Superblock.perGroup image.superblock)
  inodeSize : Superblock.inodeSize image.superblock < 2 ^ 15
  below : image.recordAt n < 2 ^ 31
  descriptor : image.wordAt (2048 + 32 * image.group n + 8) *
      Superblock.blockSize image.superblock % 2 ^ 32 =
    image.inodeTable n * Superblock.blockSize image.superblock % 2 ^ 32
  size : (image.wordAt (image.recordAt n + 108) = 0 ∧
      image.wordAt (image.recordAt n + 4) < 2 ^ 31) ∨
    (image.wordAt (image.recordAt n + 108) = 2 ^ 32 - 1 ∧
      image.wordAt (image.recordAt n + 4) = 2 ^ 32 - 1)

end Image

/-- The inode that a record describes. -/
def Inode.ofRecord (inode : Int) (buff : List UInt8) : Inode :=
  { Inode.parse inode buff with size := (BitVec.ofNat 64 (fileSize buff)).toInt }

/-- `Reader::fill` and then `Inode::fill` deliver what the record of the inode says, whatever that
is. -/
def Fills (image : Image) (n : Nat) : Prop :=
  ∀ image', image.SameBut n image' → ∀ w : World, w.errno = 0 → ∃ w',
    (Reader.fill image' >>= fun g => Inode.fill image' g n).run w =
      .ok (Inode.ofRecord n
        (image'.bytes (image.recordAt n) (Superblock.inodeSize image.superblock))) w'

variable {image image' : Image} {g : Globals} {w w' : World} {n : Nat}

/-! ### Bytes and words -/

lemma word_bytes {o c i : Nat} (h : i + 4 ≤ c) :
    word (image.bytes o c) i = image.wordAt (o + i) := by
  unfold Image.wordAt word
  rw [image.getD_bytes (by omega), image.getD_bytes (by omega), image.getD_bytes (by omega),
    image.getD_bytes (by omega), image.getD_bytes (by omega), image.getD_bytes (by omega),
    image.getD_bytes (by omega), image.getD_bytes (by omega)]
  rfl

lemma wordAt_congr {o : Nat} (h : ∀ i, i < 4 → image'.byte (o + i) = image.byte (o + i)) :
    image'.wordAt o = image.wordAt o := by
  unfold Image.wordAt
  congr 1
  exact List.map_congr_left fun i hi => h i (List.mem_range.1 hi)

lemma preadAll_eq {what : String} {count offset : Int} {buff : List UInt8} (herrno : w.errno = 0)
    (hrun : (preadAll image what count offset).run w = .ok buff w') :
    0 ≤ count ∧ 0 ≤ offset ∧ buff = image.bytes offset.toNat count.toNat ∧ w' = w := by
  have hlen := preadAll_ok hrun
  rw [Steady.run_preadAll_of_errno _ _ _ _ herrno] at hrun
  split_ifs at hrun with hneg hcount
  · obtain ⟨rfl, rfl⟩ := EStateM.Result.ok.inj hrun
    refine ⟨by omega, Int.not_lt.1 hneg, ?_, rfl⟩
    congr 1
    omega

lemma half_lt (buff : List UInt8) (i : Nat) : half buff i < 2 ^ 16 := by
  have h0 := (buff.getD i 0).toNat_lt
  have h1 := (buff.getD (i + 1) 0).toNat_lt
  unfold half
  omega

/-! ### What the reader makes of a valid superblock -/

namespace Superblock.Valid

variable {buff : List UInt8} (h : Valid buff)

include h

lemma isBlockSize : IsBlockSize (blockSize buff) := ⟨_, h.logBlockSize, rfl⟩

lemma bounds : 1024 ≤ blockSize buff ∧ blockSize buff ≤ 2 ^ 16 ∧ perGroup buff ≤ 2 ^ 19 := by
  obtain ⟨hb, hlo, hhi⟩ := h.isBlockSize.quarters
  have hle := h.perGroup_le
  omega

lemma shift_eq : int32 (word buff 24) = word buff 24 := by
  have hle := h.logBlockSize
  exact int32_of_lt (by omega)

lemma blckSize_eq : (Reader.globals buff).blckSize = blockSize buff := by
  obtain ⟨-, hle, -⟩ := h.bounds
  simp only [Reader.globals]
  rw [h.shift_eq, Int.toNat_natCast]
  have hcast : (1024 * 2 ^ word buff 24 : Int) = blockSize buff := by
    rw [blockSize, Int.natCast_mul, Int.natCast_pow]
    rfl
  rw [hcast]
  exact int32_of_lt (by omega)

lemma inodePerGroup_eq : (Reader.globals buff).inodePerGroup = perGroup buff := by
  obtain ⟨-, -, hle⟩ := h.bounds
  simp only [Reader.globals]
  exact int32_of_lt (n := perGroup buff) (by omega)

/-- The size of a record is taken as a signed half word. -/
lemma inodeSize_cases : (inodeSize buff < 2 ^ 15 ∧
      (Reader.globals buff).inodeSize = inodeSize buff) ∨
    (2 ^ 15 ≤ inodeSize buff ∧ (Reader.globals buff).inodeSize < 0) := by
  have hrev := h.revision
  have hlt := half_lt buff 88
  have hword : int32 (word buff 76) = word buff 76 := int32_of_lt (by omega)
  simp only [Reader.globals]
  rw [hword]
  unfold inodeSize
  by_cases h0 : word buff 76 = 0
  · rw [if_pos h0, if_neg (by omega)]
    exact .inl ⟨by decide, rfl⟩
  · rw [if_neg h0, if_pos (by omega)]
    unfold int16
    rw [Int.bmod_def]
    split <;> omega

/-- The number of groups, when the number of inodes is a positive `int32_t`. -/
lemma groups_of_lt (hlt : total buff < 2 ^ 31) :
    (Reader.globals buff).numOfBlckGroups = (total buff / perGroup buff : Nat) := by
  obtain ⟨-, -, hle⟩ := h.bounds
  have htotal : int32 (word buff 0) = total buff := int32_of_lt hlt
  have hper : int32 (word buff 40) = perGroup buff := int32_of_lt (n := perGroup buff) (by omega)
  have hmod : (total buff : Int).tmod (perGroup buff) = 0 :=
    Int.tmod_eq_zero_of_dvd (Int.natCast_dvd_natCast.2 h.total_dvd)
  have hdiv : total buff / perGroup buff ≤ total buff := Nat.div_le_self _ _
  simp only [Reader.globals]
  rw [htotal, hper, hmod, if_neg (not_not.2 rfl), Int.add_zero, ← Int.ofNat_tdiv]
  exact int32_of_lt (by omega)

/-- A number of inodes that the reader takes for a negative one leaves it a group at most. -/
lemma groups_of_ge (hge : 2 ^ 31 ≤ total buff) (hlt : total buff < 2 ^ 32)
    (hgroups : 32 * (total buff / perGroup buff) < 2 ^ 31) :
    (2 ^ 32 < total buff + perGroup buff ∧ (Reader.globals buff).bgdtSize = 32) ∨
      (total buff + perGroup buff ≤ 2 ^ 32 ∧ (Reader.globals buff).bgdtSize ≤ 0) := by
  obtain ⟨-, -, hle⟩ := h.bounds
  have hpos := h.perGroup_pos
  have hper : int32 (word buff 40) = perGroup buff := int32_of_lt (n := perGroup buff) (by omega)
  obtain ⟨m, hm⟩ : ∃ m, total buff + m = 2 ^ 32 := ⟨2 ^ 32 - total buff, by omega⟩
  have htotal : int32 (word buff 0) = -(m : Int) := by
    have hwrap : (word buff 0 : Int) = -(m : Int) + 2 ^ 32 * 1 := by
      have hword : word buff 0 = total buff := rfl
      omega
    rw [hwrap, int32_add_mul]
    exact int32_of_bounds (by omega) (by omega)
  simp only [Globals.bgdtSize, Reader.globals]
  rw [htotal, hper, Int.neg_tdiv, Int.neg_tmod, ← Int.ofNat_tdiv, ← Int.ofNat_tmod]
  by_cases hmP : m < perGroup buff
  · left
    rw [Nat.div_eq_of_lt hmP, Nat.mod_eq_of_lt hmP, if_pos (by omega)]
    exact ⟨by omega, by decide⟩
  · right
    have hquot : 1 ≤ m / perGroup buff := Nat.div_pos (Nat.not_lt.1 hmP) hpos
    have hmono : m / perGroup buff ≤ total buff / perGroup buff := Nat.div_le_div_right (by omega)
    generalize m / perGroup buff = q at hquot hmono ⊢
    have hsum : ∀ c : Int, 0 ≤ c → c ≤ 1 → int32 (int32 (-(q : Int) + c) * 32) ≤ 0 := by
      intro c hc hc'
      have hinner : int32 (-(q : Int) + c) = -(q : Int) + c :=
        int32_of_bounds (by omega) (by omega)
      rw [hinner, int32_of_bounds (by omega) (by omega)]
      omega
    refine ⟨by omega, ?_⟩
    split_ifs
    · exact hsum 1 (by decide) (by decide)
    · exact hsum 0 (by decide) (by decide)

end Superblock.Valid

/-! ### The two halves of a size -/

/-- The halves, each with its sign, laid over each other are the number only if the high half adds
nothing, or both are all ones. -/
lemma size_eq_iff {hi lo : Nat} (hhi : hi < 2 ^ 32) (hlo : lo < 2 ^ 32) :
    BitVec.ofInt 64 (int32 hi) ||| BitVec.ofInt 64 (int32 lo) = BitVec.ofNat 64 (lo + 2 ^ 32 * hi) ↔
      (hi = 0 ∧ lo < 2 ^ 31) ∨ (hi = 2 ^ 32 - 1 ∧ lo = 2 ^ 32 - 1) := by
  have hnat : ∀ x : Nat, x < 2 ^ 32 → (BitVec.ofInt 64 (int32 x)).toNat =
      if x < 2 ^ 31 then x else 2 ^ 64 - 2 ^ 32 + x := by
    intro x hx
    unfold int32
    rw [BitVec.toNat_ofInt, Int.bmod_def]
    split_ifs <;> omega
  rw [← BitVec.toNat_inj, BitVec.toNat_or, hnat hi hhi, hnat lo hlo, BitVec.toNat_ofNat,
    Nat.mod_eq_of_lt (by omega)]
  by_cases hsmall : hi < 2 ^ 31 ∧ lo < 2 ^ 31
  · obtain ⟨hhi', hlo'⟩ := hsmall
    have hor : hi ||| lo < 2 ^ 31 := Nat.or_lt_two_pow hhi' hlo'
    rw [if_pos hhi', if_pos hlo']
    constructor
    · intro heq
      exact .inl ⟨by omega, hlo'⟩
    · rintro (⟨rfl, -⟩ | ⟨rfl, -⟩)
      · simp
      · omega
  · constructor
    · intro heq
      -- a half with the sign set makes the upper word all ones
      have hupper : 2 ^ 64 - 2 ^ 31 ≤ lo + 2 ^ 32 * hi := by
        rw [← heq]
        by_cases hhi' : hi < 2 ^ 31
        · refine le_trans ?_ Nat.right_le_or
          rw [if_neg fun hlo' => hsmall ⟨hhi', hlo'⟩]
          omega
        · refine le_trans ?_ Nat.left_le_or
          rw [if_neg hhi']
          omega
      obtain rfl : hi = 2 ^ 32 - 1 := by omega
      have hones : 2 ^ 64 - 1 ≤ lo + 2 ^ 32 * (2 ^ 32 - 1) := by
        rw [← heq]
        exact le_trans (by decide) Nat.left_le_or
      exact .inr ⟨rfl, by omega⟩
    · rintro (⟨rfl, hlo'⟩ | ⟨rfl, rfl⟩)
      · exact absurd ⟨by decide, hlo'⟩ hsmall
      · decide

lemma Inode.ofRecord_eq_parse {inode : Int} {buff : List UInt8}
    (h : (word buff 108 = 0 ∧ word buff 4 < 2 ^ 31) ∨
      (word buff 108 = 2 ^ 32 - 1 ∧ word buff 4 = 2 ^ 32 - 1)) :
    Inode.ofRecord inode buff = Inode.parse inode buff := by
  have heq := (size_eq_iff (word_lt buff 108) (word_lt buff 4)).2 h
  simp only [Inode.ofRecord, Inode.parse, fileSize, heq]

/-! ### The reads -/

lemma Reader.fill_ok (herrno : w.errno = 0) (hrun : (Reader.fill image).run w = .ok g w') :
    g = Reader.globals image.superblock ∧ w'.errno = 0 := by
  obtain ⟨buff, v, hread, hrest⟩ := bind_ok hrun
  obtain ⟨-, -, hbuff, hv⟩ := preadAll_eq herrno hread
  have hsuper : buff = image.superblock := hbuff
  rw [hsuper, hv] at hrest
  split at hrest
  · obtain ⟨_, _, hthrow, -⟩ := bind_ok hrest
    cases hthrow
  · obtain ⟨hg, hw⟩ := EStateM.Result.ok.inj hrest
    rw [← hg, ← hw]
    exact ⟨rfl, herrno⟩

lemma Reader.run_fill (hvalid : Superblock.Valid image.superblock) (hlen : 2048 ≤ image.length)
    (herrno : w.errno = 0) : ∃ v : World, v.errno = 0 ∧
      (Reader.fill image).run w = .ok (Reader.globals image.superblock) v := by
  have hread : (preadAll image "Reader::fill::pread() : " 1024 1024).run w =
      .ok image.superblock w :=
    @run_preadAll image w 1024 1024 _ (by decide) ⟨by decide, by omega⟩ herrno
  have hper := hvalid.inodePerGroup_eq
  have hpos := hvalid.perGroup_pos
  have hshift := hvalid.shift_eq
  have hle := hvalid.logBlockSize
  have hok : ¬(int32 (word image.superblock 24) < 0 ∨ 32 ≤ int32 (word image.superblock 24) ∨
      int32 (word image.superblock 40) = 0) := by
    simp only [Reader.globals] at hper
    rw [hshift, hper]
    omega
  refine ⟨w.write (report (globals image.superblock) (int32 (word image.superblock 0))), herrno, ?_⟩
  rw [Reader.fill, EStateM.run_bind, hread]
  simp only [hok, if_false, EStateM.run_bind, EStateM.run_modify]
  rfl

namespace Inode

/-- Where the reader takes the address of an inode table from its descriptor table. -/
def entryAt (g : Globals) (n : Int) : Nat :=
  sizeT (int32 (32 * int32 ((int32 (n - 1)).tdiv g.inodePerGroup)) + 8)

/-- The byte at which the reader looks for the record. -/
def recordOffset (image : Image) (g : Globals) (n : Int) : Int :=
  int32 (int32 (int32 (image.wordAt (2048 + entryAt g n)) * g.blckSize) +
    int32 ((int32 (n - 1)).tmod g.inodePerGroup * g.inodeSize))

lemma fill_ok {inode : Int} {ino : Inode} (herrno : w.errno = 0)
    (hrun : (fill image g inode).run w = .ok ino w') :
    (entryAt g inode + 4 : Nat) ≤ g.bgdtSize ∧ 0 ≤ g.inodeSize ∧ 0 ≤ recordOffset image g inode ∧
      ino = parse inode (image.bytes (recordOffset image g inode).toNat g.inodeSize.toNat) := by
  obtain ⟨buff, v, hrecord, hparse⟩ := bind_ok hrun
  split at hparse
  · obtain ⟨_, _, hthrow, -⟩ := bind_ok hparse
    cases hthrow
  · obtain ⟨rfl, -⟩ := EStateM.Result.ok.inj hparse
    unfold record at hrecord
    split at hrecord
    · obtain ⟨_, _, hthrow, -⟩ := bind_ok hrecord
      cases hthrow
    · obtain ⟨_, u, hnew, hrest⟩ := bind_ok hrecord
      obtain rfl := newArray_ok hnew
      obtain ⟨bgdt, u, hbgdt, hrest⟩ := bind_ok hrest
      obtain ⟨hcount, -, hbytes, hu⟩ := preadAll_eq herrno hbgdt
      rw [hu] at hrest
      obtain ⟨table, u', hload, hrest⟩ := bind_ok hrest
      have hbound := load32_ok hload
      rw [run_load32 _ hbound] at hload
      obtain ⟨htable, hu'⟩ := EStateM.Result.ok.inj hload
      obtain ⟨_, u'', hnew', hread⟩ := bind_ok hrest
      rw [newArray_ok hnew', ← hu'] at hread
      obtain ⟨hsize, hpos, hbuff, -⟩ := preadAll_eq herrno hread
      have hlen : bgdt.length = g.bgdtSize.toNat := by
        rw [hbytes, Image.length_bytes]
      have hword : word bgdt (entryAt g inode) = image.wordAt (2048 + entryAt g inode) := by
        rw [hbytes]
        apply word_bytes
        rw [← hlen]
        exact hbound
      have hoffset : int32 (int32 (table * g.blckSize) +
          int32 ((int32 (inode - 1)).tmod g.inodePerGroup * g.inodeSize)) =
            recordOffset image g inode := by
        rw [recordOffset, ← hword, ← htable]
        rfl
      rw [hoffset] at hpos hbuff
      refine ⟨?_, hsize, hpos, by rw [hbuff]⟩
      have hentry : entryAt g inode + 4 ≤ g.bgdtSize.toNat := hlen ▸ hbound
      omega

end Inode

/-! ### The place of a record -/

lemma group_lt (image : Image) (hint : n < 2 ^ 31) : image.group n < 2 ^ 31 :=
  (Nat.div_le_self _ _).trans_lt (by omega)

section

variable (hvalid : Superblock.Valid image.superblock) (hn : 1 ≤ n) (hint : n < 2 ^ 31)

include hvalid hn hint

lemma index_eq : (int32 ((n : Int) - 1)).tdiv (Reader.globals image.superblock).inodePerGroup =
      image.group n ∧
    (int32 ((n : Int) - 1)).tmod (Reader.globals image.superblock).inodePerGroup =
      ((n - 1) % Superblock.perGroup image.superblock : Nat) := by
  have hcast : (n : Int) - 1 = (n - 1 : Nat) := by omega
  rw [hvalid.inodePerGroup_eq, hcast, int32_of_lt (by omega), ← Int.ofNat_tdiv, ← Int.ofNat_tmod]
  exact ⟨rfl, rfl⟩

/-- The entry is in front of the end of the table, or not in memory at all. -/
lemma entryAt_cases : Inode.entryAt (Reader.globals image.superblock) n ≤ 32 * image.group n + 8 ∨
    2 ^ 31 ≤ Inode.entryAt (Reader.globals image.superblock) n := by
  obtain ⟨hdiv, -⟩ := index_eq hvalid hn hint
  have hlt := group_lt image hint
  have hgroup : int32 (image.group n : Int) = image.group n := int32_of_lt hlt
  rw [Inode.entryAt, hdiv, hgroup]
  unfold sizeT int32
  rw [Int.bmod_def]
  split <;> omega

lemma entryAt_eq (hsmall : 32 * image.group n < 2 ^ 31) :
    Inode.entryAt (Reader.globals image.superblock) n = 32 * image.group n + 8 := by
  obtain ⟨hdiv, -⟩ := index_eq hvalid hn hint
  have hlt := group_lt image hint
  have hgroup : int32 (image.group n : Int) = image.group n := int32_of_lt hlt
  have hprod : int32 (32 * (image.group n : Int)) = 32 * (image.group n : Int) :=
    int32_of_bounds (by omega) (by omega)
  rw [Inode.entryAt, hdiv, hgroup, hprod]
  unfold sizeT
  omega

end

/-! ### What the reader needs -/

lemma exists_int32 (x : Int) : ∃ z, int32 x = x + 2 ^ 32 * z := by
  refine ⟨-Int.bdiv x (2 ^ 32), ?_⟩
  have h := Int.bmod_add_bdiv x (2 ^ 32)
  unfold int32
  omega

/-- The descriptors begin at byte `2048`, or behind it. -/
lemma descriptors_ge (hvalid : Superblock.Valid image.superblock) : 2048 ≤ image.descriptors := by
  have hall : ∀ k < 7, 2048 ≤ (1024 / (1024 * 2 ^ k) + 1) * (1024 * 2 ^ k) := by decide
  exact hall _ (Nat.lt_succ_of_le hvalid.logBlockSize)

/-- Up to blocks of 2 KiB the reader takes the right descriptors. -/
lemma descriptor_of_small (hvalid : Superblock.Valid image.superblock)
    (hsmall : Superblock.blockSize image.superblock ≤ 2048) :
    image.wordAt (2048 + 32 * image.group n + 8) = image.inodeTable n := by
  have hall : ∀ k < 7, 1024 * 2 ^ k ≤ 2048 →
      (1024 / (1024 * 2 ^ k) + 1) * (1024 * 2 ^ k) = 2048 := by
    decide
  have heq : image.descriptors = 2048 := hall _ (Nat.lt_succ_of_le hvalid.logBlockSize) hsmall
  rw [Image.inodeTable, heq]

lemma int16_inj {m n : Nat} (hm : m < 2 ^ 16) (hn : n < 2 ^ 16) (h : int16 m = int16 n) :
    m = n := by
  unfold int16 at h
  rw [Int.bmod_def, Int.bmod_def] at h
  split at h <;> split at h <;> omega

/-- The first byte of a record is in its type. -/
lemma byte_eq_of_type {o o' c c' : Nat} (hc : 2 ≤ c) (hc' : 2 ≤ c')
    (h : int16 (half (image.bytes o c) 0) = int16 (half (image.bytes o' c') 0)) :
    image.byte o = image.byte o' := by
  have heq := int16_inj (half_lt _ _) (half_lt _ _) h
  unfold half at heq
  rw [image.getD_bytes (by omega), image.getD_bytes (by omega), image.getD_bytes (by omega),
    image.getD_bytes (by omega)] at heq
  have h0 := (image.byte o).toNat_lt
  have h0' := (image.byte o').toNat_lt
  apply UInt8.toNat_inj.1
  simp only [Nat.add_zero] at heq
  omega

section

variable (hvalid : Superblock.Valid image.superblock) (hrec : image.HasRecord n)
  (hn : 1 ≤ n) (hle : n ≤ Superblock.total image.superblock)

include hvalid hrec hn hle

omit hrec in
lemma group_lt_groups : image.group n <
    Superblock.total image.superblock / Superblock.perGroup image.superblock := by
  apply Nat.div_lt_of_lt_mul
  rw [Nat.mul_div_cancel' hvalid.total_dvd]
  omega

lemma descriptor_lt : 2048 + 32 * (image.group n + 1) ≤ image.recordAt n := by
  have hge := descriptors_ge hvalid
  have hbehind := hrec.behind
  have hlt := group_lt_groups hvalid hn hle
  omega

namespace Image.SameBut

omit hvalid hrec hn hle in
lemma refl (image : Image) (n : Nat) : image.SameBut n image := ⟨rfl, fun _ _ => rfl⟩

variable (hsame : image.SameBut n image')

include hsame

lemma superblock_eq : image'.superblock = image.superblock := by
  have hlt := descriptor_lt hvalid hrec hn hle
  unfold Image.superblock
  refine List.map_congr_left fun i hi => ?_
  have hi := List.mem_range.1 hi
  exact hsame.byte _ (.inl (by omega))

omit hvalid hrec hn hle in
lemma wordAt_eq {o : Nat} (ho : o + 4 ≤ image.recordAt n) : image'.wordAt o = image.wordAt o :=
  wordAt_congr fun i hi => hsame.byte _ (.inl (by omega))

omit hvalid hrec hn hle in
lemma size_words : image'.wordAt (image.recordAt n + 108) = image.wordAt (image.recordAt n + 108) ∧
    image'.wordAt (image.recordAt n + 4) = image.wordAt (image.recordAt n + 4) :=
  ⟨wordAt_congr fun i hi => hsame.byte _ (.inr (.inr (.inl ⟨by omega, by omega⟩))),
    wordAt_congr fun i hi => hsame.byte _ (.inr (.inl ⟨by omega, by omega⟩))⟩

/-- What both calls have read when they return. -/
lemma fills_eq (hfills : Fills image n) :
    let g := Reader.globals image.superblock
    (Inode.entryAt g n + 4 : Nat) ≤ g.bgdtSize ∧ 0 ≤ g.inodeSize ∧
      0 ≤ Inode.recordOffset image' g n ∧
      Inode.ofRecord n (image'.bytes (image.recordAt n) (Superblock.inodeSize image.superblock)) =
        Inode.parse n (image'.bytes (Inode.recordOffset image' g n).toNat g.inodeSize.toNat) := by
  obtain ⟨w', hrun⟩ := hfills image' hsame {} rfl
  obtain ⟨g, v, hfill, hinode⟩ := bind_ok hrun
  obtain ⟨hg, herrno⟩ := Reader.fill_ok rfl hfill
  rw [hg, hsame.superblock_eq hvalid hrec hn hle] at hinode
  exact Inode.fill_ok herrno hinode

end Image.SameBut

end

/-- The image with another byte. -/
def Image.poke (image : Image) (o : Nat) (x : UInt8) : Image :=
  { image with byte := Function.update image.byte o x }

lemma Image.poke_byte_self (image : Image) (o : Nat) (x : UInt8) : (image.poke o x).byte o = x := by
  simp only [Image.poke, Function.update_self]

lemma Image.poke_byte_of_ne (image : Image) {o p : Nat} (x : UInt8) (h : o ≠ p) :
    (image.poke p x).byte o = image.byte o := by
  simp only [Image.poke, Function.update_of_ne h]

section

variable (hvalid : Superblock.Valid image.superblock) (hrec : image.HasRecord n)
  (hn : 1 ≤ n) (hle : n ≤ Superblock.total image.superblock) (hint : n < 2 ^ 31)
  (hfills : Fills image n)

include hvalid hrec hn hle hint hfills

omit hint in
lemma inodeSize_of_fills : Superblock.inodeSize image.superblock < 2 ^ 15 ∧
    (Reader.globals image.superblock).inodeSize = Superblock.inodeSize image.superblock := by
  obtain ⟨-, hsize, -⟩ := (Image.SameBut.refl image n).fills_eq hvalid hrec hn hle hfills
  rcases hvalid.inodeSize_cases with hlt | ⟨-, hneg⟩
  · exact hlt
  · exact absurd hsize (Int.not_le.2 hneg)

/-- The reader looks for the record where it is. -/
lemma recordOffset_of_fills :
    Inode.recordOffset image (Reader.globals image.superblock) n = image.recordAt n := by
  obtain ⟨hentry, -, hpos, -⟩ := (Image.SameBut.refl image n).fills_eq hvalid hrec hn hle hfills
  obtain ⟨-, hsize⟩ := inodeSize_of_fills hvalid hrec hn hle hfills
  have hge := hvalid.inodeSize_ge
  have hdesc := descriptor_lt hvalid hrec hn hle
  by_contra hne
  generalize hoff : Inode.recordOffset image (Reader.globals image.superblock) n = off at hpos hne
  obtain ⟨q, rfl⟩ := Int.eq_ofNat_of_zero_le hpos
  have hq : q ≠ image.recordAt n := fun heq => hne (congrArg Int.ofNat heq)
  -- the first byte of the record is made another than the one the reader takes
  have hsame : image.SameBut n (image.poke (image.recordAt n) (image.byte q + 1)) := by
    refine ⟨rfl, fun o ho => Image.poke_byte_of_ne image _ ?_⟩
    omega
  obtain ⟨-, -, -, heq⟩ := hsame.fills_eq hvalid hrec hn hle hfills
  have hbgdt : (Reader.globals image.superblock).bgdtSize < 2 ^ 31 := int32_lt _
  have hword : (image.poke (image.recordAt n) (image.byte q + 1)).wordAt
      (2048 + Inode.entryAt (Reader.globals image.superblock) n) =
        image.wordAt (2048 + Inode.entryAt (Reader.globals image.superblock) n) := by
    apply hsame.wordAt_eq
    rcases entryAt_cases hvalid hn hint with hlow | hhigh <;> omega
  have hoff' : Inode.recordOffset (image.poke (image.recordAt n) (image.byte q + 1))
      (Reader.globals image.superblock) n = (q : Int) := by
    rw [Inode.recordOffset, hword, ← hoff]
    rfl
  rw [hoff', hsize, Int.toNat_natCast, Int.toNat_natCast] at heq
  have htype := congrArg Inode.type heq
  simp only [Inode.ofRecord, Inode.parse] at htype
  have hbyte := byte_eq_of_type (by omega) (by omega) htype
  rw [Image.poke_byte_self, Image.poke_byte_of_ne image _ hq] at hbyte
  exact absurd hbyte (by simp)

theorem reachable_of_fills : image.Reachable n := by
  obtain ⟨hentry, -, -, heq⟩ := (Image.SameBut.refl image n).fills_eq hvalid hrec hn hle hfills
  obtain ⟨hsmall, hsize⟩ := inodeSize_of_fills hvalid hrec hn hle hfills
  have hplace := recordOffset_of_fills hvalid hrec hn hle hint hfills
  have hdesc := descriptor_lt hvalid hrec hn hle
  have hge := descriptors_ge hvalid
  have hbehind := hrec.behind
  have hbelow : image.recordAt n < 2 ^ 31 := by
    have hlt := int32_lt (int32 (int32 (image.wordAt (2048 +
      Inode.entryAt (Reader.globals image.superblock) n)) *
        (Reader.globals image.superblock).blckSize) +
      int32 ((int32 (n - 1)).tmod (Reader.globals image.superblock).inodePerGroup *
        (Reader.globals image.superblock).inodeSize))
    rw [← Inode.recordOffset, hplace] at hlt
    omega
  have hentryAt := entryAt_eq hvalid hn hint (by omega)
  refine ⟨?_, hsmall, hbelow, ?_, ?_⟩
  · by_contra hno
    obtain ⟨hbig, hone⟩ := not_or.1 hno
    have htotal : Superblock.total image.superblock < 2 ^ 32 := word_lt _ _
    rcases hvalid.groups_of_ge (Nat.not_lt.1 hbig) htotal (by omega) with ⟨hsum, hbgdt⟩ | ⟨-, hbgdt⟩
    · rw [hentryAt, hbgdt] at hentry
      exact hone ⟨by omega, hsum⟩
    · omega
  · obtain ⟨-, hmod⟩ := index_eq hvalid hn hint
    rw [Inode.recordOffset, hmod, hvalid.blckSize_eq, hsize, hentryAt] at hplace
    have hword : 2048 + (32 * image.group n + 8) = 2048 + 32 * image.group n + 8 := by omega
    rw [hword] at hplace
    unfold Image.recordAt at hplace
    generalize (n - 1) % Superblock.perGroup image.superblock = ind at hplace
    generalize image.wordAt (2048 + 32 * image.group n + 8) = found at hplace ⊢
    generalize image.inodeTable n = table at hplace ⊢
    generalize Superblock.blockSize image.superblock = b at hplace ⊢
    generalize Superblock.inodeSize image.superblock = size at hplace
    obtain ⟨z, hz⟩ := exists_int32 (found : Int)
    obtain ⟨z', hz'⟩ := exists_int32 (int32 (found : Int) * b)
    obtain ⟨y, hy⟩ := exists_int32 ((ind : Int) * size)
    obtain ⟨x, hx⟩ := exists_int32 (int32 (int32 (found : Int) * b) + int32 ((ind : Int) * size))
    rw [hx, hz', hy, hz, Int.natCast_add, Int.natCast_mul, Int.natCast_mul] at hplace
    have hsum : (table * b : Int) = (found * b : Int) + 2 ^ 32 * (z * b + z' + y + x) := by
      have hdist : ((found : Int) + 2 ^ 32 * z) * b = found * b + 2 ^ 32 * (z * b) := by
        rw [Int.add_mul, Int.mul_assoc]
      rw [hdist] at hplace
      omega
    have hmod' := congrArg (· % (2 ^ 32 : Int)) hsum
    simp only [Int.add_mul_emod_self_left] at hmod'
    omega
  · rw [hplace, hsize, Int.toNat_natCast, Int.toNat_natCast] at heq
    have hsizes := congrArg Inode.size heq
    simp only [Inode.ofRecord, Inode.parse] at hsizes
    have hge' := hvalid.inodeSize_ge
    have hbits := (size_eq_iff (word_lt _ _) (word_lt _ _)).1 (BitVec.toInt_inj.1 hsizes).symm
    rwa [word_bytes (by omega), word_bytes (by omega)] at hbits

end

section

variable (hvalid : Superblock.Valid image.superblock) (hrec : image.HasRecord n)
  (hn : 1 ≤ n) (hle : n ≤ Superblock.total image.superblock) (hint : n < 2 ^ 31)
  (hreach : image.Reachable n)

include hvalid hrec hn hle hint hreach

omit hrec hn hle hint in
lemma inodeSize_of_reachable :
    (Reader.globals image.superblock).inodeSize = Superblock.inodeSize image.superblock := by
  rcases hvalid.inodeSize_cases with ⟨-, heq⟩ | ⟨hge, -⟩
  · exact heq
  · exact absurd hreach.inodeSize (Nat.not_lt.2 hge)

omit hint in
/-- The descriptor table that the reader takes has the descriptor, and is in the image. -/
lemma bgdtSize_of_reachable : ∃ size : Nat,
    (Reader.globals image.superblock).bgdtSize = size ∧ 32 * image.group n + 12 ≤ size ∧
      2048 + size ≤ image.recordAt n := by
  have hbelow := hreach.below
  have hdesc := descriptor_lt hvalid hrec hn hle
  have hge := descriptors_ge hvalid
  have hbehind := hrec.behind
  have hlt := group_lt_groups hvalid hn hle
  by_cases htotal : Superblock.total image.superblock < 2 ^ 31
  · refine ⟨32 * (Superblock.total image.superblock / Superblock.perGroup image.superblock), ?_,
      by omega, by omega⟩
    rw [Globals.bgdtSize, hvalid.groups_of_lt htotal]
    generalize Superblock.total image.superblock / Superblock.perGroup image.superblock =
      groups at *
    rw [int32_of_bounds (by omega) (by omega)]
    omega
  · obtain ⟨hzero, hsum⟩ := hreach.total.resolve_left htotal
    have hword : Superblock.total image.superblock < 2 ^ 32 := word_lt _ _
    rcases hvalid.groups_of_ge (Nat.not_lt.1 htotal) hword (by omega) with ⟨-, hbgdt⟩ | ⟨hsum', -⟩
    · exact ⟨32, hbgdt, by omega, by omega⟩
    · exact absurd hsum (Nat.not_lt.2 hsum')

lemma recordOffset_of_reachable :
    Inode.recordOffset image (Reader.globals image.superblock) n = image.recordAt n := by
  have hbelow := hreach.below
  have hdesc := descriptor_lt hvalid hrec hn hle
  have hmod := hreach.descriptor
  have hsize := inodeSize_of_reachable hvalid hreach
  obtain ⟨-, hind⟩ := index_eq hvalid hn hint
  have hword : 2048 + (32 * image.group n + 8) = 2048 + 32 * image.group n + 8 := by omega
  rw [Inode.recordOffset, hind, hvalid.blckSize_eq, hsize, entryAt_eq hvalid hn hint (by omega),
    hword]
  unfold Image.recordAt at hbelow ⊢
  generalize (n - 1) % Superblock.perGroup image.superblock = ind at hbelow ⊢
  generalize image.wordAt (2048 + 32 * image.group n + 8) = found at hmod ⊢
  generalize image.inodeTable n = table at hmod hbelow ⊢
  generalize Superblock.blockSize image.superblock = b at hmod hbelow ⊢
  generalize Superblock.inodeSize image.superblock = size at hbelow ⊢
  obtain ⟨z, hz⟩ := exists_int32 (found : Int)
  obtain ⟨z', hz'⟩ := exists_int32 (int32 (found : Int) * b)
  obtain ⟨y, hy⟩ := exists_int32 ((ind : Int) * size)
  have hdist : ((found : Int) + 2 ^ 32 * z) * b = (found * b : Nat) + 2 ^ 32 * (z * b) := by
    rw [Int.add_mul, Int.mul_assoc, Int.natCast_mul]
  rw [hz', hy, hz, hdist]
  obtain ⟨x, hx⟩ : ∃ x : Int, ((found * b : Nat) : Int) = (table * b : Nat) + 2 ^ 32 * x :=
    ⟨((found * b : Nat) - (table * b : Nat) : Int) / 2 ^ 32, by omega⟩
  have hsum : (found * b : Nat) + 2 ^ 32 * (z * b) + 2 ^ 32 * z' +
      ((ind : Int) * size + 2 ^ 32 * y) =
      (table * b + ind * size : Nat) + 2 ^ 32 * (x + z * b + z' + y) := by
    rw [hx, Int.natCast_add, Int.natCast_mul ind]
    omega
  rw [hsum, int32_add_mul]
  exact int32_of_lt hbelow

theorem fills_of_reachable : Fills image n := by
  intro image' hsame w herrno
  have hsuper := hsame.superblock_eq hvalid hrec hn hle
  obtain ⟨size, hbgdt, hentry, htable⟩ := bgdtSize_of_reachable hvalid hrec hn hle hreach
  have hsize := inodeSize_of_reachable hvalid hreach
  have hne : (Reader.globals image.superblock).inodePerGroup ≠ 0 := by
    rw [hvalid.inodePerGroup_eq]
    exact Int.natCast_ne_zero.2 hvalid.perGroup_pos.ne'
  obtain ⟨hlarge, hlarge', hlength, hgroup, hslot, hword, hholds, hholds', hrecord⟩ :
      size < 2 ^ 64 ∧ Superblock.inodeSize image.superblock < 2 ^ 64 ∧ 2048 ≤ image'.length ∧
      32 * image.group n < 2 ^ 31 ∧ 32 * image.group n + 8 + 4 ≤ size ∧
      2048 + (32 * image.group n + 8) + 4 ≤ image.recordAt n ∧ size ≤ image'.length - 2048 ∧
      Superblock.inodeSize image.superblock ≤ image'.length - image.recordAt n ∧
      112 ≤ Superblock.inodeSize image.superblock := by
    have hbelow := hreach.below
    have hin := hrec.inImage
    have hge := hvalid.inodeSize_ge
    have hlt := hreach.inodeSize
    rw [hsame.length]
    omega
  have hentryAt := entryAt_eq hvalid hn hint hgroup
  have hload : word (image'.bytes 2048 size) (32 * image.group n + 8) =
      image.wordAt (2048 + (32 * image.group n + 8)) := by
    rw [word_bytes hslot]
    exact hsame.wordAt_eq hword
  have hplace : int32 (int32 (int32 (word (image'.bytes 2048 size) (32 * image.group n + 8)) *
        (Reader.globals image.superblock).blckSize) +
      int32 ((int32 ((n : Int) - 1)).tmod (Reader.globals image.superblock).inodePerGroup *
        (Reader.globals image.superblock).inodeSize)) = image.recordAt n := by
    rw [hload, ← recordOffset_of_reachable hvalid hrec hn hle hint hreach, Inode.recordOffset,
      hentryAt]
  obtain ⟨v, hv, hfill⟩ := @Reader.run_fill image' w (by rwa [hsuper]) hlength herrno
  have hread := Inode.run_record (w := v) hne hbgdt hlarge ⟨by decide, hholds⟩ hentryAt hslot hsize
    hlarge' hplace ⟨Int.natCast_nonneg _, hholds'⟩ hv
  rw [Int.toNat_natCast] at hread
  have hparse := Inode.run_fill hread (by rwa [Image.length_bytes])
  refine ⟨v, ?_⟩
  rw [EStateM.run_bind, hfill, hsuper]
  simp only
  rw [hparse, Inode.ofRecord_eq_parse]
  obtain ⟨hhi, hlo⟩ := hsame.size_words
  have hhi' : 108 + 4 ≤ Superblock.inodeSize image.superblock := hrecord
  rw [word_bytes hhi', word_bytes ((by decide : 4 + 4 ≤ 112).trans hrecord), hhi, hlo]
  exact hreach.size

end

/-- Exactly the reachable records are found. -/
theorem fills_iff {image : Image} {n : Nat} (hvalid : Superblock.Valid image.superblock)
    (hrec : image.HasRecord n) (hn : 1 ≤ n) (hle : n ≤ Superblock.total image.superblock)
    (hint : n < 2 ^ 31) : Fills image n ↔ image.Reachable n :=
  ⟨reachable_of_fills hvalid hrec hn hle hint, fills_of_reachable hvalid hrec hn hle hint⟩

/-- One group of sixteen inodes whose table is block `3`, and blocks of 1 KiB. -/
def smallBlocks : Image :=
  imageOf [(1024, 16), (1064, 16), (2056, 3), (4480, 0xED), (4481, 0x41), (4485, 4)]

theorem smallBlocks_fills : Fills smallBlocks 12 :=
  (@fills_iff smallBlocks 12
    ⟨by decide +kernel, by decide +kernel, by decide +kernel, by decide +kernel, by decide +kernel,
      by decide +kernel, by decide +kernel⟩
    ⟨by decide +kernel, by decide +kernel⟩ (by decide) (by decide +kernel) (by decide)).2
    ⟨.inl (by decide +kernel), by decide +kernel, by decide +kernel, by decide +kernel,
      .inl (by decide +kernel)⟩

/-- The same with blocks of 4 KiB: the descriptors are in block `1`. -/
def largeBlocks : Image :=
  imageOf [(1024, 16), (1048, 2), (1064, 16), (4104, 3), (13696, 0xED), (13697, 0x41), (13701, 4)]

/-- The reader takes the descriptors of block `0`, and the record from the superblock's bytes. -/
theorem largeBlocks_misses : Superblock.Valid largeBlocks.superblock ∧ largeBlocks.HasRecord 12 ∧
    (returned ((Reader.fill largeBlocks >>= fun g => Inode.fill largeBlocks g 12).run {})).map
      Inode.type = some 0 ∧
    (Inode.ofRecord 12 (largeBlocks.bytes (largeBlocks.recordAt 12)
      (Superblock.inodeSize largeBlocks.superblock))).type = 0x41ED :=
  ⟨⟨by decide +kernel, by decide +kernel, by decide +kernel, by decide +kernel, by decide +kernel,
      by decide +kernel, by decide +kernel⟩,
    ⟨by decide +kernel, by decide +kernel⟩, by decide +kernel, by decide +kernel⟩

end TiPI.Ext2
