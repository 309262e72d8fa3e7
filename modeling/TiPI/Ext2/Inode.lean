import TiPI.Ext2.Machine

/-!
# Inodes and the blocks of a file

`Inode::fill`, `Inode::nextBlock`, `Inode::printData` and `Reader::printFile`.
-/

namespace TiPI.Ext2

/-- The globals that `Reader::fill` sets. -/
structure Globals where
  blckSize : Int
  inodeSize : Int
  inodePerGroup : Int
  numOfBlckGroups : Int
  dirEntryType : Bool
  deriving DecidableEq

structure Inode where
  inode : Int
  type : Int
  size : Int
  ind : Nat
  directBlock : Fin 12 → Int
  singlyIbp : Int
  doublyIbp : Int
  direI : Nat

variable (image : Image) (g : Globals)

/-- `BGDT_SIZE` -/
def Globals.bgdtSize : Int := int32 (g.numOfBlckGroups * 32)

namespace Inode

/-- The bytes of an inode's record: the first part of `fill`. -/
def record (inode : Int) : Call (List UInt8) := do
  if g.inodePerGroup = 0 then throw .undefined
  let blckGrp := int32 ((int32 (inode - 1)).tdiv g.inodePerGroup)
  let inodeInd := (int32 (inode - 1)).tmod g.inodePerGroup
  newArray g.bgdtSize
  let bgdt ← preadAll image "first Inode::fill::pread() : " g.bgdtSize 2048
  let inodeTableBlck ← load32 bgdt (sizeT (int32 (32 * blckGrp) + 8))
  newArray g.inodeSize
  preadAll image "second Inode::fill::pread() : " g.inodeSize
    (int32 (int32 (inodeTableBlck * g.blckSize) + int32 (inodeInd * g.inodeSize)))

/-- The fields of a record: the second part of `fill`. The statement `size << 32;` has no effect,
so the halves of the size are laid over each other. -/
def parse (inode : Int) (buff : List UInt8) : Inode where
  inode := inode
  type := int16 (half buff 0)
  size := (BitVec.ofInt 64 (int32 (word buff 108)) ||| BitVec.ofInt 64 (int32 (word buff 4))).toInt
  ind := 0
  directBlock i := int32 (word buff (40 + 4 * i))
  singlyIbp := int32 (word buff 88)
  doublyIbp := int32 (word buff 92)
  direI := 0

def fill (inode : Int) : Call Inode := do
  let buff ← record image g inode
  if buff.length < 112 then throw .undefined
  return parse inode buff

/-- `t()` -/
def t (ino : Inode) : Nat := (ino.type % 2 ^ 16).toNat &&& 0xF000

/-- The array read from a block of pointers. -/
def layer (what : String) (block : Int) : Call (List UInt8) := do
  newArray (g.blckSize.tdiv 4)
  preadAll image what g.blckSize (int32 (block * g.blckSize))

def nextBlock (ino : Inode) : Call Int := do
  if sizeT ino.size < sizeT (ino.ind * g.blckSize) then
    return 0
  if h : ino.ind < 12 then
    return ino.directBlock ⟨ino.ind, h⟩
  if ino.ind < sizeT (int32 (12 + g.blckSize.tdiv 4)) then
    let layer1 ← layer image g "indirect1 Inode::nextBlock::pread() : " ino.singlyIbp
    load32 layer1 (4 * (ino.ind - 12))
  else if ino.ind < sizeT (int32 (12 + (int32 ((g.blckSize.tdiv 4 + 1) * g.blckSize)).tdiv 4)) then
    let layer1 ← layer image g "indirect2.1 Inode::nextBlock::pread() : " ino.doublyIbp
    let ind := sizeT (ino.ind - 12 - g.bgdtSize.tdiv 4)
    let ind1 := ind / sizeT (g.blckSize.tdiv 4)
    let ind2 := ind % sizeT (g.blckSize.tdiv 4)
    let ptr ← load32 layer1 (4 * ind1)
    let layer2 ← layer image g "indirect2.2 Inode::nextBlock::pread() : " ptr
    load32 layer2 (4 * ind2)
  else
    -- the triply indirect blocks are left for later
    return 0

/-- The number of bytes written and the inode afterwards. -/
def printData (ino : Inode) : Call (Int × Inode) := do
  let blckInd ← nextBlock image g ino
  if blckInd = 0 ∨ sizeT ino.size < sizeT (ino.ind * g.blckSize) then
    return (0, ino)
  let left := sizeT (sizeT ino.size - sizeT (ino.ind * g.blckSize))
  let nToRead := if left < sizeT g.blckSize then int32 left else g.blckSize
  newArray g.blckSize
  let buff ← pread image nToRead (int32 (blckInd * g.blckSize))
  if (← get).errno ≠ 0 then
    throw (.failure "Something went wrong with direct Inode::printData::pread() : ")
  modify (World.write · buff)
  return (buff.length, { ino with ind := ino.ind + 1 })

end Inode

namespace Reader

/-- `while (inode.printData() == BLCK_SIZE);` -/
def printLoop : Nat → Inode → Call Unit
  | 0, _ => throw .unfinished
  | fuel + 1, ino => do
    let (readed, ino') ← ino.printData image g
    if readed = g.blckSize then printLoop fuel ino' else return ()

def printFile (fuel : Nat) (inodeNum : Int) : Call Unit := do
  let ino ← Inode.fill image g inodeNum
  printLoop image g fuel ino

end Reader

namespace Inode

variable {image : Image} {g : Globals} {w w' : World} {inode : Int} {buff : List UInt8}

@[simp] lemma parse_directBlock (i : Fin 12) :
    (parse inode buff).directBlock i = int32 (word buff (40 + 4 * i)) := by
  simp only [parse]

@[simp] lemma parse_singlyIbp : (parse inode buff).singlyIbp = int32 (word buff 88) := by
  simp only [parse]

@[simp] lemma parse_doublyIbp : (parse inode buff).doublyIbp = int32 (word buff 92) := by
  simp only [parse]

lemma record_ok (h : (record image g inode).run w = .ok buff w') :
    4 ≤ g.bgdtSize ∧ buff.length = g.inodeSize := by
  unfold record at h
  split at h
  · obtain ⟨_, _, hthrow, -⟩ := bind_ok h
    cases hthrow
  · obtain ⟨_, _, -, h⟩ := bind_ok h
    obtain ⟨bgdt, _, hbgdt, h⟩ := bind_ok h
    obtain ⟨_, _, hload, h⟩ := bind_ok h
    obtain ⟨_, _, -, hrecord⟩ := bind_ok h
    have hlen := preadAll_ok hbgdt
    have hentry := load32_ok hload
    exact ⟨by omega, preadAll_ok hrecord⟩

/-- The record is where the table of its block group says. -/
lemma run_record {n size entry : Nat} (hper : g.inodePerGroup ≠ 0) (hn : g.bgdtSize = n)
    (hnlt : n < 2 ^ 64) (htable : image.Holds 2048 n)
    (hentry : sizeT (int32 (32 * int32 ((int32 (inode - 1)).tdiv g.inodePerGroup)) + 8) = entry)
    (hin : entry + 4 ≤ n) (hsize : g.inodeSize = size) (hslt : size < 2 ^ 64) {offset : Int}
    (hoffset : int32 (int32 (int32 (word (image.bytes 2048 n) entry) * g.blckSize) +
      int32 ((int32 (inode - 1)).tmod g.inodePerGroup * g.inodeSize)) = offset)
    (hholds : image.Holds offset size) (herrno : w.errno = 0) :
    (record image g inode).run w = .ok (image.bytes offset.toNat size) w := by
  have hnew : ∀ m : Nat, (newArray m).run w = .ok () w := fun m =>
    run_newArray (Int.natCast_nonneg m)
  have hread : (preadAll image "first Inode::fill::pread() : " n 2048).run w =
      .ok (image.bytes 2048 n) w := run_preadAll _ hnlt htable herrno
  have hload := run_load32 (w := w) (image.bytes 2048 n) (i := entry)
    (by rw [Image.length_bytes]; exact hin)
  have hread' := run_preadAll (w := w) "second Inode::fill::pread() : " hslt hholds herrno
  rw [record, if_neg hper, hn]
  simp only [EStateM.run_bind, hnew, hread, hentry, hload, hoffset]
  simp only [hsize, hnew, hread']

lemma run_fill (h : (record image g inode).run w = .ok buff w') (hlen : 112 ≤ buff.length) :
    (fill image g inode).run w = .ok (parse inode buff) w' := by
  rw [fill, EStateM.run_bind, h]
  simp only [if_neg (Nat.not_lt.2 hlen)]
  rfl

lemma inode_of_fill {ino : Inode} (h : (fill image g inode).run w = .ok ino w') :
    ino.inode = inode := by
  obtain ⟨buff, u, -, hparse⟩ := bind_ok h
  split at hparse
  · obtain ⟨_, _, hthrow, -⟩ := bind_ok hparse
    cases hthrow
  · cases hparse
    rfl

end Inode

/-! ### A small file system -/

/-- One block group of sixteen inodes. -/
def oneGroup : Globals where
  blckSize := 1024
  inodeSize := 128
  inodePerGroup := 16
  numOfBlckGroups := 1
  dirEntryType := true

/-- An image with the given bytes, and zeros elsewhere. -/
def imageOf (cells : List (Nat × UInt8)) : Image where
  length := 65536
  byte i := (cells.lookup i).getD 0

/-- Block `3` is the inode table of the group. -/
lemma Inode.run_record_oneGroup {cells : List (Nat × UInt8)} {k : Nat}
    (h3 : word ((imageOf cells).bytes 2048 32) 8 = 3) (hk : k < 16) :
    (record (imageOf cells) oneGroup (k + 1 : Nat)).run {} =
      .ok ((imageOf cells).bytes (3072 + k * 128) 128) {} := by
  have hentry : ∀ k < 16,
      sizeT (int32 (32 * int32 ((int32 ((k + 1 : Nat) - 1)).tdiv 16)) + 8) = 8 := by
    decide
  have hoffset : ∀ k < 16, int32 (int32 (int32 (3 : Nat) * 1024) +
      int32 ((int32 ((k + 1 : Nat) - 1)).tmod 16 * 128)) = (3072 + k * 128 : Nat) := by
    decide
  exact @run_record (imageOf cells) oneGroup {} (k + 1 : Nat) 32 128 8 (by decide) (by decide)
    (by decide) ⟨by decide, (by decide : 32 ≤ 65536 - 2048)⟩ (hentry k hk) (by decide) (by decide)
    (by decide) (3072 + k * 128 : Nat) (by rw [h3]; exact hoffset k hk)
    ⟨Int.natCast_nonneg _, (by omega : 128 ≤ 65536 - (3072 + k * 128))⟩ rfl

end TiPI.Ext2
