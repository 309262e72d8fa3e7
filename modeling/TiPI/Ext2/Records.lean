import TiPI.Ext2.Directory
import TiPI.Ext2.Blocks

/-!
# The records of a directory

What `Inode::nextDirEntry` makes of a record.
-/

namespace TiPI.Ext2

/-- A record of a directory; an unused one has inode `0`. -/
structure Record where
  inode : Nat
  recLen : Nat
  name : Name
  deriving DecidableEq

namespace Record

/-- The bytes at `o` are the record. With file types the byte at `o + 7` is one. -/
structure At (image : Image) (typed : Bool) (o : Nat) (r : Record) : Prop where
  inode : word (image.bytes o 8) 0 = r.inode
  recLen : half (image.bytes o 8) 4 = r.recLen
  lengthLow : (image.byte (o + 6)).toNat = r.name.length
  lengthHigh : typed = false → image.byte (o + 7) = 0
  name : image.bytes (o + 8) r.name.length = r.name
  fits : 8 + r.name.length ≤ r.recLen
  noNul : 0 ∉ r.name

lemma at_iff {image : Image} {typed : Bool} {o : Nat} {r : Record} :
    r.At image typed o ↔ word (image.bytes o 8) 0 = r.inode ∧ half (image.bytes o 8) 4 = r.recLen ∧
      (image.byte (o + 6)).toNat = r.name.length ∧ (typed = false → image.byte (o + 7) = 0) ∧
      image.bytes (o + 8) r.name.length = r.name ∧ 8 + r.name.length ≤ r.recLen ∧ 0 ∉ r.name :=
  ⟨fun h => ⟨h.inode, h.recLen, h.lengthLow, h.lengthHigh, h.name, h.fits, h.noNul⟩,
    fun ⟨h0, h1, h2, h3, h4, h5, h6⟩ => ⟨h0, h1, h2, h3, h4, h5, h6⟩⟩

instance (image : Image) (typed : Bool) (o : Nat) (r : Record) : Decidable (r.At image typed o) :=
  decidable_of_iff' _ at_iff

/-- The name as the reader takes it: without file types it takes the high byte of the length. -/
def readName (typed : Bool) (r : Record) : Name := if typed then r.name else []

lemma readName_length_le (typed : Bool) (r : Record) :
    (r.readName typed).length ≤ r.name.length := by
  unfold readName
  split
  · exact Nat.le.refl
  · exact Nat.zero_le _

lemma At.readName_noNul {image : Image} {typed : Bool} {o : Nat} {r : Record}
    (h : r.At image typed o) : 0 ∉ r.readName typed := by
  unfold readName
  split
  · exact h.noNul
  · exact List.not_mem_nil

lemma At.bytes_readName {image : Image} {typed : Bool} {o : Nat} {r : Record}
    (h : r.At image typed o) :
    image.bytes (o + 8) (r.readName typed).length = r.readName typed := by
  unfold readName
  split
  · exact h.name
  · rfl

end Record

/-- The inode of a directory after a record of `recLen` bytes. -/
def Inode.pass (ino : Inode) (b recLen : Nat) : Inode :=
  { ino with
    ind := if ino.direI + recLen = b then ino.ind + 1 else ino.ind
    direI := if ino.direI + recLen = b then 0 else ino.direI + recLen }

/-- The world after an entry of `inode` was read. -/
def World.enter (w : World) (inode : Int) : World :=
  { w.search inode with behind := fun k => w.behind (k + 1) }

/-- The reader stands in a block of a directory that begins at byte `base`. -/
structure Seated (image : Image) (g : Globals) (b : Nat) (buff : List UInt8) (ino : Inode)
    (base : Nat) : Prop extends Mapped image g b buff ino where
  inFile : ino.ind * b < fileSize buff
  inRange : ino.ind < 12 + b / 4
  single : 12 ≤ ino.ind → image.Holds (int32 (int32 (word buff 88) * b)) b
  pointer_ne : pointer image b buff ino.ind ≠ 0
  position : position image b buff ino.ind = base
  below : base + b ≤ 2 ^ 31
  inImage : base + b ≤ image.length

variable {image : Image} {g : Globals} {b base : Nat} {buff : List UInt8} {ino : Inode} {w : World}
  {r : Record}

lemma cString_append {name : Name} (hname : 0 ∉ name) (tail : Name) :
    cString (name ++ tail) = name ++ cString tail := by
  refine List.takeWhile_append_of_pos fun c hc => ?_
  simpa using fun h0 : c = 0 => hname (h0 ▸ hc)

namespace Seated

lemma run_nextBlock (h : Seated image g b buff ino base) (herrno : w.errno = 0) :
    (ino.nextBlock image g).run w = .ok (pointer image b buff ino.ind) w :=
  h.toMapped.run_nextBlock (Nat.le_of_lt h.inFile) h.inRange h.single herrno

lemma block_offset (h : Seated image g b buff ino base) :
    int32 (pointer image b buff ino.ind * g.blckSize) = base := by
  rw [h.blckSize]
  exact h.position

lemma run_entryHead (h : Seated image g b buff ino base) (hfit : ino.direI + 8 ≤ b)
    (herrno : w.errno = 0) :
    (ino.entryHead image g (pointer image b buff ino.ind)).run w =
      .ok (image.bytes (base + ino.direI) 8, ino) w := by
  have hbelow := h.below
  have hinImage := h.inImage
  have hleft : ¬ sizeT (g.blckSize - ino.direI) < 8 := by
    rw [h.blckSize, ← Int.natCast_sub (by omega), sizeT_of_lt (by omega)]
    omega
  have hoff : offT (ino.direI + (base : Int)) = (base + ino.direI : Nat) := by
    unfold offT
    rw [Int.bmod_eq_iff (by decide)]
    omega
  have hread : (preadAll image "Inode::nextDirEntry() 3 : " 8 (base + ino.direI : Nat)).run w =
      .ok (image.bytes (base + ino.direI) 8) w :=
    @run_preadAll image w 8 _ _ (by decide) ⟨Int.natCast_nonneg _, by omega⟩ herrno
  rw [Inode.entryHead]
  simp only [hleft, if_false, h.block_offset, hoff, EStateM.run_bind, hread]
  rfl

lemma run_nameLoop (h : Seated image g b buff ino base) {n : Nat} (hn : n < 128)
    (hfit : ino.direI + 8 + n ≤ b) (herrno : w.errno = 0) :
    (ino.nameLoop image g (n + 1) true n []).run w =
      .ok (image.bytes (base + ino.direI + 8) n, ino) w := by
  obtain ⟨h4, hlo, hhi⟩ := h.isBlockSize.quarters
  have hbelow := h.below
  have hinImage := h.inImage
  cases n with
  | zero => rfl
  | succ n =>
    have hoff : int32 (ino.direI + (base : Int) + 8) = (base + ino.direI + 8 : Nat) := by
      rw [int32_of_bounds (by omega) (by omega)]
      omega
    have hmin : min (n + 1) (sizeT g.blckSize) = n + 1 := by
      rw [h.blckSize, sizeT_of_lt (by omega)]
      omega
    have hread : (preadAll image "Inode::nextDirEntry() 4: " (n + 1 : Nat)
        (base + ino.direI + 8 : Nat)).run w = .ok (image.bytes (base + ino.direI + 8) (n + 1)) w :=
      run_preadAll _ (by omega) ⟨Int.natCast_nonneg _, by omega⟩ herrno
    rw [Inode.nameLoop]
    simp only [EStateM.run_bind, h.run_nextBlock herrno, h.pointer_ne, hmin, h.block_offset,
      if_true, if_false, hoff, hread, Nat.sub_self]
    rfl

/-- The length as the reader takes it: from `128` on the signed byte is negative. -/
lemma nameLength_eq (hat : r.At image g.dirEntryType (base + ino.direI)) :
    (r.name.length < 128 → Inode.nameLength g (image.bytes (base + ino.direI) 8) =
      (r.readName g.dirEntryType).length) ∧
    (128 ≤ r.name.length → Inode.nameLength g (image.bytes (base + ino.direI) 8) < 0) := by
  have hbyte := (image.byte (base + ino.direI + 6)).toNat_lt
  have hsmall : r.name.length < 128 → int8 r.name.length = r.name.length := fun h => by
    unfold int8
    rw [Int.bmod_eq_iff (by decide)]
    omega
  have hlarge : r.name.length < 256 → 128 ≤ r.name.length →
      int8 r.name.length = r.name.length - 256 := fun h h' => by
    unfold int8
    rw [Int.bmod_eq_iff (by decide)]
    omega
  rw [hat.lengthLow] at hbyte
  unfold Inode.nameLength Record.readName
  rw [image.getD_bytes (by decide), image.getD_bytes (by decide), hat.lengthLow]
  by_cases htyped : g.dirEntryType = true
  · simp only [htyped, if_true]
    refine ⟨hsmall, fun hlen => ?_⟩
    rw [hlarge hbyte hlen]
    omega
  · have hhigh := hat.lengthHigh (by simpa using htyped)
    simp only [htyped, hhigh]
    refine ⟨fun hlen => ?_, fun hlen => ?_⟩
    · rw [hsmall hlen]
      simp only [Bool.false_eq_true, if_false, List.length_nil, UInt8.toNat_zero]
      omega
    · rw [hlarge hbyte hlen]
      simp only [Bool.false_eq_true, if_false, UInt8.toNat_zero]
      omega

/-- The reader goes on behind the record: a signed length of `-2 ^ 15` is a whole block. -/
lemma pass_eq (h : Seated image g b buff ino base) {recLen : Nat} (hfit : ino.direI + recLen ≤ b)
    (hpos : 0 < recLen) (hrec : recLen < 2 ^ 15 ∨ b ≤ 2 ^ 15) :
    ino.pass b recLen =
      { ino with
        ind := if sizeT (ino.direI + int16 recLen) / sizeT g.blckSize = 0 then ino.ind
          else ino.ind + 1
        direI := sizeT (ino.direI + int16 recLen) % sizeT g.blckSize } := by
  obtain ⟨h4, hlo, hhi⟩ := h.isBlockSize.quarters
  have hsize : sizeT g.blckSize = b := by rw [h.blckSize, sizeT_of_lt (by omega)]
  rw [hsize, Inode.pass]
  by_cases hsmall : recLen < 2 ^ 15
  · have hlen : int16 recLen = recLen := by
      unfold int16
      rw [Int.bmod_eq_iff (by decide)]
      omega
    have hnext : sizeT (ino.direI + (recLen : Int)) = ino.direI + recLen :=
      sizeT_of_lt (n := ino.direI + recLen) (by omega)
    rw [hlen, hnext]
    by_cases hend : ino.direI + recLen = b
    · simp [hend, Nat.div_self (by omega : 0 < b)]
    · have hlt : ino.direI + recLen < b := by omega
      simp [hend, Nat.div_eq_of_lt hlt, Nat.mod_eq_of_lt hlt]
  · have hb := hrec.resolve_left hsmall
    obtain ⟨hzero, hwhole, hblock⟩ : ino.direI = 0 ∧ recLen = 2 ^ 15 ∧ b = 2 ^ 15 := by omega
    simp [hzero, hwhole, hblock, int16, sizeT]

/-- A record with a name of at most `127` bytes is read. -/
lemma run_nextDirEntry_short (h : Seated image g b buff ino base)
    (hat : r.At image g.dirEntryType (base + ino.direI)) (hfit : ino.direI + r.recLen ≤ b)
    (hlen : r.name.length < 128) (hrec : r.recLen < 2 ^ 15 ∨ b ≤ 2 ^ 15) (herrno : w.errno = 0) :
    (ino.nextDirEntry image g).run w =
      .ok ((int32 r.inode, cString (r.readName g.dirEntryType ++ w.behind 0)), ino.pass b r.recLen)
        (w.enter ino.inode) := by
  obtain ⟨h4, hlo, hhi⟩ := h.isBlockSize.quarters
  have hfits := hat.fits
  have hnext : (catching (ino.nextBlock image g) 0).run (w.search ino.inode) = _ :=
    run_catching (h.run_nextBlock herrno)
  have hhead := h.run_entryHead (w := w.search ino.inode) (by omega) herrno
  have hnew : (newArray (r.readName g.dirEntryType).length).run (w.search ino.inode) =
      .ok () (w.search ino.inode) := run_newArray (Int.natCast_nonneg _)
  have hread := r.readName_length_le g.dirEntryType
  have hloop := h.run_nameLoop (n := (r.readName g.dirEntryType).length) (w := w.search ino.inode)
    (by omega) (by omega) herrno
  have hstring : (stringOf (r.readName g.dirEntryType)).run (w.search ino.inode) =
      .ok (cString (r.readName g.dirEntryType ++ w.behind 0)) (w.enter ino.inode) := rfl
  have hne : g.blckSize ≠ 0 := by rw [h.blckSize]; omega
  rw [Inode.nextDirEntry, h.pass_eq hfit (by omega) hrec]
  simp only [EStateM.run_bind, EStateM.run_modify, hnext, h.pointer_ne, if_false, hhead,
    (nameLength_eq hat).1 hlen, hnew, Int.toNat_natCast, hloop, hat.bytes_readName, hat.recLen,
    hne, hstring, hat.inode]
  rw [EStateM.run_pure]

/-- Where a NUL follows its buffer, the name is read as it is. -/
lemma run_nextDirEntry (h : Seated image g b buff ino base)
    (hat : r.At image g.dirEntryType (base + ino.direI)) (hfit : ino.direI + r.recLen ≤ b)
    (hlen : r.name.length < 128) (hrec : r.recLen < 2 ^ 15) (hinode : r.inode < 2 ^ 31)
    (herrno : w.errno = 0) (hbehind : cString (w.behind 0) = []) :
    (ino.nextDirEntry image g).run w =
      .ok ((r.inode, r.readName g.dirEntryType), ino.pass b r.recLen) (w.enter ino.inode) := by
  rw [h.run_nextDirEntry_short hat hfit hlen (.inl hrec) herrno, int32_of_lt hinode,
    cString_append hat.readName_noNul, hbehind, List.append_nil]

/-- A longer name throws: its buffer has a negative length. -/
lemma run_nextDirEntry_long (h : Seated image g b buff ino base)
    (hat : r.At image g.dirEntryType (base + ino.direI)) (hfit : ino.direI + r.recLen ≤ b)
    (hlen : 128 ≤ r.name.length) (herrno : w.errno = 0) :
    (ino.nextDirEntry image g).run w =
      .error (.failure "std::bad_array_new_length") (w.search ino.inode) := by
  have hfits := hat.fits
  have hnext : (catching (ino.nextBlock image g) 0).run (w.search ino.inode) = _ :=
    run_catching (h.run_nextBlock herrno)
  have hhead := h.run_entryHead (w := w.search ino.inode) (by omega) herrno
  rw [Inode.nextDirEntry]
  simp only [EStateM.run_bind, EStateM.run_modify, hnext, h.pointer_ne, if_false, hhead]
  rw [newArray, if_pos ((nameLength_eq hat).2 hlen)]
  rfl

end Seated

/-- Where no block is left comes the default entry. -/
lemma run_nextDirEntry_end {w' : World}
    (hnext : (catching (ino.nextBlock image g) 0).run (w.search ino.inode) = .ok 0 w') :
    (ino.nextDirEntry image g).run w = .ok ((0, []), ino) w' := by
  rw [Inode.nextDirEntry]
  simp only [EStateM.run_bind, EStateM.run_modify, hnext, if_true]
  rfl

end TiPI.Ext2
