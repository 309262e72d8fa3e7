import TiPI.Ext2.Effects
import TiPI.Ext2.Records

/-!
# Looking up a path

A directory tree, what a path means in it, and what `Reader::inodeFromPath` returns.
-/

namespace TiPI.Ext2

/-! ### Directory trees -/

structure Dir where
  /-- the number of blocks and where they are -/
  blocks : Nat
  address : Nat → Nat
  records : List Record

/-- The directories by their inode; no other inode has entries. -/
abbrev Tree := Nat → Option Dir

def Dir.lookup (D : Dir) (n : Name) : Option Nat :=
  (D.records.find? fun r => r.inode ≠ 0 ∧ r.name = n).map Record.inode

/-- The inode that a path from inode `i` leads to. -/
def Tree.resolve (tree : Tree) : Nat → List Name → Option Nat
  | i, [] => some i
  | i, n :: ns => (tree i).bind fun D => (D.lookup n).bind fun j => tree.resolve j ns

/-- `/n1/n2/…/nk` -/
def path (names : List Name) : List UInt8 := names.flatMap (Reader.slash :: ·)

/-- The inodes that the tree uses. -/
def Tree.Used (tree : Tree) (i : Nat) : Prop :=
  i = 2 ∨ i ≠ 0 ∧ ∃ d D, tree d = some D ∧ ∃ r ∈ D.records, r.inode = i

namespace Dir

variable (D : Dir)

/-- The records from byte `off` of block `j` on tile the rest of the directory. -/
def Tiled (image : Image) (typed : Bool) (b : Nat) : Nat → Nat → List Record → Prop
  | j, off, [] => j = D.blocks ∧ off = 0
  | j, off, r :: rs =>
    j < D.blocks ∧ r.At image typed (D.address j * b + off) ∧ off + r.recLen ≤ b ∧
      Tiled image typed b (if off + r.recLen = b then j + 1 else j)
        (if off + r.recLen = b then 0 else off + r.recLen) rs

instance decidableTiled (image : Image) (typed : Bool) (b : Nat) :
    ∀ j off rs, Decidable (D.Tiled image typed b j off rs)
  | j, off, [] => inferInstanceAs (Decidable (j = D.blocks ∧ off = 0))
  | j, off, r :: rs =>
    have := decidableTiled image typed b (if off + r.recLen = b then j + 1 else j)
      (if off + r.recLen = b then 0 else off + r.recLen) rs
    inferInstanceAs (Decidable (j < D.blocks ∧ r.At image typed (D.address j * b + off) ∧
      off + r.recLen ≤ b ∧ D.Tiled image typed b (if off + r.recLen = b then j + 1 else j)
        (if off + r.recLen = b then 0 else off + r.recLen) rs))

/-- The data of the inode with record `buff` is the directory. -/
structure In (image : Image) (typed : Bool) (b : Nat) (buff : List UInt8) : Prop where
  size : fileSize buff = D.blocks * b
  noHole : ∀ j < D.blocks, D.address j ≠ 0
  address : ∀ j < D.blocks, j < 12 + b / 4 → D.address j = Ext2.address image b buff j
  inImage : ∀ j < D.blocks, D.address j * b + b ≤ image.length
  indirect : 12 < D.blocks → word buff 88 * b + b ≤ image.length
  tiled : D.Tiled image typed b 0 0 D.records

end Dir

/-- The type in a record. -/
def typeOf (buff : List UInt8) : Nat := half buff 0 &&& 0xF000

/-- The image holds the tree; `record i` are the bytes of inode `i`. -/
structure WellFormed (image : Image) (g : Globals) (b : Nat) (record : Nat → List UInt8)
    (tree : Tree) : Prop where
  blckSize : g.blckSize = b
  isBlockSize : IsBlockSize b
  inodeSize : 128 ≤ g.inodeSize
  root : (tree 2).isSome
  zero : tree 0 = none
  inode : ∀ i, tree.Used i → (Inode.record image g i).run {} = .ok (record i) {}
  type : ∀ i, tree.Used i → (typeOf (record i) = Reader.DIR ↔ (tree i).isSome)
  dir : ∀ i D, tree.Used i → tree i = some D → D.In image g.dirEntryType b (record i)

/-! ### What the reader finds -/

/-- What ends a search. -/
inductive Hit
  | nothing
  /-- a record whose name has `128` bytes or more -/
  | long
  | unused (name : Name)
  | found (inode : Nat)
  deriving DecidableEq

/-- The search for `n` through the records of a directory. -/
def scan (typed : Bool) (n : Name) : List Record → Hit
  | [] => .nothing
  | r :: rs =>
    if 128 ≤ r.name.length then .long
    else if r.inode = 0 then .unused (r.readName typed)
    else if r.readName typed = n then .found r.inode
    else scan typed n rs

/-- The inode number that the reader takes `0` for can be read, and is not a directory. -/
def ZeroPasses (image : Image) (g : Globals) : Prop :=
  ∃ ino, (Inode.fill image g 0).run {} = .ok ino {} ∧ ino.t ≠ Reader.DIR

/-- The search along a path from directory `i` finds what the path means: no long name is met, an
unused record is met only where the path leads nowhere, and no component before the last that names
something else than a directory equals the last, `back`. -/
def Finds (image : Image) (g : Globals) (tree : Tree) (back : Name) : Nat → List Name → Prop
  | _, [] => True
  | i, n :: ns => ∀ D ∈ tree i,
    match scan g.dirEntryType n D.records with
    | .nothing => tree.resolve i (n :: ns) = none
    | .long => False
    | .unused name => tree.resolve i (n :: ns) = none ∧
        (name = n → ns ≠ [] ∧ n ≠ back ∧ ZeroPasses image g)
    | .found j => ns = [] ∨ if (tree j).isSome then Finds image g tree back j ns else n ≠ back

/-- The part of a directory that a search for `n` goes through lies where the reader can find it: in
the blocks below `12 + b / 4` and below 2 GiB, in records shorter than 32 KiB, and behind the last
one the reader finds the pointer `0`. -/
def Dir.Legible (D : Dir) (image : Image) (typed : Bool) (b : Nat) (buff : List UInt8) (n : Name) :
    Nat → Nat → List Record → Prop
  | j, _, [] => j < 12 + b / 4 ∧ pointer image b buff j = 0 ∧
      (12 ≤ j → image.Holds (int32 (int32 (word buff 88) * b)) b)
  | j, off, r :: rs => j < 12 + b / 4 ∧ D.address j * b + b ≤ 2 ^ 31 ∧
      (12 ≤ j → word buff 88 * b < 2 ^ 31) ∧
      (r.name.length < 128 → r.recLen < 2 ^ 15 ∧ r.inode < 2 ^ 31 ∧
        (r.inode ≠ 0 → r.readName typed ≠ n →
          D.Legible image typed b buff n (if off + r.recLen = b then j + 1 else j)
            (if off + r.recLen = b then 0 else off + r.recLen) rs))

/-- So do the directories that the search along a path goes through. -/
def Legible (image : Image) (g : Globals) (b : Nat) (record : Nat → List UInt8) (tree : Tree) :
    Nat → List Name → Prop
  | _, [] => True
  | i, n :: ns => ∀ D ∈ tree i, fileSize (record i) < 2 ^ 31 ∧
      D.Legible image g.dirEntryType b (record i) n 0 0 D.records ∧
      ∀ j, scan g.dirEntryType n D.records = .found j → Legible image g b record tree j ns

section

variable {image : Image} {g : Globals} {b : Nat} {record : Nat → List UInt8} {tree : Tree}
  {typed : Bool} {n : Name}

/-! ### Searching one directory -/

/-- The entry that ends the search. -/
def Hit.entry (n : Name) : Hit → DirEntry
  | .nothing | .long => (0, [])
  | .unused name => (0, name)
  | .found j => (j, n)

/-- The world of a search in the tree: `errno` is zero, a NUL is behind every name buffer, and only
directories were searched. -/
structure Searching (tree : Tree) (w : World) : Prop where
  errno : w.errno = 0
  behind : ∀ k, cString (w.behind k) = []
  searched : ∀ i ∈ w.searched, ∃ d : Nat, i = d ∧ (tree d).isSome

namespace Searching

variable {w : World} {i : Nat}

lemma search (h : Searching tree w) (hi : (tree i).isSome) : Searching tree (w.search i) where
  errno := h.errno
  behind := h.behind
  searched k hk := by
    rcases List.mem_cons.1 hk with rfl | hk
    · exact ⟨i, rfl, hi⟩
    · exact h.searched k hk

lemma enter (h : Searching tree w) (hi : (tree i).isSome) : Searching tree (w.enter i) where
  errno := h.errno
  behind k := h.behind (k + 1)
  searched := (h.search hi).searched

end Searching

lemma Dir.In.seated {D : Dir} {buff : List UInt8} {ino : Inode}
    (hD : D.In image g.dirEntryType b buff) (h : Mapped image g b buff ino)
    (hblock : ino.ind < D.blocks) (hin : ino.ind < 12 + b / 4)
    (hbelow : D.address ino.ind * b + b ≤ 2 ^ 31)
    (hsingle : 12 ≤ ino.ind → word buff 88 * b < 2 ^ 31) :
    Seated image g b buff ino (D.address ino.ind * b) := by
  obtain ⟨h4, hlo, -⟩ := h.isBlockSize.quarters
  have hb : 0 < b := by omega
  have haddr := hD.address _ hblock hin
  have hne : Ext2.address image b buff ino.ind ≠ 0 := haddr ▸ hD.noHole _ hblock
  have hlt : Ext2.address image b buff ino.ind * b < 2 ^ 31 := by
    rw [← haddr]
    exact Nat.lt_of_lt_of_le (Nat.lt_add_of_pos_right hb) hbelow
  have hpointer := pointer_of_below hb hne hlt hsingle
  have hposition := position_of_below hb hne hlt hsingle
  refine ⟨h, ?_, hin, fun h12 => ?_, ?_, ?_, hbelow, hD.inImage _ hblock⟩
  · rw [hD.size]
    exact Nat.mul_lt_mul_of_pos_right hblock hb
  · have hlt88 := hsingle h12
    have hsmall : int32 (word buff 88) = word buff 88 :=
      int32_of_lt (Nat.lt_of_le_of_lt (Nat.le_mul_of_pos_right _ hb) hlt88)
    have hoffset : int32 ((word buff 88 : Int) * b) = (word buff 88 * b : Nat) := int32_of_lt hlt88
    have hindirect := hD.indirect (by omega)
    rw [Nat.add_comm] at hindirect
    rw [hsmall, hoffset]
    refine ⟨Int.natCast_nonneg _, ?_⟩
    rw [Int.toNat_natCast]
    exact Nat.le_sub_of_add_le hindirect
  · rw [hpointer]
    exact Int.natCast_ne_zero.2 hne
  · rw [hposition, haddr]

/-- How the loop over the entries ends. -/
def Ends (tree : Tree) (n : Name) : Hit → EStateM.Result Fault World (DirEntry × Inode) → Prop
  | .long, result => ∃ fault w, result = .error fault w
  | hit, result => ∃ ino w, result = .ok (hit.entry n, ino) w ∧ Searching tree w

lemma Mapped.pass {buff : List UInt8} {ino : Inode} (h : Mapped image g b buff ino) (recLen : Nat) :
    Mapped image g b buff (ino.pass b recLen) :=
  ⟨h.blckSize, h.isBlockSize, h.size_lt, h.size, h.directBlock, h.singlyIbp, h.doublyIbp⟩

/-- The entry loop stops at what `scan` stops at. -/
lemma run_entryLoop {D : Dir} {i : Nat} {buff : List UInt8}
    (hD : D.In image g.dirEntryType b buff) (hi : (tree i).isSome) (rs : List Record) :
    ∀ (ino : Inode) (w : World), Mapped image g b buff ino → ino.inode = i → Searching tree w →
      D.Tiled image g.dirEntryType b ino.ind ino.direI rs →
      D.Legible image g.dirEntryType b buff n ino.ind ino.direI rs →
      ∃ result, Ends tree n (scan g.dirEntryType n rs) result ∧
        ∀ fuel, rs.length < fuel → (Reader.entryLoop image g n fuel ino).run w = result := by
  induction rs with
  | nil =>
    intro ino w hmapped hinode hw htiled hlegible
    obtain ⟨hblocks, -⟩ := htiled
    obtain ⟨hin, hzero, hsingle⟩ := hlegible
    have hsearch := hw.search hi
    have hnext := hmapped.run_nextBlock (by rw [hblocks, hD.size]) hin hsingle hsearch.errno
    rw [hzero, ← hinode] at hnext
    refine ⟨_, ⟨ino, _, rfl, hsearch⟩, fun fuel hfuel => ?_⟩
    obtain ⟨fuel, rfl⟩ := Nat.exists_eq_add_one_of_ne_zero (Nat.ne_of_gt hfuel)
    rw [Reader.entryLoop, EStateM.run_bind, run_nextDirEntry_end (run_catching hnext), hinode]
    rfl
  | cons r rs ih =>
    intro ino w hmapped hinode hw htiled hlegible
    obtain ⟨hblock, hat, hfit, htiled⟩ := htiled
    obtain ⟨hin, hbelow, hsingle, hlegible⟩ := hlegible
    have hseated := hD.seated hmapped hblock hin hbelow hsingle
    by_cases hlong : 128 ≤ r.name.length
    · rw [scan, if_pos hlong]
      refine ⟨.error (.failure "std::bad_array_new_length") (w.search ino.inode), ⟨_, _, rfl⟩,
        fun fuel hfuel => ?_⟩
      obtain ⟨fuel, rfl⟩ := Nat.exists_eq_add_one_of_ne_zero (Nat.ne_zero_of_lt hfuel)
      rw [Reader.entryLoop, EStateM.run_bind,
        hseated.run_nextDirEntry_long hat hfit hlong hw.errno]
    · obtain ⟨hrec, hnumber, hlegible⟩ := hlegible (Nat.not_le.1 hlong)
      have hrun := hseated.run_nextDirEntry hat hfit (Nat.not_le.1 hlong) hrec hnumber hw.errno
        (hw.behind 0)
      have henter := hw.enter hi
      rw [← hinode] at henter
      rw [scan, if_neg hlong]
      by_cases hunused : r.inode = 0
      · rw [if_pos hunused]
        refine ⟨_, ⟨ino.pass b r.recLen, _, rfl, henter⟩, fun fuel hfuel => ?_⟩
        obtain ⟨fuel, rfl⟩ := Nat.exists_eq_add_one_of_ne_zero (Nat.ne_zero_of_lt hfuel)
        rw [Reader.entryLoop, EStateM.run_bind, hrun, hunused]
        rfl
      · rw [if_neg hunused]
        by_cases hname : r.readName g.dirEntryType = n
        · rw [if_pos hname]
          refine ⟨_, ⟨ino.pass b r.recLen, _, rfl, henter⟩, fun fuel hfuel => ?_⟩
          obtain ⟨fuel, rfl⟩ := Nat.exists_eq_add_one_of_ne_zero (Nat.ne_zero_of_lt hfuel)
          rw [Reader.entryLoop, EStateM.run_bind, hrun, hname]
          simp only [ne_eq, not_true_eq_false, and_false, if_false]
          rfl
        · rw [if_neg hname]
          obtain ⟨result, hends, hmore⟩ := ih (ino.pass b r.recLen) (w.enter ino.inode)
            (hmapped.pass r.recLen) hinode henter htiled (hlegible hunused hname)
          refine ⟨result, hends, fun fuel hfuel => ?_⟩
          obtain ⟨fuel, rfl⟩ := Nat.exists_eq_add_one_of_ne_zero (Nat.ne_zero_of_lt hfuel)
          have hpassed : ((r.inode : Int) ≠ 0 ∧ r.readName g.dirEntryType ≠ n) :=
            ⟨Int.natCast_ne_zero.2 hunused, hname⟩
          rw [Reader.entryLoop, EStateM.run_bind, hrun]
          simp only [if_pos hpassed]
          exact hmore fuel (Nat.lt_of_succ_lt_succ hfuel)

end

end TiPI.Ext2
