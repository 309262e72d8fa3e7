import TiPI.Ext2.Path

/-!
# Listing a directory

Successive calls of `Inode::nextDirEntry`, and `Reader::printDir`.
-/

namespace TiPI.Ext2

/-! ### What is printed -/

def text (s : String) : List UInt8 := s.toList.map Char.toUInt8

def TYPE_MSG_MAP : List (Nat × String) :=
  [(0x6000, "b"), (0x2000, "c"), (0x4000, "d"), (0x8000, "-"), (0x1000, "f"), (0xC000, "s"),
    (0xA000, "l")]

/-- The bits that `permissionString` looks at, with the letter at their place. -/
def PERMISSIONS : List (Nat × String) :=
  [(0x040, "x"), (0x080, "w"), (0x100, "r"), (0x008, "x"), (0x010, "w"), (0x020, "r"),
    (0x001, "x"), (0x002, "w"), (0x004, "r"), (0x200, "s")]

def permissionString (ty : Int) : List UInt8 :=
  PERMISSIONS.flatMap fun p => text (if (ty % 2 ^ 16).toNat &&& p.1 = 0 then "-" else p.2)

namespace Inode

/-- What `printMeta` writes. -/
def metaText (ino : Inode) : List UInt8 :=
  match TYPE_MSG_MAP.lookup ino.t with
  | none => text "Undefined file type"
  | some tp => text tp ++ permissionString ino.type

variable (image : Image) (g : Globals)

/-- The first entries that `nextDirEntry` gives. -/
def nextDirEntries : Nat → Inode → Call (List DirEntry)
  | 0, _ => return []
  | n + 1, ino => do
    let (dir, ino') ← ino.nextDirEntry image g
    let dirs ← nextDirEntries n ino'
    return dir :: dirs

def printMeta (ino : Inode) : Call Unit := modify (World.write · ino.metaText)

/-- The result and the directory afterwards. -/
def printDirEntry (ino : Inode) : Call (Int × Inode) := do
  let (dire, ino') ← ino.nextDirEntry image g
  if dire.1 = 0 then
    return (0, ino')
  let entry ← Inode.fill image g dire.1
  entry.printMeta
  modify (World.write · (text " " ++ dire.2 ++ text "\n"))
  return (dire.1, ino')

end Inode

namespace Reader

variable (image : Image) (g : Globals)

/-- `while (inode.printDirEntry() != 0);` -/
def dirLoop : Nat → Inode → Call Unit
  | 0, _ => throw .unfinished
  | fuel + 1, ino => do
    let (res, ino') ← ino.printDirEntry image g
    if res ≠ 0 then dirLoop fuel ino' else return ()

def printDir (fuel : Nat) (inodeNum : Int) : Call Unit := do
  let ino ← Inode.fill image g inodeNum
  if ino.t ≠ DIR then
    throw (.failure ("File inode=" ++ toString inodeNum ++ " is not a directory"))
  dirLoop image g fuel ino

end Reader

/-! ### What a listing is -/

/-- The entries of the used records. -/
def entries (rs : List Record) : List DirEntry :=
  (rs.filter fun r => r.inode ≠ 0).map fun r => (r.inode, r.name)

/-- The first `n` entries: the given ones, and then default ones. -/
def expected (es : List DirEntry) (n : Nat) : List DirEntry :=
  (List.range n).map fun k => es.getD k (0, [])

/-- Successive calls of `nextDirEntry` give the entries, and then default ones. -/
def Yields (image : Image) (g : Globals) (ino : Inode) (w : World) (es : List DirEntry) : Prop :=
  ∀ n, ∃ w', (ino.nextDirEntries image g n).run w = .ok (expected es n) w'

/-- The line of a used record. -/
def Record.line (record : Nat → List UInt8) (r : Record) : List UInt8 :=
  (Inode.parse r.inode (record r.inode)).metaText ++ (text " " ++ r.name ++ text "\n")

/-- `printDir` ends, and writes a line for every used record. -/
def Prints (image : Image) (g : Globals) (record : Nat → List UInt8) (i : Nat) (w : World)
    (rs : List Record) : Prop :=
  ∃ m, ∀ fuel ≥ m, ∃ w', (Reader.printDir image g fuel i).run w = .ok () w' ∧
    w'.stdout = w.stdout ++ (rs.filter fun r => r.inode ≠ 0).flatMap (Record.line record)

/-- The records are read as they are, when `memory` is what lies behind the name buffers: names are
shorter than `128` bytes, inode numbers are not negative, the name read is the name (of an unused
record, the empty one), and no used record is behind an unused one. -/
def Plain (typed : Bool) : (Nat → List UInt8) → List Record → Prop
  | _, [] => True
  | memory, r :: rs =>
    r.name.length < 128 ∧ r.inode < 2 ^ 31 ∧
      cString (r.readName typed ++ memory 0) = (if r.inode = 0 then [] else r.name) ∧
      (r.inode = 0 → ∀ r' ∈ rs, r'.inode = 0) ∧ Plain typed (fun k => memory (k + 1)) rs

/-- Inode `i` is the directory, and the inodes of its used records can be read. -/
structure Holding (image : Image) (g : Globals) (b : Nat) (record : Nat → List UInt8) (i : Nat)
    (D : Dir) : Prop where
  blckSize : g.blckSize = b
  isBlockSize : IsBlockSize b
  inodeSize : 128 ≤ g.inodeSize
  inode : ∀ k, k = i ∨ k ≠ 0 ∧ (∃ r ∈ D.records, r.inode = k) →
    (Inode.record image g k).run {} = .ok (record k) {}
  type : typeOf (record i) = Reader.DIR
  dir : D.In image g.dirEntryType b (record i)
  blocks_le : D.blocks ≤ 12 + b / 4

/-- The blocks of the directory, and the block of its indirect pointers, are below 2 GiB, in blocks
of 64 KiB records are shorter than 32 KiB, and there is no block behind the last one. -/
structure Located (image : Image) (g : Globals) (b : Nat) (buff : List UInt8) (D : Dir) : Prop where
  below : ∀ j < D.blocks, D.address j * b + b ≤ 2 ^ 31
  single : 12 < D.blocks → word buff 88 * b < 2 ^ 31
  recLen : ∀ r ∈ D.records, r.recLen < 2 ^ 15 ∨ b ≤ 2 ^ 15
  ended : ∀ ino, Mapped image g b buff ino → ino.ind = D.blocks → ∀ w : World, ∃ errno,
    (catching (ino.nextBlock image g) 0).run w = .ok 0 { w with errno := errno }

variable {image : Image} {g : Globals} {b : Nat} {buff : List UInt8} {ino ino' : Inode}
  {w w' : World} {typed : Bool}

/-! ### Successive calls -/

lemma expected_succ (es : List DirEntry) (n : Nat) :
    expected es (n + 1) = es.headD (0, []) :: expected es.tail n := by
  rw [expected, List.range_succ_eq_map, List.map_cons, List.map_map]
  cases es with
  | nil => rfl
  | cons e es => rfl

/-- The first call gives the first entry, and the further ones give the others. -/
lemma yields_step {e : DirEntry} (h : (ino.nextDirEntry image g).run w = .ok (e, ino') w')
    (es : List DirEntry) :
    Yields image g ino w es ↔ e = es.headD (0, []) ∧ Yields image g ino' w' es.tail := by
  have hrun : ∀ n, (ino.nextDirEntries image g (n + 1)).run w =
      (ino'.nextDirEntries image g n >>= fun dirs => (return e :: dirs : Call _)).run w' := fun n =>
    by rw [Inode.nextDirEntries, EStateM.run_bind, h]
  constructor
  · intro hyields
    have hmore : ∀ n, ∃ v, (ino'.nextDirEntries image g n).run w' = .ok (expected es.tail n) v ∧
        e = es.headD (0, []) := by
      intro n
      obtain ⟨v, hn⟩ := hyields (n + 1)
      rw [hrun, expected_succ] at hn
      obtain ⟨dirs, u, hdirs, hcons⟩ := bind_ok hn
      obtain ⟨hlist, -⟩ := EStateM.Result.ok.inj hcons
      obtain ⟨hhead, htail⟩ := List.cons.inj hlist
      exact ⟨u, htail ▸ hdirs, hhead⟩
    obtain ⟨-, -, hhead⟩ := hmore 0
    refine ⟨hhead, fun n => ?_⟩
    obtain ⟨v, hn, -⟩ := hmore n
    exact ⟨v, hn⟩
  · rintro ⟨rfl, hyields⟩ n
    cases n with
    | zero => exact ⟨w, rfl⟩
    | succ n =>
      obtain ⟨v, hn⟩ := hyields n
      refine ⟨v, ?_⟩
      rw [hrun, expected_succ, EStateM.run_bind, hn]
      rfl

lemma not_yields_of_error {fault : Fault}
    (h : (ino.nextDirEntry image g).run w = .error fault w') (es : List DirEntry) :
    ¬ Yields image g ino w es := by
  intro hyields
  obtain ⟨v, hone⟩ := hyields 1
  rw [Inode.nextDirEntries, EStateM.run_bind, h] at hone
  cases hone

/-- Where no block is left, default entries come for ever. -/
lemma yields_nil (hend : ∀ w : World, ∃ errno,
      (catching (ino.nextBlock image g) 0).run w = .ok 0 { w with errno := errno }) :
    Yields image g ino w [] := by
  intro n
  induction n generalizing w with
  | zero => exact ⟨w, rfl⟩
  | succ n ih =>
    obtain ⟨errno, hnext⟩ := hend (w.search ino.inode)
    obtain ⟨v, hn⟩ := @ih { w.search ino.inode with errno := errno }
    refine ⟨v, ?_⟩
    rw [Inode.nextDirEntries, EStateM.run_bind, run_nextDirEntry_end hnext]
    simp only [EStateM.run_bind, hn]
    rw [expected_succ]
    rfl

/-! ### The records of a directory -/

lemma entries_used {r : Record} (hr : r.inode ≠ 0) (rs : List Record) :
    entries (r :: rs) = ((r.inode : Int), r.name) :: entries rs := by
  simp [entries, hr]

lemma entries_unused {r : Record} (hr : r.inode = 0) (rs : List Record) :
    entries (r :: rs) = entries rs := by
  simp [entries, hr]

lemma entries_eq_nil {rs : List Record} : entries rs = [] ↔ ∀ r ∈ rs, r.inode = 0 := by
  simp [entries]

/-- The first used record is not the default entry. -/
lemma headD_entries (rs : List Record) (name : Name) :
    (0, name) = (entries rs).headD (0, []) ↔ name = [] ∧ entries rs = [] := by
  constructor
  · intro hhead
    cases hes : entries rs with
    | nil =>
      rw [hes] at hhead
      exact ⟨(Prod.mk.inj hhead).2, rfl⟩
    | cons e es =>
      have hmem : e ∈ entries rs := by
        rw [hes]
        exact List.mem_cons_self ..
      obtain ⟨r, hr, rfl⟩ := List.mem_map.1 hmem
      have hne : r.inode ≠ 0 := by simpa using (List.mem_filter.1 hr).2
      rw [hes] at hhead
      exact absurd (Int.natCast_eq_zero.1 (Prod.mk.inj hhead).1.symm) hne
  · rintro ⟨rfl, hes⟩
    rw [hes]
    rfl

lemma int32_eq_self {n : Nat} (h : n < 2 ^ 32) : int32 n = n ↔ n < 2 ^ 31 := by
  unfold int32
  rw [Int.bmod_eq_iff (by decide)]
  omega

/-! ### The loop of `printDir` -/

lemma run_printDirEntry_zero {name : Name}
    (h : (ino.nextDirEntry image g).run w = .ok ((0, name), ino') w') :
    (ino.printDirEntry image g).run w = .ok (0, ino') w' := by
  rw [Inode.printDirEntry, EStateM.run_bind, h]
  rfl

lemma run_printDirEntry_used {name : Name} {k : Nat} {e : Inode}
    (h : (ino.nextDirEntry image g).run w = .ok ((k, name), ino') w') (hk : k ≠ 0)
    (hfill : (Inode.fill image g k).run w' = .ok e w') :
    (ino.printDirEntry image g).run w =
      .ok (k, ino') (w'.write (e.metaText ++ (text " " ++ name ++ text "\n"))) := by
  have hne : (k : Int) ≠ 0 := Int.natCast_ne_zero.2 hk
  rw [Inode.printDirEntry, EStateM.run_bind, h]
  simp only [if_neg hne, EStateM.run_bind, hfill]
  rw [← World.write_write]
  rfl

lemma run_dirLoop_last (h : (ino.printDirEntry image g).run w = .ok (0, ino') w') {fuel : Nat}
    (hfuel : 0 < fuel) : (Reader.dirLoop image g fuel ino).run w = .ok () w' := by
  obtain ⟨fuel, rfl⟩ := Nat.exists_eq_add_one_of_ne_zero (Nat.ne_of_gt hfuel)
  rw [Reader.dirLoop, EStateM.run_bind, h]
  rfl

lemma run_dirLoop_next {i : Int} (h : (ino.printDirEntry image g).run w = .ok (i, ino') w')
    (hi : i ≠ 0) (fuel : Nat) : (Reader.dirLoop image g (fuel + 1) ino).run w =
      (Reader.dirLoop image g fuel ino').run w' := by
  rw [Reader.dirLoop, EStateM.run_bind, h]
  simp only [if_pos hi]

section

variable {D : Dir} (hD : D.In image g.dirEntryType b buff) (hlocated : Located image g b buff D)
  (hblocks : D.blocks ≤ 12 + b / 4)

include hD hlocated hblocks

lemma seated_of_located (h : Mapped image g b buff ino) (hblock : ino.ind < D.blocks) :
    Seated image g b buff ino (D.address ino.ind * b) :=
  hD.seated h hblock (Nat.lt_of_lt_of_le hblock hblocks) (hlocated.below _ hblock) fun h12 =>
    hlocated.single (Nat.lt_of_le_of_lt h12 hblock)

/-- The calls give the used records exactly when the records are read as they are. -/
lemma yields_iff (rs : List Record) : ∀ (ino : Inode) (w : World), rs ⊆ D.records →
    Mapped image g b buff ino → w.errno = 0 →
    D.Tiled image g.dirEntryType b ino.ind ino.direI rs →
    (Yields image g ino w (entries rs) ↔ Plain g.dirEntryType w.behind rs) := by
  induction rs with
  | nil =>
    intro ino w _ hmapped _ htiled
    exact iff_of_true (yields_nil (hlocated.ended ino hmapped htiled.1)) trivial
  | cons r rs ih =>
    intro ino w hsub hmapped herrno htiled
    obtain ⟨hblock, hat, hfit, htiled⟩ := htiled
    obtain ⟨hr, hrs⟩ := List.cons_subset.1 hsub
    have hseated := seated_of_located hD hlocated hblocks hmapped hblock
    have hword : r.inode < 2 ^ 32 := hat.inode ▸ word_lt _ _
    rw [Plain]
    by_cases hlong : 128 ≤ r.name.length
    · have herror := hseated.run_nextDirEntry_long hat hfit hlong herrno
      exact iff_of_false (not_yields_of_error herror _) fun hplain =>
        Nat.not_lt.2 hlong hplain.1
    have hshort := Nat.not_le.1 hlong
    have hrun := hseated.run_nextDirEntry_short hat hfit hshort (hlocated.recLen r hr) herrno
    have hmore := ih (ino.pass b r.recLen) (w.enter ino.inode) hrs (hmapped.pass r.recLen) herrno
      htiled
    rw [yields_step hrun]
    by_cases hunused : r.inode = 0
    · have hzero : int32 (0 : Nat) = 0 := rfl
      rw [entries_unused hunused, hunused, hzero, headD_entries, if_pos rfl]
      constructor
      · rintro ⟨⟨hname, hnone⟩, hyields⟩
        rw [hnone, List.tail_nil, ← hnone] at hyields
        exact ⟨hshort, by decide, hname, fun _ => entries_eq_nil.1 hnone, hmore.1 hyields⟩
      · rintro ⟨-, -, hname, hnone, hplain⟩
        have hes := entries_eq_nil.2 (hnone rfl)
        refine ⟨⟨hname, hes⟩, ?_⟩
        rw [hes, List.tail_nil, ← hes]
        exact hmore.2 hplain
    · rw [entries_used hunused, List.headD_cons, List.tail_cons, Prod.mk.injEq,
        int32_eq_self hword, if_neg hunused]
      constructor
      · rintro ⟨⟨hinode, hname⟩, hyields⟩
        exact ⟨hshort, hinode, hname, fun h0 => absurd h0 hunused, hmore.1 hyields⟩
      · rintro ⟨-, hinode, hname, -, hplain⟩
        exact ⟨⟨hinode, hname⟩, hmore.2 hplain⟩

/-- Records that are read as they are get their lines, up to the first unused one. -/
lemma run_dirLoop {record : Nat → List UInt8} (hsize : 128 ≤ g.inodeSize)
    (hinode : ∀ k, k ≠ 0 → (∃ r ∈ D.records, r.inode = k) →
      (Inode.record image g k).run {} = .ok (record k) {}) (rs : List Record) :
    ∀ (ino : Inode) (w : World), rs ⊆ D.records → Mapped image g b buff ino → w.errno = 0 →
      D.Tiled image g.dirEntryType b ino.ind ino.direI rs → Plain g.dirEntryType w.behind rs →
      ∃ w', (∀ fuel, rs.length < fuel → (Reader.dirLoop image g fuel ino).run w = .ok () w') ∧
        w'.stdout = w.stdout ++ (rs.filter fun r => r.inode ≠ 0).flatMap (Record.line record) := by
  induction rs with
  | nil =>
    intro ino w _ hmapped _ htiled _
    obtain ⟨errno, hnext⟩ := hlocated.ended ino hmapped htiled.1 (w.search ino.inode)
    have hentry := run_printDirEntry_zero (run_nextDirEntry_end hnext)
    exact ⟨{ w.search ino.inode with errno := errno }, fun fuel => run_dirLoop_last hentry,
      (List.append_nil _).symm⟩
  | cons r rs ih =>
    intro ino w hsub hmapped herrno htiled hplain
    obtain ⟨hblock, hat, hfit, htiled⟩ := htiled
    obtain ⟨hr, hrs⟩ := List.cons_subset.1 hsub
    have hseated := seated_of_located hD hlocated hblocks hmapped hblock
    obtain ⟨hshort, hnumber, hname, hnone, hplain⟩ := hplain
    have hrun := hseated.run_nextDirEntry_short hat hfit hshort (hlocated.recLen r hr) herrno
    rw [int32_of_lt hnumber, hname] at hrun
    by_cases hunused : r.inode = 0
    · -- the loop takes the unused record for the end
      rw [hunused] at hrun
      have hentry := run_printDirEntry_zero hrun
      have hfilter : (r :: rs).filter (fun r => r.inode ≠ 0) = [] := by
        simpa [hunused] using hnone hunused
      refine ⟨w.enter ino.inode, fun fuel hfuel => ?_, ?_⟩
      · exact run_dirLoop_last hentry (Nat.zero_lt_of_lt hfuel)
      · rw [hfilter, List.flatMap_nil, List.append_nil]
        rfl
    · have hfound := hinode r.inode hunused ⟨r, hr, rfl⟩
      have hlen := (Inode.record_ok hfound).2
      have hfill := Inode.run_fill ((Steady.reads.record image g r.inode _ _ _ rfl hfound).2
        (w.enter ino.inode) herrno) (by omega)
      rw [if_neg hunused] at hrun
      have hentry := run_printDirEntry_used hrun hunused hfill
      obtain ⟨w', hloop, hstdout⟩ := ih (ino.pass b r.recLen)
        ((w.enter ino.inode).write (r.line record)) hrs (hmapped.pass r.recLen) herrno htiled hplain
      refine ⟨w', fun fuel hfuel => ?_, ?_⟩
      · obtain ⟨fuel, rfl⟩ := Nat.exists_eq_add_one_of_ne_zero (Nat.ne_zero_of_lt hfuel)
        rw [run_dirLoop_next hentry (Int.natCast_ne_zero.2 hunused)]
        exact hloop fuel (Nat.lt_of_succ_lt_succ hfuel)
      · have hfilter : (r :: rs).filter (fun r => r.inode ≠ 0) =
            r :: rs.filter fun r => r.inode ≠ 0 := by simp [hunused]
        rw [hfilter, List.flatMap_cons, hstdout, ← List.append_assoc]
        rfl

end

/-- A directory of a tree that the image holds. -/
lemma WellFormed.holding {record : Nat → List UInt8} {tree : Tree} {i : Nat} {D : Dir}
    (h : WellFormed image g b record tree) (hi : tree.Used i) (hD : tree i = some D)
    (hblocks : D.blocks ≤ 12 + b / 4) : Holding image g b record i D where
  blckSize := h.blckSize
  isBlockSize := h.isBlockSize
  inodeSize := h.inodeSize
  inode k hk := by
    rcases hk with rfl | ⟨hne, hused⟩
    · exact h.inode k hi
    · exact h.inode k (.inr ⟨hne, i, D, hD, hused⟩)
  type := (h.type i hi).2 (by rw [hD]; rfl)
  dir := h.dir i D hi hD
  blocks_le := hblocks

/-- A zero pointer behind the last block ends the directory. -/
lemma ended_of_pointer {D : Dir} (hsize : fileSize buff = D.blocks * b) (hdirect : D.blocks < 12)
    (hzero : pointer image b buff D.blocks = 0) (h : Mapped image g b buff ino)
    (hind : ino.ind = D.blocks) (w : World) :
    ∃ errno, (catching (ino.nextBlock image g) 0).run w = .ok 0 { w with errno := errno } := by
  have hend := not_past_end h.blckSize h.size h.size_lt (by rw [hind, hsize])
  have hnext : (ino.nextBlock image g).run w = .ok 0 w := by
    rw [run_nextBlock_direct hend (hind ▸ hdirect), h.directBlock, ← hzero, pointer,
      if_pos hdirect]
    simp only [hind]
  exact ⟨w.errno, run_catching hnext⟩

section

variable {record : Nat → List UInt8} {i : Nat} {D : Dir}

/-- Every call of `nextDirEntry` gives its used record, and `printDir` lists the used records. -/
def Listed (image : Image) (g : Globals) (record : Nat → List UInt8) (i : Nat) (w : World)
    (rs : List Record) : Prop :=
  (∃ ino, (Inode.fill image g i).run w = .ok ino w ∧ Yields image g ino w (entries rs)) ∧
    Prints image g record i w rs

namespace Holding

variable (h : Holding image g b record i D) (herrno : w.errno = 0)

include h herrno

lemma run_fill {k : Nat} (hk : k = i ∨ k ≠ 0 ∧ (∃ r ∈ D.records, r.inode = k)) :
    (Inode.fill image g k).run w = .ok (Inode.parse k (record k)) w := by
  have hfound := h.inode k hk
  have hlen := (Inode.record_ok hfound).2
  have hsize := h.inodeSize
  exact Inode.run_fill ((Steady.reads.record image g k _ _ _ rfl hfound).2 w herrno) (by omega)

lemma listed_iff (hlocated : Located image g b (record i) D) :
    Listed image g record i w D.records ↔ Plain g.dirEntryType w.behind D.records := by
  obtain ⟨h4, hlo, hhi⟩ := h.isBlockSize.quarters
  have hfill := h.run_fill herrno (.inl rfl)
  have hlt : fileSize (record i) < 2 ^ 31 := h.dir.size ▸ h.isBlockSize.mul_lt h.blocks_le
  have hmapped : Mapped image g b (record i) (Inode.parse i (record i)) :=
    .parse i h.blckSize h.isBlockSize hlt
  have hstart : (Inode.parse i (record i)).ind = 0 ∧ (Inode.parse i (record i)).direI = 0 := by
    simp only [Inode.parse, and_self]
  have htiled : D.Tiled image g.dirEntryType b (Inode.parse i (record i)).ind
      (Inode.parse i (record i)).direI D.records := by
    rw [hstart.1, hstart.2]
    exact h.dir.tiled
  have hyields := yields_iff h.dir hlocated h.blocks_le D.records (Inode.parse i (record i)) w
    (List.Subset.refl _) hmapped herrno htiled
  constructor
  · rintro ⟨⟨ino, hino, hgiven⟩, -⟩
    rw [hfill] at hino
    cases hino
    exact hyields.1 hgiven
  · intro hplain
    refine ⟨⟨_, hfill, hyields.2 hplain⟩, ?_⟩
    obtain ⟨w', hloop, hstdout⟩ := run_dirLoop h.dir hlocated h.blocks_le h.inodeSize
      (fun k hk hr => h.inode k (.inr ⟨hk, hr⟩)) D.records (Inode.parse i (record i)) w
      (List.Subset.refl _) hmapped herrno htiled hplain
    refine ⟨D.records.length + 1, fun fuel hfuel => ⟨w', ?_, hstdout⟩⟩
    have htype : ¬ (Inode.parse i (record i)).t ≠ Reader.DIR := by
      rw [t_parse, h.type]
      exact not_not.2 rfl
    rw [Reader.printDir, EStateM.run_bind, hfill]
    simp only [if_neg htype]
    exact hloop fuel hfuel

end Holding

end

/-- With file types every record is to be used, and a NUL has to follow every buffer. -/
lemma plain_typed {rs : List Record} (hname : ∀ r ∈ rs, r.name ≠ [] ∧ 0 ∉ r.name)
    (memory : Nat → List UInt8) :
    Plain true memory rs ↔ (∀ r ∈ rs, r.inode ≠ 0 ∧ r.inode < 2 ^ 31 ∧ r.name.length < 128) ∧
      ∀ k < rs.length, cString (memory k) = [] := by
  induction rs generalizing memory with
  | nil => simp [Plain]
  | cons r rs ih =>
    obtain ⟨⟨hne, hnul⟩, hrs⟩ := List.forall_mem_cons.1 hname
    have hread : cString (r.readName true ++ memory 0) = r.name ↔ cString (memory 0) = [] := by
      have htyped : r.readName true = r.name := rfl
      rw [htyped, cString_append hnul, List.append_right_eq_self]
    have hsplit : (∀ k < rs.length + 1, cString (memory k) = []) ↔
        cString (memory 0) = [] ∧ ∀ k < rs.length, cString (memory (k + 1)) = [] :=
      Nat.forall_lt_succ_left
    rw [Plain, ih hrs, List.forall_mem_cons, List.length_cons, hsplit]
    by_cases hunused : r.inode = 0
    · -- the name of an unused record is read, too
      refine iff_of_false (fun hplain => hne ?_) fun hall => hall.1.1.1 hunused
      have hnil := hplain.2.2.1
      rw [if_pos hunused] at hnil
      exact (List.append_eq_nil_iff.1 ((cString_append hnul (memory 0)).symm.trans hnil)).1
    · rw [if_neg hunused, hread]
      constructor
      · rintro ⟨hshort, hnumber, hnul, -, hall, hmemory⟩
        exact ⟨⟨⟨hunused, hnumber, hshort⟩, hall⟩, hnul, hmemory⟩
      · rintro ⟨⟨⟨-, hnumber, hshort⟩, hall⟩, hnul, hmemory⟩
        exact ⟨hshort, hnumber, hnul, fun h0 => absurd h0 hunused, hall, hmemory⟩

/-- A directory is listed exactly when its records are read as they are. -/
theorem directory_listed_iff {record : Nat → List UInt8} {i : Nat} {D : Dir}
    (h : Holding image g b record i D) (hlocated : Located image g b (record i) D)
    (herrno : w.errno = 0) :
    Listed image g record i w D.records ↔ Plain g.dirEntryType w.behind D.records :=
  h.listed_iff herrno hlocated

/-! ### Two small directories -/

lemma RootFacts.holding {rs : List Record} (h : RootFacts rs) :
    Holding (rootImage rs) oneGroup 1024 (rootRecord rs) 2 (rootDir rs) :=
  h.wellFormed.holding (.inl rfl) rfl (by decide : 1 ≤ 12 + 1024 / 4)

lemma RootFacts.located {rs : List Record} (h : RootFacts rs) :
    Located (rootImage rs) oneGroup 1024 (rootRecord rs 2) (rootDir rs) := by
  refine ⟨fun _ _ => ?_, fun h12 => ?_, fun _ _ => .inr (by decide), fun ino hmapped hind w => ?_⟩
  · exact (by decide : 5 * 1024 + 1024 ≤ 2 ^ 31)
  · exact absurd h12 (by decide : ¬ 12 < 1)
  · have hdir := h.wellFormed.dir 2 (rootDir rs) (.inl rfl) rfl
    exact ended_of_pointer hdir.size (by decide : 1 < 12) h.behind hmapped hind w

theorem withFile_listed :
    Listed (rootImage withFile) oneGroup (rootRecord withFile) 2 {} withFile :=
  (directory_listed_iff withFile_facts.holding withFile_facts.located rfl).2
    ((plain_typed (by decide) _).2 ⟨by decide, fun _ _ => rfl⟩)

/-- The record of a deleted file is given like a used one, and ends the list that is printed. -/
theorem withDeleted_not_listed :
    Holding (rootImage withDeleted) oneGroup 1024 (rootRecord withDeleted) 2
        (rootDir withDeleted) ∧
      Located (rootImage withDeleted) oneGroup 1024 (rootRecord withDeleted 2)
        (rootDir withDeleted) ∧
      ¬ Listed (rootImage withDeleted) oneGroup (rootRecord withDeleted) 2 {} withDeleted := by
  refine ⟨withDeleted_facts.holding, withDeleted_facts.located, fun hlisted => ?_⟩
  have hplain : Plain true (fun _ => []) withDeleted :=
    (withDeleted_facts.holding.listed_iff rfl withDeleted_facts.located).1 hlisted
  have hused := ((plain_typed (by decide) _).1 hplain).1 ⟨0, 12, [120]⟩ (by decide)
  exact hused.1 rfl

end TiPI.Ext2
