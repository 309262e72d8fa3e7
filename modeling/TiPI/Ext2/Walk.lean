import TiPI.Ext2.Effects
import TiPI.Ext2.Blocks
import TiPI.Lib.Orbit
import Mathlib.Algebra.Order.BigOperators.Group.List
import Mathlib.Algebra.Order.Ring.Int
import Mathlib.Data.Finite.Prod
import Mathlib.Data.Prod.Lex
import Mathlib.Order.Interval.Finset.Nat

/-!
# Directories in the image

The addresses of blocks, the inodes and the records of a directory as the bytes of the image have
them, and the walk along the record lengths. In a world without an error the calls of the reader do
what these say.
-/

namespace TiPI.Ext2

variable {α β : Type}

/-- Why something is not to be had from an image. -/
inductive Gap
  /-- it is not there -/
  | missing
  /-- it would lie before the image -/
  | before
  /-- it lies outside of an array -/
  | outside
  deriving DecidableEq

/-- What an image has, or why it does not. -/
abbrev Look := Except Gap

namespace Look

def array (n : Int) : Look Unit := if n < 0 then .error .missing else .ok ()

/-- The word at byte `i` of an array. -/
def word (buff : List UInt8) (i : Nat) : Look Int :=
  if i + 4 ≤ buff.length then .ok (int32 (Ext2.word buff i)) else .error .outside

end Look

/-- All of `count` bytes from `offset` on. -/
def Image.look (image : Image) (count offset : Int) : Look (List UInt8) :=
  let there := min (sizeT count) (image.length - offset.toNat)
  if offset < 0 then .error .before
  else if there = count then .ok (image.bytes offset.toNat there)
  else .error .missing

/-- What is read at a record: the eight bytes before the name, the name, and the inode behind it. -/
structure Reading where
  head : List UInt8
  name : Name
  next : Inode

namespace Reading

/-- The inode number of the record, and its signed length. -/
def number (r : Reading) : Int := int32 (word r.head 0)

def recLen (r : Reading) : Int := int16 (half r.head 4)

lemma recLen_bounds (r : Reading) : -2 ^ 15 ≤ r.recLen ∧ r.recLen < 2 ^ 15 := by
  unfold recLen int16
  have hge := @Int.le_bmod (half r.head 4) (2 ^ 16) (by decide)
  have hlt := @Int.bmod_lt (half r.head 4) (2 ^ 16) (by decide)
  omega

end Reading

namespace Inode

variable (image : Image) (g : Globals)

/-- The bytes of the record of an inode. -/
def recordBytes (inode : Int) : Look (List UInt8) := do
  if g.inodePerGroup = 0 then throw .outside
  let blckGrp := int32 ((int32 (inode - 1)).tdiv g.inodePerGroup)
  let inodeInd := (int32 (inode - 1)).tmod g.inodePerGroup
  Look.array g.bgdtSize
  let bgdt ← image.look g.bgdtSize 2048
  let inodeTableBlck ← Look.word bgdt (sizeT (int32 (32 * blckGrp) + 8))
  Look.array g.inodeSize
  image.look g.inodeSize
    (int32 (int32 (inodeTableBlck * g.blckSize) + int32 (inodeInd * g.inodeSize)))

/-- The inode with a number. -/
def numbered (inode : Int) : Look Inode := do
  let buff ← recordBytes image g inode
  if buff.length < 112 then throw .outside
  return parse inode buff

/-- A block of pointers. -/
def pointers (block : Int) : Look (List UInt8) := do
  Look.array (g.blckSize.tdiv 4)
  image.look g.blckSize (int32 (block * g.blckSize))

/-- The address of the block at which the inode stands, `0` where there is none. -/
def address (ino : Inode) : Look Int := do
  if sizeT ino.size < sizeT (ino.ind * g.blckSize) then
    return 0
  if h : ino.ind < 12 then
    return ino.directBlock ⟨ino.ind, h⟩
  if ino.ind < sizeT (int32 (12 + g.blckSize.tdiv 4)) then
    let layer1 ← pointers image g ino.singlyIbp
    Look.word layer1 (4 * (ino.ind - 12))
  else if ino.ind < sizeT (int32 (12 + (int32 ((g.blckSize.tdiv 4 + 1) * g.blckSize)).tdiv 4)) then
    let layer1 ← pointers image g ino.doublyIbp
    let ind := sizeT (ino.ind - 12 - g.bgdtSize.tdiv 4)
    let ptr ← Look.word layer1 (4 * (ind / sizeT (g.blckSize.tdiv 4)))
    let layer2 ← pointers image g ptr
    Look.word layer2 (4 * (ind % sizeT (g.blckSize.tdiv 4)))
  else
    return 0

/-- The eight bytes before a name; they may go on in the next block. -/
def headAt (ino : Inode) (block : Int) : Look (List UInt8 × Inode) := do
  let left := sizeT (g.blckSize - ino.direI)
  if left < 8 then
    let head ← image.look left (offT (ino.direI + int32 (block * g.blckSize)))
    let ino' := { ino with ind := ino.ind + 1 }
    let block' ← address image g ino'
    if block' = 0 then throw .missing
    let tail ← image.look (8 - left) (int32 (block' * g.blckSize))
    return (head ++ tail, ino')
  else
    let buff ← image.look 8 (offT (ino.direI + int32 (block * g.blckSize)))
    return (buff, ino)

/-- The bytes of a name; each round is over one block. -/
def nameAt : Nat → Inode → Bool → Nat → Name → Look (Name × Inode)
  | _, ino, _, 0, name => return (name, ino)
  | 0, _, _, _ + 1, _ => throw .missing
  | rounds + 1, ino, first, toRead + 1, name => do
    let block ← address image g ino
    if block = 0 then throw .missing
    let count := min (toRead + 1) (sizeT g.blckSize)
    let offset :=
      if first then int32 (ino.direI + int32 (block * g.blckSize) + 8)
      else int32 (block * g.blckSize)
    let bytes ← image.look count offset
    let left := toRead + 1 - count
    let ino' := if left = 0 then ino else { ino with ind := ino.ind + 1 }
    nameAt rounds ino' false left (name ++ bytes)

/-- The inode behind a record: a length that leaves the block, backwards too, leads to the next. -/
def behind (ino : Inode) (recLen : Int) : Inode :=
  let place := sizeT (ino.direI + recLen)
  { ino with
    ind := if place / sizeT g.blckSize = 0 then ino.ind else ino.ind + 1
    direI := place % sizeT g.blckSize }

/-- The record in a block. -/
def recordAt (ino : Inode) (block : Int) : Look Reading := do
  let (head, ino) ← headAt image g ino block
  let len := nameLength g head
  Look.array len
  let (name, ino) ← nameAt image g len.toNat ino true len.toNat []
  return ⟨head, name, ino.behind g (int16 (half head 4))⟩

/-- The record at which the inode stands; nothing where it cannot be read. -/
def standing (ino : Inode) : Option Reading :=
  match address image g ino with
  | .ok block => if block = 0 then none else (recordAt image g ino block).toOption
  | .error _ => none

/-- The record behind, unless the loop stops at this one. -/
def onward (goesOn : Int → Bool) (ino : Inode) : Option Inode :=
  (standing image g ino).bind fun r =>
    if r.number ≠ 0 ∧ goesOn r.number then some r.next else none

end Inode

/-! ### What the calls do -/

/-- In a world without an error, the call does what there is in the image. -/
def Shows (x : Call α) : Look α → Prop
  | .ok a => ∀ w : World, w.errno = 0 → x.run w = .ok a w
  | .error .missing => ∀ w : World, w.errno = 0 → ∃ what, x.run w = .error (.failure what) w
  | .error .before => ∀ w : World, w.errno = 0 →
    ∃ what, x.run w = .error (.failure what) { w with errno := EINVAL }
  | .error .outside => ∀ w : World, w.errno = 0 → x.run w = .error .undefined w

namespace Shows

lemma pure (a : α) : Shows (pure a : Call α) (pure a) := fun _ _ => rfl

lemma failure (what : String) : Shows (throw (.failure what) : Call α) (throw .missing) :=
  fun _ _ => ⟨what, rfl⟩

lemma undefined : Shows (throw .undefined : Call α) (throw .outside) := fun _ _ => rfl

lemma bind {x : Call α} {y : Look α} {f : α → Call β} {h : α → Look β} (hx : Shows x y)
    (hf : ∀ a, Shows (f a) (h a)) : Shows (x >>= f) (y >>= h) := by
  have herror (fault : Fault) {w v : World} (hrun : x.run w = .error fault v) :
      (x >>= f).run w = .error fault v := by
    rw [EStateM.run_bind, hrun]
  cases y with
  | ok a =>
    have hrun {w : World} (hw : w.errno = 0) : (x >>= f).run w = (f a).run w := by
      rw [EStateM.run_bind, hx w hw]
    have hrest := hf a
    change Shows (x >>= f) (h a)
    unfold Shows at hrest ⊢
    split at hrest <;> intro w hw <;> rw [hrun hw] <;> exact hrest w hw
  | error gap =>
    cases gap with
    | missing =>
      intro w hw
      obtain ⟨what, hrun⟩ := hx w hw
      exact ⟨what, herror _ hrun⟩
    | before =>
      intro w hw
      obtain ⟨what, hrun⟩ := hx w hw
      exact ⟨what, herror _ hrun⟩
    | outside => exact fun w hw => herror _ (hx w hw)

lemma ite {c : Prop} [Decidable c] {x x' : Call α} {y y' : Look α} (hx : Shows x y)
    (hx' : Shows x' y') : Shows (if c then x else x') (if c then y else y') := by
  split
  · exact hx
  · exact hx'

lemma newArray (n : Int) : Shows (newArray n) (Look.array n) := ite (failure _) (pure ())

lemma load32 (buff : List UInt8) (i : Nat) : Shows (load32 buff i) (Look.word buff i) :=
  ite (pure _) undefined

lemma preadAll (image : Image) (what : String) (count offset : Int) :
    Shows (preadAll image what count offset) (image.look count offset) := by
  unfold Image.look
  dsimp only
  split
  · next hneg =>
    intro w hw
    refine ⟨"Something went wrong with " ++ what, ?_⟩
    rw [Steady.run_preadAll_of_errno _ _ _ _ hw, if_pos hneg]
  · next hneg =>
    split
    · next hall =>
      intro w hw
      rw [Steady.run_preadAll_of_errno _ _ _ _ hw, if_neg hneg, if_pos hall]
    · next hall =>
      intro w hw
      refine ⟨"Something went wrong with " ++ what, ?_⟩
      rw [Steady.run_preadAll_of_errno _ _ _ _ hw, if_neg hneg, if_neg hall]

variable (image : Image) (g : Globals)

lemma record (inode : Int) :
    Shows (Inode.record image g inode) (Inode.recordBytes image g inode) := by
  refine ite (bind undefined fun _ => ?_) ?_ <;>
  · refine bind (newArray _) fun _ => bind (preadAll _ _ _ _) fun _ => ?_
    exact bind (load32 _ _) fun _ => bind (newArray _) fun _ => preadAll _ _ _ _

lemma fill (inode : Int) : Shows (Inode.fill image g inode) (Inode.numbered image g inode) :=
  bind (record image g inode) fun _ => ite (bind undefined fun _ => pure _) (pure _)

lemma layer (what : String) (block : Int) :
    Shows (Inode.layer image g what block) (Inode.pointers image g block) :=
  bind (newArray _) fun _ => preadAll _ _ _ _

lemma nextBlock (ino : Inode) : Shows (ino.nextBlock image g) (ino.address image g) := by
  unfold Inode.nextBlock Inode.address
  refine ite (pure _) ?_
  split
  · exact pure _
  · refine ite (bind (layer image g _ _) fun _ => load32 _ _) (ite ?_ (pure _))
    refine bind (layer image g _ _) fun _ => bind (load32 _ _) fun _ => ?_
    exact bind (layer image g _ _) fun _ => load32 _ _

lemma entryHead (ino : Inode) (block : Int) :
    Shows (ino.entryHead image g block) (ino.headAt image g block) := by
  refine ite ?_ (bind (preadAll _ _ _ _) fun _ => pure _)
  refine bind (preadAll _ _ _ _) fun _ => bind (nextBlock image g _) fun _ => ?_
  refine ite (bind (failure _) fun _ => ?_) ?_ <;>
  exact bind (preadAll _ _ _ _) fun _ => pure _

/-- Every round reads a byte of the name at least. -/
lemma nameLoop (hpos : 0 < g.blckSize) (hlt : g.blckSize < 2 ^ 31) {fuel rounds : Nat} {ino : Inode}
    {first : Bool} {toRead : Nat} {name : Name} (hfuel : toRead ≤ fuel)
    (hrounds : toRead ≤ rounds) :
    Shows (ino.nameLoop image g fuel first toRead name)
      (ino.nameAt image g rounds first toRead name) := by
  induction fuel generalizing rounds ino first toRead name with
  | zero =>
    obtain rfl := Nat.le_zero.1 hfuel
    cases rounds <;> exact pure _
  | succ fuel ih =>
    cases toRead with
    | zero => cases rounds <;> exact pure _
    | succ n =>
      obtain ⟨rounds, rfl⟩ := Nat.exists_eq_add_of_le' (Nat.le_trans (Nat.succ_pos n) hrounds)
      have hblock : 1 ≤ sizeT g.blckSize := by
        unfold sizeT
        omega
      refine bind (nextBlock image g ino) fun _ => ?_
      refine ite (bind (failure _) fun _ => ?_) ?_ <;>
      exact bind (preadAll _ _ _ _) fun _ => ih (by omega) (by omega)

end Shows

/-! ### Where a record leads -/

section

variable {image : Image} {g : Globals} {ino ino' : Inode} {block : Int} {r : Reading}

lemma Look.bind_ok {x : Look α} {f : α → Look β} {b : β} (h : (x >>= f) = .ok b) :
    ∃ a, x = .ok a ∧ f a = .ok b := by
  cases x with
  | ok a => exact ⟨a, rfl, h⟩
  | error gap => cases h

lemma Look.guard_ok {c : Prop} [Decidable c] {gap : Gap} {rest : Unit → Look β} {b : β}
    (h : (if c then throw gap >>= rest else rest ()) = .ok b) : ¬ c ∧ rest () = .ok b := by
  split at h
  · cases h
  · next hc => exact ⟨hc, h⟩

lemma sizeT_lt (x : Int) : sizeT x < 2 ^ 64 := by
  unfold sizeT
  omega

/-- There are blocks for finitely many indices. -/
lemma ind_lt_of_address (h : ino.address image g = .ok block) (hne : block ≠ 0) :
    ino.ind < 2 ^ 64 := by
  unfold Inode.address at h
  split at h
  · cases h
    exact absurd rfl hne
  · split at h
    · next hdirect => exact Nat.lt_trans hdirect (by decide)
    · split at h
      · next hsingle => exact Nat.lt_trans hsingle (sizeT_lt _)
      · split at h
        · next hdouble => exact Nat.lt_trans hdouble (sizeT_lt _)
        · cases h
          exact absurd rfl hne

/-- The inode goes on to later blocks only. -/
lemma headAt_seek {head : List UInt8} (h : ino.headAt image g block = .ok (head, ino')) :
    ∃ i ≥ ino.ind, ino' = ino.seek i := by
  unfold Inode.headAt at h
  dsimp only at h
  split at h
  · obtain ⟨front, -, h⟩ := Look.bind_ok h
    obtain ⟨block', -, h⟩ := Look.bind_ok h
    obtain ⟨-, h⟩ := Look.guard_ok h
    obtain ⟨back, -, h⟩ := Look.bind_ok h
    cases h
    exact ⟨ino.ind + 1, Nat.le_succ _, rfl⟩
  · obtain ⟨buff, -, h⟩ := Look.bind_ok h
    cases h
    exact ⟨_, Nat.le.refl, rfl⟩

lemma nameAt_seek {rounds toRead : Nat} {first : Bool} {name name' : Name}
    (h : ino.nameAt image g rounds first toRead name = .ok (name', ino')) :
    ∃ i ≥ ino.ind, ino' = ino.seek i := by
  induction rounds generalizing ino first toRead name with
  | zero =>
    cases toRead with
    | zero =>
      cases h
      exact ⟨_, Nat.le.refl, rfl⟩
    | succ n => cases h
  | succ rounds ih =>
    cases toRead with
    | zero =>
      cases h
      exact ⟨_, Nat.le.refl, rfl⟩
    | succ n =>
      obtain ⟨block, -, h⟩ := Look.bind_ok h
      obtain ⟨-, h⟩ := Look.guard_ok h
      obtain ⟨bytes, -, h⟩ := Look.bind_ok h
      obtain ⟨i, hi, hp⟩ := ih h
      split at hi <;> split at hp
      · exact ⟨i, hi, hp⟩
      · contradiction
      · contradiction
      · exact ⟨i, Nat.le_of_succ_le hi, hp⟩

lemma recordAt_next (h : ino.recordAt image g block = .ok r) :
    ∃ i ≥ ino.ind, r.next = (ino.seek i).behind g r.recLen := by
  obtain ⟨⟨head, ino₁⟩, hhead, h⟩ := Look.bind_ok h
  obtain ⟨_, -, h⟩ := Look.bind_ok h
  obtain ⟨⟨name, ino₂⟩, hname, h⟩ := Look.bind_ok h
  cases h
  obtain ⟨i, hi, rfl⟩ := headAt_seek hhead
  obtain ⟨j, hj, rfl⟩ := nameAt_seek hname
  exact ⟨j, Nat.le_trans hi hj, rfl⟩

lemma standing_eq_some : ino.standing image g = some r ↔
    ∃ block, block ≠ 0 ∧ ino.address image g = .ok block ∧ ino.recordAt image g block = .ok r := by
  unfold Inode.standing
  cases ino.address image g with
  | error gap => simp
  | ok block =>
    by_cases hzero : block = 0
    · simp [hzero]
    · cases hrecord : ino.recordAt image g block <;> simp [hzero, hrecord, Except.toOption]

lemma onward_eq_some {goesOn : Int → Bool} :
    ino.onward image g goesOn = some ino' ↔
      ∃ r, ino.standing image g = some r ∧ r.number ≠ 0 ∧ goesOn r.number ∧ r.next = ino' := by
  constructor
  · intro h
    obtain ⟨r, hr, hnext⟩ := Option.bind_eq_some_iff.1 h
    split at hnext
    · next hgo => exact ⟨r, hr, hgo.1, hgo.2, Option.some.inj hnext⟩
    · cases hnext
  · rintro ⟨r, hr, hne, hgo, rfl⟩
    rw [Inode.onward, hr, Option.bind_some, if_pos ⟨hne, hgo⟩]

/-- Where the record at which an inode stands leads to. -/
lemma next_of_standing (h : ino.standing image g = some r) :
    ino.ind < 2 ^ 64 ∧ ∃ i ≥ ino.ind, r.next = (ino.seek i).behind g r.recLen := by
  obtain ⟨block, hne, haddress, hrecord⟩ := standing_eq_some.1 h
  exact ⟨ind_lt_of_address haddress hne, recordAt_next hrecord⟩

end

/-! ### Walks that turn back -/

section

variable (image : Image) (g : Globals)

/-- From one inode to the other the loop passes records with these lengths. -/
inductive Passes (goesOn : Int → Bool) : Inode → List Int → Inode → Prop
  | nil (ino : Inode) : Passes goesOn ino [] ino
  | cons {ino ino' : Inode} {r : Reading} {lens : List Int}
      (standing : ino.standing image g = some r) (used : r.number ≠ 0) (goes : goesOn r.number)
      (rest : Passes goesOn r.next lens ino') : Passes goesOn ino (r.recLen :: lens) ino'

/-- Somewhere on the walk the lengths of successive records of one block add up to zero. -/
def TurnsBack (goesOn : Int → Bool) (ino : Inode) : Prop :=
  ∃ before x lens y, Passes image g goesOn ino before x ∧ Passes image g goesOn x lens y ∧
    lens ≠ [] ∧ y.ind = x.ind ∧ lens.sum = 0

variable {image g} {goesOn : Int → Bool} {ino ino' : Inode}

/-- All records that a loop can pass have positive lengths. -/
def Forward (image : Image) (g : Globals) (ino : Inode) : Prop :=
  ∀ lens y, Passes image g (fun _ => true) ino lens y → ∀ len ∈ lens, 0 < len

lemma Passes.append {x : Inode} {lens lens' : List Int} (h : Passes image g goesOn ino lens x)
    (h' : Passes image g goesOn x lens' ino') : Passes image g goesOn ino (lens ++ lens') ino' := by
  induction h with
  | nil => exact h'
  | cons standing used goes _ ih => exact .cons standing used goes (ih h')

lemma Passes.all {lens : List Int} (h : Passes image g goesOn ino lens ino') :
    Passes image g (fun _ => true) ino lens ino' := by
  induction h with
  | nil => exact .nil _
  | cons standing used _ _ ih => exact .cons standing used rfl ih

/-- Positive lengths do not add up to zero. -/
lemma Forward.not_turnsBack (h : Forward image g ino) : ¬ TurnsBack image g goesOn ino := by
  rintro ⟨before, x, lens, y, hbefore, hlens, hne, -, hsum⟩
  have hall := h _ _ (hbefore.append hlens).all
  have hpos : 0 < lens.sum :=
    List.sum_pos lens (fun len hlen => hall len (List.mem_append_right _ hlen)) hne
  omega

lemma passes_iff_orbit {n : Nat} : (∃ lens, lens.length = n ∧ Passes image g goesOn ino lens ino') ↔
    orbit (Inode.onward image g goesOn) n ino = some ino' := by
  induction n generalizing ino with
  | zero =>
    constructor
    · rintro ⟨lens, hlen, h⟩
      cases h with
      | nil => rfl
      | cons => cases hlen
    · intro h
      cases h
      exact ⟨[], rfl, .nil _⟩
  | succ n ih =>
    rw [orbit, Option.bind_eq_some_iff]
    constructor
    · rintro ⟨lens, hlen, h⟩
      cases h with
      | nil => cases hlen
      | cons standing used goes rest =>
        exact ⟨_, onward_eq_some.2 ⟨_, standing, used, goes, rfl⟩,
          ih.1 ⟨_, Nat.succ.inj hlen, rest⟩⟩
    · rintro ⟨y, hy, h⟩
      obtain ⟨r, standing, used, goes, rfl⟩ := onward_eq_some.1 hy
      obtain ⟨lens, hlen, rest⟩ := ih.2 h
      exact ⟨r.recLen :: lens, congrArg Nat.succ hlen, .cons standing used goes rest⟩

/-- A walk stays with its inode. -/
lemma onward_place (h : ino.onward image g goesOn = some ino') :
    ino.ind < 2 ^ 64 ∧ ino'.direI < 2 ^ 64 ∧
      ino' = { ino with ind := ino'.ind, direI := ino'.direI } := by
  obtain ⟨r, hr, -, -, rfl⟩ := onward_eq_some.1 h
  obtain ⟨hind, i, -, hnext⟩ := next_of_standing hr
  refine ⟨hind, ?_, by rw [hnext]; rfl⟩
  rw [hnext]
  exact Nat.lt_of_le_of_lt (Nat.mod_le _ _) (sizeT_lt _)

/-- A walk ends if and only if it does not come back to a record. -/
lemma walk_ends_iff (hstart : ino.direI < 2 ^ 64) :
    (∃ n, orbit (Inode.onward image g goesOn) n ino = none) ↔
      ¬ Circles (Inode.onward image g goesOn) ino := by
  have hplaces : (Set.Iio (2 ^ 64) ×ˢ Set.Iio (2 ^ 64) : Set (Nat × Nat)).Finite :=
    (Set.finite_Iio _).prod (Set.finite_Iio _)
  refine ends_iff_not_circles (hplaces.image fun p => { ino with ind := p.1, direI := p.2 }) ?_
  intro n x hx hmore
  obtain ⟨y, hy⟩ := Option.isSome_iff_exists.1 hmore
  obtain ⟨hdirI, hsame⟩ := orbit_invariant
    (P := fun x => x.direI < 2 ^ 64 ∧ x = { ino with ind := x.ind, direI := x.direI }) hx
    ⟨hstart, rfl⟩ fun x z hx hz => by
      obtain ⟨-, hlt, heq⟩ := onward_place hz
      refine ⟨hlt, ?_⟩
      rw [heq, hx.2]
  exact ⟨(x.ind, x.direI), ⟨(onward_place hy).1, hdirI⟩, hsame.symm⟩

variable (hpos : 0 < g.blckSize) (hlt : g.blckSize < 2 ^ 31)

include hpos hlt

lemma sizeT_blckSize : 0 < sizeT g.blckSize ∧ sizeT g.blckSize < 2 ^ 31 := by
  unfold sizeT
  omega

lemma Inode.behind_in_block (x : Inode) (hplace : x.direI < 2 ^ 31) {len : Int}
    (hlen : -2 ^ 15 ≤ len ∧ len < 2 ^ 15) : (x.behind g len).direI < 2 ^ 31 ∧
      (x.ind < (x.behind g len).ind ∨
        ((x.behind g len).ind = x.ind ∧ ((x.behind g len).direI : Int) = x.direI + len)) := by
  obtain ⟨hb, hb'⟩ := sizeT_blckSize hpos hlt
  simp only [Inode.behind]
  refine ⟨Nat.lt_trans (Nat.mod_lt _ hb) hb', ?_⟩
  by_cases hin : sizeT (x.direI + len) / sizeT g.blckSize = 0
  · have hless := (Nat.div_eq_zero_iff_lt hb).1 hin
    rw [if_pos hin, Nat.mod_eq_of_lt hless]
    refine .inr ⟨rfl, ?_⟩
    have hplace' : sizeT (x.direI + len) < 2 ^ 31 := Nat.lt_trans hless hb'
    unfold sizeT at hplace' ⊢
    omega
  · rw [if_neg hin]
    exact .inl (Nat.lt_succ_self _)

/-- A record leads on in its block by its length, or into a later block. -/
lemma next_in_block {r : Reading} (h : ino.standing image g = some r)
    (hplace : ino.direI < 2 ^ 31) :
    r.next.direI < 2 ^ 31 ∧ (ino.ind < r.next.ind ∨
      (r.next.ind = ino.ind ∧ (r.next.direI : Int) = ino.direI + r.recLen)) := by
  obtain ⟨-, i, hi, hnext⟩ := next_of_standing h
  obtain ⟨hend, hstep⟩ := (ino.seek i).behind_in_block hpos hlt hplace r.recLen_bounds
  rw [hnext]
  refine ⟨hend, ?_⟩
  rcases hstep with hlater | ⟨hind, hdirI⟩
  · exact .inl (Nat.lt_of_le_of_lt hi hlater)
  · rw [hind]
    exact (Nat.lt_or_eq_of_le hi).imp_right fun heq => ⟨heq.symm, hdirI⟩

/-- Within a block the lengths add up. -/
lemma Passes.sum {lens : List Int} (h : Passes image g goesOn ino lens ino')
    (hplace : ino.direI < 2 ^ 31) : ino'.direI < 2 ^ 31 ∧ ino.ind ≤ ino'.ind ∧
      (ino'.ind = ino.ind → (ino'.direI : Int) = ino.direI + lens.sum) := by
  induction h with
  | nil => exact ⟨hplace, Nat.le.refl, fun _ => by simp⟩
  | cons standing used goes rest ih =>
    obtain ⟨hnext, hstep⟩ := next_in_block hpos hlt standing hplace
    obtain ⟨hend, hle, hsum⟩ := ih hnext
    rw [List.sum_cons]
    rcases hstep with hlater | ⟨hind, hdirI⟩
    · exact ⟨hend, by omega, fun hsame => by omega⟩
    · exact ⟨hend, by omega, fun hsame => by rw [hsum (by omega), hdirI, Int.add_assoc]⟩

/-- A walk comes back to a record exactly where it turns back. -/
lemma circles_iff_turnsBack (hstart : ino.direI < 2 ^ 31) :
    Circles (Inode.onward image g goesOn) ino ↔ TurnsBack image g goesOn ino := by
  constructor
  · rintro ⟨m, n, x, hn, hm, hback⟩
    obtain ⟨before, -, hbefore⟩ := passes_iff_orbit.2 hm
    obtain ⟨lens, hlen, hlens⟩ := passes_iff_orbit.2 hback
    obtain ⟨hplace, -, -⟩ := hbefore.sum hpos hlt hstart
    refine ⟨before, x, lens, x, hbefore, hlens, List.ne_nil_of_length_pos (by omega), rfl, ?_⟩
    have := (hlens.sum hpos hlt hplace).2.2 rfl
    omega
  · rintro ⟨before, x, lens, y, hbefore, hlens, hne, hind, hsum⟩
    obtain ⟨hplace, -, -⟩ := hbefore.sum hpos hlt hstart
    have hdirI := (hlens.sum hpos hlt hplace).2.2 hind
    have hx := passes_iff_orbit.1 ⟨before, rfl, hbefore⟩
    have hy := passes_iff_orbit.1 ⟨lens, rfl, hlens⟩
    have hsame : y = x := by
      obtain ⟨_, hyx⟩ := orbit_invariant (P := fun z : Inode =>
          True ∧ z = { x with ind := z.ind, direI := z.direI }) hy ⟨trivial, rfl⟩
        fun u v hu hv => ⟨trivial, by rw [(onward_place hv).2.2, hu.2]⟩
      rw [hyx, hind]
      have : y.direI = x.direI := by omega
      rw [this]
    exact ⟨before.length, lens.length, x, List.length_pos_of_ne_nil hne, hx, hsame ▸ hy⟩

/-- A loop over a directory ends exactly where its walk does not turn back. -/
lemma ends_iff_not_turnsBack (hstart : ino.direI = 0) :
    (∃ n, orbit (Inode.onward image g goesOn) n ino = none) ↔ ¬ TurnsBack image g goesOn ino := by
  rw [walk_ends_iff (by rw [hstart]; decide),
    circles_iff_turnsBack hpos hlt (by rw [hstart]; decide)]

end

/-! ### Searches along a path -/

section

variable (image : Image) (g : Globals)

/-- There is no block to go on in. -/
def Inode.Stops (ino : Inode) : Prop :=
  ino.address image g = .ok 0 ∨ ino.address image g = .error .missing

/-- A search for `name` ends at a record of inode `number` after it has read `k` names. `memory` is
what lies behind the name buffers. At the end of a directory an empty name is met. -/
inductive Meets (name : Name) : (Nat → Name) → Inode → Nat → Int → Prop
  | stops {memory : Nat → Name} {ino : Inode} (stops : ino.Stops image g) (empty : name = []) :
    Meets name memory ino 0 0
  | here {memory : Nat → Name} {ino : Inode} {r : Reading}
      (standing : ino.standing image g = some r)
      (met : cString (r.name ++ memory 0) = name) : Meets name memory ino 1 r.number
  | later {memory : Nat → Name} {ino : Inode} {r : Reading} {k : Nat} {number : Int}
      (standing : ino.standing image g = some r) (used : r.number ≠ 0)
      (other : cString (r.name ++ memory 0) ≠ name)
      (rest : Meets name (fun j => memory (j + 1)) r.next k number) :
    Meets name memory ino (k + 1) number

/-- Every search along the names ends: its walk does not turn back, or it meets the name. Where the
reader goes on with the inode that was found, the rest of the names follows. -/
def SearchesEnd (back : Name) : List Name → Inode → (Nat → Name) → Prop
  | [], _, _ => True
  | n :: ns, ino, memory =>
    (¬ TurnsBack image g (fun _ => true) ino ∨ ∃ k number, Meets image g n memory ino k number) ∧
      ∀ k number e, Meets image g n memory ino k number → Inode.numbered image g number = .ok e →
        (n = back ∨ e.t = Reader.DIR) → SearchesEnd back ns e fun j => memory (k + j)

variable {image g}

lemma direI_of_numbered {i : Int} {e : Inode} (h : Inode.numbered image g i = .ok e) :
    e.direI = 0 := by
  obtain ⟨buff, -, h⟩ := Look.bind_ok h
  obtain ⟨-, h⟩ := Look.guard_ok h
  cases h
  simp only [Inode.parse]

lemma searchesEnd_of_forward
    (h : ∀ i e, Inode.numbered image g i = .ok e → Forward image g e) {back : Name}
    (names : List Name) {ino : Inode} {memory : Nat → Name} (hino : Forward image g ino) :
    SearchesEnd image g back names ino memory := by
  induction names generalizing ino memory with
  | nil => trivial
  | cons n ns ih => exact ⟨.inl hino.not_turnsBack, fun k number e _ he _ => ih (h number e he)⟩

end

end TiPI.Ext2
