import Mathlib.Algebra.Group.Int.Defs
import Mathlib.Algebra.Group.Nat.Defs
import Mathlib.Data.List.Range

/-!
# What the Ext2 reader rests on

Fixed-width integers, the bytes of the image, `pread`, and calls that may throw.
-/

namespace TiPI.Ext2

/-! ### Integers -/

/-- The value of an `int32_t` expression: it wraps. -/
def int32 (x : Int) : Int := x.bmod (2 ^ 32)

/-- The value of a `size_t` expression. -/
def sizeT (x : Int) : Nat := (x % 2 ^ 64).toNat

lemma int32_of_bounds {x : Int} (hlo : -2 ^ 31 ≤ x) (hhi : x < 2 ^ 31) : int32 x = x := by
  unfold int32
  rw [Int.bmod_eq_iff (by decide)]
  omega

lemma int32_of_lt {n : Nat} (h : n < 2 ^ 31) : int32 n = n :=
  int32_of_bounds (by omega) (by omega)

lemma sizeT_of_lt {n : Nat} (h : n < 2 ^ 64) : sizeT n = n := by
  unfold sizeT
  omega

/-- The value of an `int16_t` and of an `int8_t` expression. -/
def int16 (x : Int) : Int := x.bmod (2 ^ 16)

def int8 (x : Int) : Int := x.bmod (2 ^ 8)

/-- The value of an `off_t` argument. -/
def offT (x : Int) : Int := x.bmod (2 ^ 64)

/-- The half word at byte `i` of an array, low byte first. -/
def half (buff : List UInt8) (i : Nat) : Nat :=
  (buff.getD i 0).toNat + 2 ^ 8 * (buff.getD (i + 1) 0).toNat

/-- The word at byte `i` of an array, low byte first. -/
def word (buff : List UInt8) (i : Nat) : Nat :=
  (buff.getD i 0).toNat + 2 ^ 8 * (buff.getD (i + 1) 0).toNat +
    2 ^ 16 * (buff.getD (i + 2) 0).toNat + 2 ^ 24 * (buff.getD (i + 3) 0).toNat

lemma word_lt (buff : List UInt8) (i : Nat) : word buff i < 2 ^ 32 := by
  have h0 := (buff.getD i 0).toNat_lt
  have h1 := (buff.getD (i + 1) 0).toNat_lt
  have h2 := (buff.getD (i + 2) 0).toNat_lt
  have h3 := (buff.getD (i + 3) 0).toNat_lt
  unfold word
  omega

lemma int32_eq_zero {n : Nat} (h : n < 2 ^ 32) : int32 n = 0 ↔ n = 0 := by
  unfold int32
  rw [Int.bmod_eq_iff (by decide)]
  omega

/-! ### The image -/

/-- The file that holds the file system. -/
structure Image where
  length : Nat
  byte : Nat → UInt8

namespace Image

/-- The bytes in `[offset, offset + count)`. -/
def bytes (image : Image) (offset count : Nat) : List UInt8 :=
  (List.range count).map fun i => image.byte (offset + i)

@[simp] lemma length_bytes (image : Image) (offset count : Nat) :
    (image.bytes offset count).length = count := by
  simp [bytes]

lemma getD_bytes (image : Image) {offset count i : Nat} (h : i < count) :
    (image.bytes offset count).getD i 0 = image.byte (offset + i) := by
  simp [bytes, h]

/-- A `pread` of `count` bytes there is complete. -/
def Holds (image : Image) (offset : Int) (count : Nat) : Prop :=
  0 ≤ offset ∧ count ≤ image.length - offset.toNat

instance (image : Image) (offset : Int) (count : Nat) : Decidable (image.Holds offset count) :=
  inferInstanceAs (Decidable (_ ∧ _))

end Image

/-! ### Calls -/

inductive Fault
  /-- an exception, with the text before `strerror(errno)` -/
  | failure (what : String)
  /-- an access outside of an array, or a division by zero -/
  | undefined
  /-- a loop that still runs when the steps it was given are used up -/
  | unfinished
  deriving DecidableEq

structure World where
  errno : Int := 0
  stdout : List UInt8 := []
  /-- what memory holds behind the name buffers still to be allocated -/
  behind : Nat → List UInt8 := fun _ => []
  /-- the inodes whose entries were looked at; no call reads it -/
  searched : List Int := []

/-- A `std::string` made of the bytes at an address. -/
def cString (bytes : List UInt8) : List UInt8 := bytes.takeWhile (· ≠ 0)

/-- `write(STDOUT_FILENO, …)` of all the bytes -/
def World.write (w : World) (bytes : List UInt8) : World := { w with stdout := w.stdout ++ bytes }

@[simp] lemma World.write_errno (w : World) (bytes : List UInt8) :
    (w.write bytes).errno = w.errno := rfl

@[simp] lemma World.write_nil (w : World) : w.write [] = w := by
  simp [World.write]

lemma World.write_write (w : World) (bytes more : List UInt8) :
    (w.write bytes).write more = w.write (bytes ++ more) := by
  simp [World.write]

def World.search (w : World) (inode : Int) : World := { w with searched := inode :: w.searched }

/-- A call reads and changes the world; what it changed stays when it throws. -/
abbrev Call := EStateM Fault World

def EINVAL : Int := 22

/-- `new char[n]` -/
def newArray (n : Int) : Call Unit :=
  if n < 0 then throw (.failure "std::bad_array_new_length") else pure ()

/-- The element at byte `i` of an array. -/
def load32 (buff : List UInt8) (i : Nat) : Call Int :=
  if i + 4 ≤ buff.length then pure (int32 (word buff i)) else throw .undefined

/-- The bytes that `pread` delivers. -/
def pread (image : Image) (count : Int) (offset : Int) : Call (List UInt8) := do
  if offset < 0 then
    modify fun w => { w with errno := EINVAL }
    return []
  else
    return image.bytes offset.toNat (min (sizeT count) (image.length - offset.toNat))

/-- `if (pread(image_fd, buff, count, offset) != count || errno) throw …` -/
def preadAll (image : Image) (what : String) (count : Int) (offset : Int) :
    Call (List UInt8) := do
  let buff ← pread image count offset
  if buff.length ≠ count ∨ (← get).errno ≠ 0 then
    throw (.failure ("Something went wrong with " ++ what))
  return buff

/-- `try { … } catch (const std::exception& e) { … }` with a value in place of an exception -/
def catching {α : Type} (x : Call α) (a : α) : Call α :=
  tryCatch x fun
    | .failure _ => pure a
    | fault => throw fault

/-- `std::string(name)` for the next name buffer: nothing terminates the buffer. -/
def stringOf (name : List UInt8) : Call (List UInt8) := do
  let w ← get
  set { w with behind := fun k => w.behind (k + 1) }
  return cString (name ++ w.behind 0)

section

variable {image : Image} {w : World} {count : Nat} {offset : Int}

lemma run_newArray {n : Int} (h : 0 ≤ n) : (newArray n).run w = .ok () w := by
  rw [newArray, if_neg (Int.not_lt.2 h)]
  rfl

lemma run_load32 (buff : List UInt8) {i : Nat} (h : i + 4 ≤ buff.length) :
    (load32 buff i).run w = .ok (int32 (word buff i)) w := by
  simp [load32, h]

lemma run_pread (hcount : count < 2 ^ 64) (h : image.Holds offset count) :
    (pread image count offset).run w = .ok (image.bytes offset.toNat count) w := by
  obtain ⟨hpos, hle⟩ := h
  have hmin : min (sizeT count) (image.length - offset.toNat) = count := by
    rw [sizeT_of_lt hcount, Nat.min_eq_left hle]
  simp [pread, hmin, Int.not_lt.2 hpos]

lemma run_preadAll (what : String) (hcount : count < 2 ^ 64) (h : image.Holds offset count)
    (herrno : w.errno = 0) :
    (preadAll image what count offset).run w = .ok (image.bytes offset.toNat count) w := by
  simp [preadAll, run_pread hcount h, herrno]

end

section

variable {α β : Type} {w w' : World}

lemma run_catching {x : Call α} {a b : α} (h : x.run w = .ok a w') :
    (catching x b).run w = .ok a w' := by
  simp only [EStateM.run, catching, tryCatch, tryCatchThe, MonadExceptOf.tryCatch,
    EStateM.tryCatch] at h ⊢
  rw [h]

lemma bind_ok {x : Call α} {f : α → Call β} {b : β} (h : (x >>= f).run w = .ok b w') :
    ∃ a v, x.run w = .ok a v ∧ (f a).run v = .ok b w' := by
  rw [EStateM.run_bind] at h
  cases hx : x.run w with
  | ok a v =>
    rw [hx] at h
    exact ⟨a, v, rfl, h⟩
  | error e v =>
    rw [hx] at h
    cases h

lemma load32_ok {buff : List UInt8} {i : Nat} {x : Int} (h : (load32 buff i).run w = .ok x w') :
    i + 4 ≤ buff.length := by
  unfold load32 at h
  split at h
  · assumption
  · cases h

lemma newArray_ok {n : Int} {u : Unit} (h : (newArray n).run w = .ok u w') : w' = w := by
  unfold newArray at h
  split at h <;> cases h
  rfl

lemma preadAll_ok {image : Image} {what : String} {count offset : Int} {buff : List UInt8}
    (h : (preadAll image what count offset).run w = .ok buff w') : (buff.length : Int) = count := by
  obtain ⟨bytes, v, -, hcheck⟩ := bind_ok h
  obtain ⟨_, _, hget, hcheck⟩ := bind_ok hcheck
  cases hget
  split at hcheck
  · obtain ⟨_, _, hthrow, -⟩ := bind_ok hcheck
    cases hthrow
  · next hall =>
    obtain ⟨rfl, -⟩ : bytes = buff ∧ v = w' := by simpa using hcheck
    exact not_not.1 (not_or.1 hall).1

end

end TiPI.Ext2
