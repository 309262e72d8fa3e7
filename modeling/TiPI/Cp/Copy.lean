import TiPI.Lib.FileBytes
import Mathlib.Data.UInt

/-!
# `cp`

`main` copies by a read and a write through one `io_uring` for each block. What the kernel makes of
the two requests of a pass is an argument: it may read or write less than it was asked for, or fail.

The two paths name different files, and nobody else writes to them.
-/

namespace TiPI.Cp

def BLOCK_SIZE : Nat := 4096

inductive ExitCode
  | EXIT_SUCCESS
  | EXIT_FAILURE
  deriving DecidableEq, Repr

/-- What becomes of a request. -/
inductive Outcome
  /-- `io_uring_get_sqe` returns `NULL` -/
  | noSqe
  /-- `io_uring_wait_cqe` fails; the request itself goes on and moves `done` bytes -/
  | waitFailed (errno done : Nat)
  /-- a completion with this `res` -/
  | res (res : Int)
  deriving DecidableEq, Repr

/-- The outcomes of the read and of the write of one pass of the loop. -/
structure Pass where
  read : Outcome
  write : Outcome
  deriving DecidableEq, Repr

/-- What the calls in front of the loop return; `errno` is left by the one that fails. -/
structure Setup where
  queueInit : Int
  openSrc : Int
  openDst : Int
  malloc : Bool
  errno : Nat

/-- The end of the process: its status, what it has written to `stderr`, and the destination, where
`none` is a file that does not exist. -/
structure Exit where
  code : ExitCode
  stderr : String
  dst : Option (List UInt8)
  deriving DecidableEq, Repr

section

variable (strerror : Nat → String)

/-- The loop over the passes that are still to come; `none` when they do not bring it to its end. -/
def copyLoop (src : List UInt8) :
    List Pass → (offset : Nat) → (dst : List UInt8) → Option (String × List UInt8)
  | [], _, _ => none
  | pass :: passes, offset, dst =>
    match pass.read with
    | .noSqe => some ("Failed to get SQE.\n", dst)
    | .waitFailed errno _ => some ("io_uring_wait_cqe: " ++ strerror errno ++ "\n", dst)
    | .res res =>
      if res < 0 then some ("Read failed: " ++ strerror (-res).toNat ++ "\n", dst)
      else
        let bytesRead := res.toNat
        if bytesRead = 0 then some ("", dst)
        else
          let buffer := (src.drop offset).take bytesRead
          match pass.write with
          | .noSqe => some ("Failed to get SQE.\n", dst)
          | .waitFailed errno done =>
            some ("io_uring_wait_cqe: " ++ strerror errno ++ "\n",
              pwrite dst offset (buffer.take done))
          | .res res =>
            if res < 0 then some ("Write failed: " ++ strerror (-res).toNat ++ "\n", dst)
            else
              -- the offset goes on by the bytes read
              copyLoop src passes (offset + bytesRead) (pwrite dst offset (buffer.take res.toNat))

def errorExit (message : String) (errno : Nat) (dst : Option (List UInt8)) : Exit :=
  ⟨.EXIT_FAILURE, message ++ ": " ++ strerror errno ++ "\n", dst⟩

def main (argv : List String) (setup : Setup) (src : List UInt8) (dst : Option (List UInt8))
    (passes : List Pass) : Option Exit :=
  if argv.length ≠ 3 then
    some ⟨.EXIT_FAILURE, "Usage: " ++ argv.headD "" ++ " <source> <destination>\n", dst⟩
  else if setup.queueInit < 0 then some (errorExit strerror "io_uring_queue_init" setup.errno dst)
  else if setup.openSrc < 0 then some (errorExit strerror "open source file" setup.errno dst)
  else if setup.openDst < 0 then some (errorExit strerror "open destination file" setup.errno dst)
  -- `O_CREAT | O_TRUNC`: from here on the destination is there, and empty
  else if !setup.malloc then some (errorExit strerror "malloc" setup.errno (some []))
  else
    (copyLoop strerror src passes 0 []).map fun out => ⟨.EXIT_SUCCESS, out.1, some out.2⟩

end

/-! ### What the kernel may answer -/

/-- The outcomes of the passes from `offset` on, on a source of `size` bytes: a read gives up to a
block, and nothing at the end of the file only; a write takes up to what it is given. -/
def Possible (size : Nat) : List Pass → (offset : Nat) → Prop
  | [], _ => True
  | pass :: passes, offset =>
    match pass.read with
    | .noSqe | .waitFailed _ _ => True
    | .res n =>
      n ≤ BLOCK_SIZE ∧ n ≤ ((size - offset : Nat) : Int) ∧ (n = 0 → size ≤ offset) ∧
        (0 < n →
          match pass.write with
          | .noSqe => True
          | .waitFailed _ done => (done : Int) ≤ n
          | .res w => w ≤ n ∧ (0 ≤ w → Possible size passes (offset + n.toNat)))

/-- The parts `(offset, n)` of the source that the writes take. -/
def written : List Pass → (offset : Nat) → List (Nat × Nat)
  | [], _ => []
  | pass :: passes, offset =>
    match pass.read with
    | .noSqe | .waitFailed _ _ => []
    | .res n =>
      if n ≤ 0 then []
      else
        match pass.write with
        | .noSqe => []
        | .waitFailed _ done => [(offset, done)]
        | .res w => if w < 0 then [] else (offset, w.toNat) :: written passes (offset + n.toNat)

/-- Every byte of the source has been taken by a write, but for zeros in front of what has. -/
def Covers (src : List UInt8) (parts : List (Nat × Nat)) : Prop :=
  ∀ i, i < src.length → InPart parts i ∨
    src.getD i 0 = 0 ∧ ∃ part ∈ parts, 0 < part.2 ∧ i < part.1 + part.2

variable {strerror : Nat → String} {src dst dst' : List UInt8} {passes : List Pass} {offset : Nat}
  {message : String}

/-- What a pass does: it ends the loop, without a write or with one that comes too late for it, or
it takes a part of what it has read and the loop goes on behind that. -/
inductive PassCase (strerror : Nat → String) (src : List UInt8) (pass : Pass) (passes : List Pass)
    (offset : Nat) : Prop
  | ends (message : String) (hwritten : written (pass :: passes) offset = [])
      (hloop : ∀ dst, copyLoop strerror src (pass :: passes) offset dst = some (message, dst))
  | breaks (message : String) (done : Nat) (hsize : offset + done ≤ src.length)
      (hwritten : written (pass :: passes) offset = [(offset, done)])
      (hloop : ∀ dst, copyLoop strerror src (pass :: passes) offset dst =
        some (message, pwrite dst offset ((src.drop offset).take done)))
  | goesOn (n w : Nat) (hn : 0 < n) (hw : w ≤ n) (hsize : offset + n ≤ src.length)
      (hrest : Possible src.length passes (offset + n))
      (hwritten : written (pass :: passes) offset = (offset, w) :: written passes (offset + n))
      (hloop : ∀ dst, copyLoop strerror src (pass :: passes) offset dst =
        copyLoop strerror src passes (offset + n) (pwrite dst offset ((src.drop offset).take w)))

lemma pass_cases {pass : Pass} (hp : Possible src.length (pass :: passes) offset) :
    PassCase strerror src pass passes offset := by
  obtain ⟨read, write⟩ := pass
  cases read with
  | noSqe => exact .ends _ rfl fun _ => rfl
  | waitFailed errno done => exact .ends _ rfl fun _ => rfl
  | res n =>
    obtain ⟨-, hn, -, hwrite⟩ := hp
    rcases lt_trichotomy n 0 with hneg | rfl | hpos
    · exact .ends ("Read failed: " ++ strerror (-n).toNat ++ "\n") (by simp [written, hneg.le])
        fun _ => by simp [copyLoop, hneg]
    · exact .ends _ rfl fun _ => rfl
    · replace hwrite := hwrite hpos
      have hread : ¬ n < 0 ∧ n.toNat ≠ 0 := by omega
      have hsize : offset + n.toNat ≤ src.length := by omega
      cases write with
      | noSqe =>
        exact .ends "Failed to get SQE.\n" (by simp [written]) fun _ => by simp [copyLoop, hread]
      | waitFailed errno done =>
        have hdone : done ≤ n.toNat := (Int.le_toNat hpos.le).2 hwrite
        refine .breaks ("io_uring_wait_cqe: " ++ strerror errno ++ "\n") done
          (by omega) ?_ fun _ => ?_
        · simp [written, hpos]
        · simp [copyLoop, hread, List.take_take, hdone]
      | res w =>
        rcases lt_or_ge w 0 with hneg | hw
        · exact .ends ("Write failed: " ++ strerror (-w).toNat ++ "\n") (by simp [written, hneg])
            fun _ => by simp [copyLoop, hread, hneg]
        · have hle : w.toNat ≤ n.toNat := Int.toNat_le_toNat hwrite.1
          refine .goesOn n.toNat w.toNat (by omega) hle hsize (hwrite.2 hw) ?_ fun _ => ?_
          · simp [written, hpos.not_ge, hw.not_gt]
          · simp [copyLoop, hread, hw, List.take_take, hle]

lemma written_le (hp : Possible src.length passes offset) :
    ∀ part ∈ written passes offset, part.1 + part.2 ≤ src.length := by
  induction passes generalizing offset with
  | nil => simp [written]
  | cons pass passes ih =>
    have hcase : PassCase (fun _ => "") src pass passes offset := pass_cases hp
    cases hcase with
    | ends message hwritten hloop => simp [hwritten]
    | breaks message done hsize hwritten hloop => simpa [hwritten] using hsize
    | goesOn n w hn hw hsize hrest hwritten hloop =>
      rw [hwritten, List.forall_mem_cons]
      exact ⟨(Nat.add_le_add_left hw offset).trans hsize, ih hrest⟩

/-- The loop copies the parts that the writes take, each to where it stands in the source. -/
lemma copyLoop_eq (hp : Possible src.length passes offset)
    (hrun : copyLoop strerror src passes offset dst = some (message, dst')) :
    dst' = copyParts src (written passes offset) dst := by
  induction passes generalizing offset dst with
  | nil => cases hrun
  | cons pass passes ih =>
    have hcase : PassCase strerror src pass passes offset := pass_cases hp
    cases hcase with
    | ends message' hwritten hloop =>
      rw [hloop] at hrun
      cases hrun
      rw [hwritten]
      rfl
    | breaks message' done hsize hwritten hloop =>
      rw [hloop] at hrun
      cases hrun
      rw [hwritten]
      rfl
    | goesOn n w hn hw hsize hrest hwritten hloop =>
      rw [hloop] at hrun
      rw [hwritten]
      exact ih hrest hrun

/-- Each pass that does not end the loop goes on by at least one byte, so that there is one pass
more than the source has bytes at most. -/
lemma copyLoop_isSome (hp : Possible src.length passes offset)
    (hlen : src.length - offset < passes.length) :
    (copyLoop strerror src passes offset dst).isSome := by
  induction passes generalizing offset dst with
  | nil => simp at hlen
  | cons pass passes ih =>
    have hcase : PassCase strerror src pass passes offset := pass_cases hp
    cases hcase with
    | ends message hwritten hloop => simp [hloop]
    | breaks message done hsize hwritten hloop => simp [hloop]
    | goesOn n w hn hw hsize hrest hwritten hloop =>
      rw [hloop]
      rw [List.length_cons] at hlen
      exact ih hrest (by omega)

variable {argv : List String} {setup : Setup} {old : Option (List UInt8)} {exit : Exit}

theorem main_returns (hp : Possible src.length passes 0) (hlen : src.length < passes.length) :
    (main strerror argv setup src old passes).isSome := by
  unfold main
  split_ifs
  · rfl
  · rfl
  · rfl
  · rfl
  · rfl
  · rw [Option.isSome_map]
    exact copyLoop_isSome hp (by omega)

/-! ### Copies -/

/-- With status `EXIT_SUCCESS` the process has been through the loop. -/
lemma main_success (hmain : main strerror argv setup src old passes = some exit)
    (hok : exit.code = .EXIT_SUCCESS) :
    ∃ out, copyLoop strerror src passes 0 [] = some out ∧ exit.dst = some out.2 := by
  unfold main at hmain
  split_ifs at hmain
  · obtain rfl := Option.some.inj hmain
    cases hok
  · obtain rfl := Option.some.inj hmain
    cases hok
  · obtain rfl := Option.some.inj hmain
    cases hok
  · obtain rfl := Option.some.inj hmain
    cases hok
  · obtain rfl := Option.some.inj hmain
    cases hok
  · obtain ⟨out, hout, rfl⟩ := Option.map_eq_some_iff.1 hmain
    exact ⟨out, hout, rfl⟩

/-- A `main` that returns `EXIT_SUCCESS` has made the destination equal to the source exactly when
the writes have taken every byte, but for zeros in front of others that they have taken. -/
theorem copies_iff (hp : Possible src.length passes 0)
    (hmain : main strerror argv setup src old passes = some exit)
    (hok : exit.code = .EXIT_SUCCESS) :
    exit.dst = some src ↔ Covers src (written passes 0) := by
  obtain ⟨out, hout, hdst⟩ := main_success hmain hok
  rw [hdst, Option.some.injEq, copyLoop_eq hp hout]
  exact copyParts_nil_eq_iff (written_le hp)

def opened : Setup := ⟨0, 3, 4, true, 0⟩

def names : List String := ["cp", "source", "destination"]

/-- Two reads of one and of two bytes, each written as a whole. -/
theorem copies_three : ∃ exit, main (fun _ => "") names opened [7, 0, 9] none
      [⟨.res 1, .res 1⟩, ⟨.res 2, .res 2⟩, ⟨.res 0, .noSqe⟩] = some exit ∧
    exit.dst = some [7, 0, 9] := by
  have hp : Possible [(7 : UInt8), 0, 9].length
      [⟨.res 1, .res 1⟩, ⟨.res 2, .res 2⟩, ⟨.res 0, .noSqe⟩] 0 := by
    simp [Possible, BLOCK_SIZE]
  have hmain : main (fun _ => "") names opened [7, 0, 9] none
      [⟨.res 1, .res 1⟩, ⟨.res 2, .res 2⟩, ⟨.res 0, .noSqe⟩] =
        some ⟨.EXIT_SUCCESS, "", some [7, 0, 9]⟩ := by decide
  refine ⟨_, hmain, (copies_iff hp hmain rfl).2 ?_⟩
  intro i hi
  left
  have hall : ∀ i < 3, InPart [(0, 1), (1, 2)] i := by decide
  exact hall i hi

/-- A short write loses the rest of its block, and the status is still `EXIT_SUCCESS`. -/
theorem short_write_not_copied : ∃ passes, Possible [(7 : UInt8), 9].length passes 0 ∧
    ∃ exit, main (fun _ => "") names opened [7, 9] none passes = some exit ∧
      exit.code = .EXIT_SUCCESS ∧ exit.dst ≠ some [7, 9] := by
  refine ⟨[⟨.res 2, .res 1⟩, ⟨.res 0, .noSqe⟩], ?_, ⟨.EXIT_SUCCESS, "", some [7]⟩, ?_, rfl, ?_⟩
  · simp [Possible, BLOCK_SIZE]
  · decide
  · decide

end TiPI.Cp
