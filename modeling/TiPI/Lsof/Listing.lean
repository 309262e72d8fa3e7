import TiPI.Lib.ParseInt
import TiPI.Lib.Printf

/-!
# `lsof`

The lines of a process come in the order of its descriptors, those of all processes are merged as
sorted lists. What the system says is given: the entries of `/proc`, and for a process what its
files hold. An `errno` of zero of an entry says that reading it leaves `errno` alone.
-/

namespace TiPI.Lsof

abbrev Text := List Char

def LABEL : Text := " COMMAND    PID       USER    FD    TYPE   SIZE/OFF     NODE NAME".toList

/-- `filterByUser`, `filterByPID` and `filterByFile`. -/
structure Filter where
  user : Text := []
  pid : ℤ := 0
  file : Text := []

/-- An entry of a directory `fd`, with what `fd_stat` holds after `stat`. -/
structure Descriptor where
  d_name : Text
  st_mode : Nat
  st_size : ℤ
  st_ino : Nat
  /-- what is left in `ftype`, for a mode that no case is about -/
  ftype : Text
  /-- what `readlink` finds, up to the size of `fname` -/
  link : Option Text
  errno : Nat

structure Process where
  cmd : Text
  /-- `getpwuid` of the user -/
  user_name : Option Text
  /-- left by the calls in front of the flag for users -/
  errno : Nat
  /-- `opendir` of the directory `fd` -/
  fds : Option (List Descriptor)
  /-- left by the calls from the end of that directory on -/
  endErrno : Nat

structure Dirent where
  d_name : Text
  isDir : Bool
  process : Process

inductive Failure
  | exception
  /-- a null pointer, or a write behind a buffer -/
  | undefined
  deriving DecidableEq

/-! ### The lines of a process -/

/-- What the call leaves in `errno`. -/
def seen (errno left : Nat) : Nat := if left = 0 then errno else left

def INT_MAX : Nat := 2147483647

def stoi (text : Text) : Except Failure Nat :=
  if digitsVal 0 text ≤ INT_MAX then .ok (digitsVal 0 text) else .error .exception

/-- The assignment of a larger integer to an `int`. -/
def toInt (n : ℤ) : ℤ := n.bmod (2 * (INT_MAX + 1))

def ftype (d : Descriptor) : Text :=
  match d.st_mode &&& 0o170000 with
  | 0o060000 => "BLK".toList
  | 0o020000 => "CHR".toList
  | 0o040000 => "DIR".toList
  | 0o100000 => "REG".toList
  | 0o140000 => "SOCK".toList
  | 0o010000 => "FIFO".toList
  | _ => d.ftype

/-- The line up to the number of the descriptor. -/
def lineHead (cmd : Text) (pid : Nat) (user_name : Text) : Text :=
  padRight 9 cmd ++ ' ' :: padLeft 6 (decimal pid) ++ ' ' :: padLeft 9 user_name ++ [' ']

def lineTail (d : Descriptor) (fname : Text) : Text :=
  ' ' :: padLeft 7 (ftype d) ++ ' ' :: padLeft 10 (intText (toInt d.st_size)) ++
    ' ' :: padLeft 8 (intText (toInt d.st_ino)) ++ ' ' :: padRight 2 fname

def line (head : Text) (fd_num : Nat) (d : Descriptor) (fname : Text) : Text :=
  head ++ (padLeft 5 (decimal fd_num) ++ lineTail d fname)

def readlink (d : Descriptor) : Except Failure Text :=
  match d.link with
  | none => .error .exception
  | some fname => if fname.length < 1024 then .ok fname else .error .undefined

def sprintf (text : Text) : Except Failure Text :=
  if text.length < 2048 then .ok text else .error .undefined

instance (text : Text) : Decidable (Digits text) :=
  List.decidableBAll (fun c : Char => c.isDigit = true) text

/-- One round of the loop over the directory `fd`. -/
def readFd (f : Filter) (head : Text) (d : Descriptor) : Except Failure (Option Text) :=
  if Digits d.d_name then do
    let fd_num ← stoi d.d_name
    let fname ← readlink d
    if f.file ≠ [] ∧ f.file ≠ fname then
      return none
    else
      let buff ← sprintf (line head fd_num d fname)
      return some buff
  else
    return none

def readFds (f : Filter) (head : Text) : List Descriptor → Nat → Except Failure (List Text × Nat)
  | [], errno => return ([], errno)
  | d :: ds, errno => do
    let buff ← readFd f head d
    let (res, errno') ← readFds f head ds (seen errno d.errno)
    return (buff.toList ++ res, errno')

def pidRead (f : Filter) (spid : Text) (p : Process) (errno : Nat) :
    Except Failure (List Text × Nat) := do
  let pid ← stoi spid
  match p.user_name with
  | none => .error .undefined
  | some user_name =>
    if f.user ≠ [] ∧ f.user ≠ user_name then
      return ([], seen errno p.errno)
    else
      match p.fds with
      | none => .error .undefined
      | some ds =>
        let (res, errno') ← readFds f (lineHead p.cmd pid user_name) ds (seen errno p.errno)
        return (res, seen errno' p.endErrno)

/-! ### All processes -/

/-- `std::list::merge`. -/
def merge (res other : List Text) : List Text := List.merge res other fun a b => decide (a ≤ b)

/-- The loop over `/proc`. -/
def readProc (f : Filter) : List Dirent → List Text → Nat → Except Failure (List Text × Nat)
  | [], res, errno => return (res, errno)
  | dent :: rest, res, errno =>
    if errno ≠ 0 then
      return (res, errno)
    else if ¬ dent.isDir ∨ ¬ Digits dent.d_name then
      readProc f rest res errno
    else do
      let pid ← stoi dent.d_name
      if f.pid ≠ 0 ∧ f.pid ≠ pid then
        readProc f rest res errno
      else
        let (other, errno') ← pidRead f dent.d_name dent.process errno
        readProc f rest (merge res other) errno'

/-- `left` is what the last `readdir` leaves in `errno`. -/
def procRead (f : Filter) (proc : List Dirent) (left errno : Nat) : Except Failure (List Text) := do
  let (res, errno') ← readProc f proc [] errno
  if seen errno' left ≠ 0 then .error .exception else return res

inductive Outcome
  | exit (status : Nat) (out : List Text)
  | undefined
  deriving DecidableEq

/-- `main` behind its options, with the lines it prints. -/
def main (f : Filter) (proc : List Dirent) (left errno : Nat) : Outcome :=
  match procRead f proc left errno with
  | .ok res => .exit 0 (LABEL :: res)
  | .error .exception => .exit 1 []
  | .error .undefined => .undefined

end TiPI.Lsof
