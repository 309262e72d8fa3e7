import TiPI.Lib.Run

/-!
# A parent, its child and two pipes

The parent writes a file to the pipe that is the child's input, closes it, and only then reads the
pipe that is the child's output. The child writes out what it reads. `WriteFile` to a pipe waits
until the pipe has taken all of the bytes; they go in as there is room, so a step is some of them.

No call fails. What the child prints with `printf` goes through the buffer of the C library: it is
written at the exit of the child, or at once where the library has no buffer for a pipe.
-/

namespace TiPI.Pipe

def BUFSIZE : Nat := 4096

/-- What the child prints, with the line ends of a text stream. -/
def message : List UInt8 :=
  "\r\n ** This is a message from the child process. ** \r\n".toList.map fun c => c.toNat.toUInt8

/-- The sizes of the pipes, and whether the C library buffers what goes to a pipe. -/
structure Config where
  inSize : Nat
  outSize : Nat
  buffered : Bool
  in_pos : 0 < inSize
  out_pos : 0 < outSize

inductive Parent
  /-- `WriteToPipe` in front of its `ReadFile` -/
  | readFile
  | writeFile (rest : List UInt8)
  | closeHandle
  /-- `ReadFromPipe` in front of its `ReadFile` -/
  | readPipe
  | print (chunk : List UInt8)
  | ended
  deriving DecidableEq

inductive Child
  | printf (rest : List UInt8)
  | readFile
  | writeFile (rest : List UInt8)
  /-- the buffer of the C library at the exit -/
  | flush (rest : List UInt8)
  | ended
  deriving DecidableEq

/-- The parent has closed its end of the pipe to the child. -/
def Parent.closed : Parent → Bool
  | .readFile | .writeFile _ | .closeHandle => false
  | .readPipe | .print _ | .ended => true

/-- The pipe has taken `n` bytes. -/
def Parent.wrote (n : Nat) : Parent → Parent
  | .writeFile rest => if n = rest.length then .readFile else .writeFile (rest.drop n)
  | p => p

def Child.wrote (n : Nat) : Child → Child
  | .printf rest => if n = rest.length then .readFile else .printf (rest.drop n)
  | .writeFile rest => if n = rest.length then .readFile else .writeFile (rest.drop n)
  | .flush rest => if n = rest.length then .ended else .flush (rest.drop n)
  | ch => ch

/-- `return 0` of the child. -/
def Child.exit (c : Config) : Child := if c.buffered then .flush message else .ended

structure Processes where
  parent : Parent
  /-- the part of the file that has not been read -/
  file : List UInt8
  /-- what is in the pipe to the child, and in the one from it -/
  toChild : List UInt8
  fromChild : List UInt8
  child : Child
  /-- what the parent has written to its output -/
  printed : List UInt8
  deriving DecidableEq

/-- The next step of the parent or of the child. `n` is how many bytes a pipe takes or gives. -/
inductive Act
  | parent (n : Nat)
  | child (n : Nat)
  deriving DecidableEq

namespace Processes

def init (c : Config) (contents : List UInt8) : Processes where
  parent := .readFile
  file := contents
  toChild := []
  fromChild := []
  child := if c.buffered then .readFile else .printf message
  printed := []

def stepParent (c : Config) (s : Processes) (n : Nat) : Option Processes :=
  match s.parent with
  | .readFile =>
    if s.file = [] then some { s with parent := .closeHandle }
    else some { s with parent := .writeFile (s.file.take BUFSIZE), file := s.file.drop BUFSIZE }
  | .writeFile rest =>
    if 0 < n ∧ n ≤ rest.length ∧ s.toChild.length + n ≤ c.inSize then
      some { s with toChild := s.toChild ++ rest.take n, parent := s.parent.wrote n }
    else none
  | .closeHandle => some { s with parent := .readPipe }
  | .readPipe =>
    if s.fromChild = [] then
      if s.child = .ended then some { s with parent := .ended } else none
    else if 0 < n ∧ n ≤ BUFSIZE ∧ n ≤ s.fromChild.length then
      some { s with parent := .print (s.fromChild.take n), fromChild := s.fromChild.drop n }
    else none
  | .print chunk => some { s with parent := .readPipe, printed := s.printed ++ chunk }
  | .ended => none

def stepChild (c : Config) (s : Processes) (n : Nat) : Option Processes :=
  match s.child with
  | .readFile =>
    -- the input has ended when the parent has closed its end and the pipe is empty
    if s.toChild = [] ∧ s.parent.closed then some { s with child := .exit c }
    else if 0 < n ∧ n ≤ BUFSIZE ∧ n ≤ s.toChild.length then
      some { s with child := .writeFile (s.toChild.take n), toChild := s.toChild.drop n }
    else none
  | .printf rest | .writeFile rest | .flush rest =>
    if 0 < n ∧ n ≤ rest.length ∧ s.fromChild.length + n ≤ c.outSize then
      some { s with fromChild := s.fromChild ++ rest.take n, child := s.child.wrote n }
    else none
  | .ended => none

def step (c : Config) (s : Processes) : Act → Option Processes
  | .parent n => s.stepParent c n
  | .child n => s.stepChild c n

end Processes

end TiPI.Pipe
