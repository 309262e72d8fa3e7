import TiPI.DB.Middleware
import TiPI.Lib.FileBytes
import TiPI.Lib.Gob
import TiPI.Lib.Run
import Mathlib.Data.List.Sort
import Mathlib.Data.UInt

/-!
# The files of the table

`Kvs` is kept by `pudge` in two files: one has the values, the other one is an index, with a record
for each key that has been set and for each one that has been deleted. In memory are the addresses
of the values, which `newDb` reads from the index.

`Set` is cut between its two writes, since the process can be killed there. It can be killed in a
write of a file, too, which has the front part of the bytes then. The calls are one at a time, for
`Db` is locked. Otherwise the calls for files succeed, and the values that are set are strings.
-/

namespace TiPI.DB.Pudge

/-- The bytes of a string. -/
def bytes (s : String) : List UInt8 := s.toUTF8.data.toList

def uint32 (n : Nat) : Nat := n % 2 ^ 32

/-- Where the value is and where the record of its key is. -/
structure Cmd where
  seek : Nat
  size : Nat
  keySeek : Nat
  deriving DecidableEq, Repr

structure Db where
  keys : List (List UInt8)
  vals : List UInt8 → Option Cmd

/-! ### Keys -/

namespace Db

def appendKey (db : Db) (b : List UInt8) : Db := { db with keys := db.keys ++ [b] }

def sort (db : Db) : Db := { db with keys := db.keys.insertionSort (· ≤ ·) }

/-- `sort.Search` in keys that are sorted. -/
def found (db : Db) (b : List UInt8) : Nat := db.sort.keys.findIdx fun key => decide (b ≤ key)

def deleteFromKeys (db : Db) (b : List UInt8) : Db :=
  if db.sort.keys[db.found b]? = some b then
    { db.sort with keys := db.sort.keys.eraseIdx (db.found b) }
  else db.sort

end Db

/-! ### Files -/

/-- Without a position at the end of the file. -/
def writeAtPos (f b : List UInt8) (pos : Option Nat) : List UInt8 × Nat :=
  (pwrite f (pos.getD f.length) b, pos.getD f.length)

/-- What `writeKey` encodes; `t` is `0` for a key that is set and `1` for one that is deleted. -/
def keyRecord (t seek size time : Nat) (key : List UInt8) : List UInt8 :=
  0 :: UInt8.ofNat t :: (highBytes 4 seek ++ (highBytes 4 size ++ (highBytes 4 time ++
    (highBytes 2 key.length ++ key))))

def writeKey (fk : List UInt8) (t seek size time : Nat) (key : List UInt8) (keySeek : Option Nat) :
    List UInt8 × Nat :=
  writeAtPos fk (keyRecord t seek size time key) keySeek

/-- `writeKeyVal` up to the first write, with `cmd`. -/
def writeVal (fv writeVal : List UInt8) (oldCmd : Option Cmd) : List UInt8 × Cmd :=
  match oldCmd with
  | some oldCmd =>
    if uint32 writeVal.length ≤ oldCmd.size then
      let (fv, _) := writeAtPos fv writeVal (some oldCmd.seek)
      (fv, ⟨oldCmd.seek, uint32 writeVal.length, oldCmd.keySeek⟩)
    else
      let (fv, seek) := writeAtPos fv writeVal none
      (fv, ⟨uint32 seek, uint32 writeVal.length, oldCmd.keySeek⟩)
  | none =>
    let (fv, seek) := writeAtPos fv writeVal none
    (fv, ⟨uint32 seek, uint32 writeVal.length, 0⟩)

/-- `writeKey` when `n` bytes come into the file. -/
def tornKey (fk : List UInt8) (t seek size time : Nat) (key : List UInt8) (keySeek : Option Nat)
    (n : Nat) : List UInt8 :=
  (writeAtPos fk ((keyRecord t seek size time key).take n) keySeek).1

/-- The first write of `writeKeyVal` when `n` bytes come into the file. -/
def tornVal (fv writeVal : List UInt8) (oldCmd : Option Cmd) (n : Nat) : List UInt8 :=
  match oldCmd with
  | some oldCmd =>
    if uint32 writeVal.length ≤ oldCmd.size then
      (writeAtPos fv (writeVal.take n) (some oldCmd.seek)).1
    else (writeAtPos fv (writeVal.take n) none).1
  | none => (writeAtPos fv (writeVal.take n) none).1

/-- The numbers of a record, by `buf.Next`; `none` is a panic. -/
def nextKey (buf : List UInt8) : Option (Nat × Nat × Nat × Nat) :=
  if buf.length < 16 then none
  else
    let t := (buf.getD 1 0).toNat
    let seek := ofHighBytes ((buf.drop 2).take 4)
    let size := ofHighBytes ((buf.drop 6).take 4)
    let sizeKey := ofHighBytes ((buf.drop 14).take 2)
    some (t, seek, size, sizeKey)

/-- The case of `t` in the loop of `newDb`. -/
def Db.readKey (db : Db) (t : Nat) (cmd : Cmd) (key : List UInt8) : Db :=
  if t = 0 then
    let db := if (db.vals key).isNone then db.appendKey key else db
    { db with vals := Function.update db.vals key (some cmd) }
  else if t = 1 then ({ db with vals := Function.update db.vals key none }).deleteFromKeys key
  else db

/-- The loop of `newDb`; each record takes a byte at least. -/
def readKeys : Nat → List UInt8 → Nat → Db → Option Db
  | _, [], _, db => some db
  | 0, _ :: _, _, _ => none
  | fuel + 1, buf, readSeek, db =>
    match nextKey buf with
    | none => none
    | some (t, seek, size, sizeKey) =>
      readKeys fuel (buf.drop (16 + sizeKey)) (uint32 (readSeek + (16 + sizeKey)))
        (db.readKey t ⟨seek, size, readSeek⟩ ((buf.drop 16).take sizeKey))

def newDb (fk : List UInt8) : Option Db := readKeys fk.length fk 0 ⟨[], fun _ => none⟩

/-! ### The calls of `Kvs` -/

/-- What a call has returned. -/
inductive Answer
  | value (v : List UInt8)
  | done
  | ErrKeyNotFound
  /-- another error -/
  | failed
  deriving DecidableEq, Repr

/-- A call of `Set` behind its first write. -/
structure Setting where
  key : List UInt8
  /-- `KeySeek` is that of the old record -/
  cmd : Cmd
  existed : Bool
  deriving DecidableEq, Repr

structure Store where
  fk : List UInt8
  fv : List UInt8
  /-- none without a process that has opened the files -/
  db : Option Db
  setting : Option Setting
  /-- of all calls, oldest first -/
  answers : List Answer

inductive StoreAct
  | opens
  | write (key value : String)
  /-- the second write of `Set` -/
  | writeKey (time : Nat)
  | read (key : String)
  | delete (key : String) (time : Nat)
  | close
  /-- the process ends where it is -/
  | kill
  /-- the process ends in the first write of `Set`, of which `n` bytes are made -/
  | killWrite (key value : String) (n : Nat)
  /-- … in the second one -/
  | killWriteKey (time n : Nat)
  /-- … in the one of `Delete` -/
  | killDelete (key : String) (time n : Nat)
  deriving DecidableEq, Repr

namespace Store

/-- No files yet. -/
def init : Store := ⟨[], [], none, none, []⟩

def answer (s : Store) (a : Answer) : Store := { s with answers := s.answers ++ [a] }

def set (s : Store) (db : Db) (key value : String) : Store :=
  let (fv, cmd) := writeVal s.fv (encodeString (bytes value)) (db.vals (bytes key))
  { s with fv := fv, setting := some ⟨bytes key, cmd, (db.vals (bytes key)).isSome⟩ }

def setKey (s : Store) (db : Db) (w : Setting) (time : Nat) : Store :=
  let (fk, newSeek) := writeKey s.fk 0 w.cmd.seek w.cmd.size time w.key
    (if w.existed then some w.cmd.keySeek else none)
  let db := { db with
    vals := Function.update db.vals w.key (some { w.cmd with keySeek := uint32 newSeek }) }
  { s with fk := fk, db := some (if w.existed then db else db.appendKey w.key), setting := none }

def get (s : Store) (db : Db) (key : String) : Answer :=
  match db.vals (bytes key) with
  | none => .ErrKeyNotFound
  | some val =>
    match (pread s.fv val.seek val.size).bind decodeString with
    | none => .failed
    | some value => .value value

def delete (s : Store) (db : Db) (key : String) (time : Nat) : Store :=
  match db.vals (bytes key) with
  | none => s.answer .ErrKeyNotFound
  | some _ =>
    let db := { db with vals := Function.update db.vals (bytes key) none }.deleteFromKeys
      (bytes key)
    { s with db := some db, fk := (writeKey s.fk 1 0 0 time (bytes key) none).1 }.answer .done

def step (s : Store) : StoreAct → Option Store
  | .opens =>
    match s.db with
    | some _ => some s
    | none => (newDb s.fk).map fun db => { s with db := some db }
  | .write key value =>
    match s.db, s.setting with
    | some db, none => some (s.set db key value)
    | _, _ => none
  | .writeKey time =>
    match s.db, s.setting with
    | some db, some w => some ((s.setKey db w time).answer .done)
    | _, _ => none
  | .read key =>
    match s.db, s.setting with
    | some db, none => some (s.answer (s.get db key))
    | _, _ => none
  | .delete key time =>
    match s.db, s.setting with
    | some db, none => some (s.delete db key time)
    | _, _ => none
  | .close =>
    match s.db, s.setting with
    | some _, none => some { s with db := none }
    | _, _ => none
  | .kill => some { s with db := none, setting := none }
  | .killWrite key value n =>
    match s.db, s.setting with
    | some db, none =>
      let fv := tornVal s.fv (encodeString (bytes value)) (db.vals (bytes key)) n
      some { s with fv := fv, db := none }
    | _, _ => none
  | .killWriteKey time n =>
    match s.db, s.setting with
    | some _, some w =>
      let fk := tornKey s.fk 0 w.cmd.seek w.cmd.size time w.key
        (if w.existed then some w.cmd.keySeek else none) n
      some { s with fk := fk, db := none, setting := none }
    | _, _ => none
  | .killDelete key time n =>
    match s.db, s.setting with
    | some db, none =>
      (db.vals (bytes key)).map fun _ =>
        { s with fk := tornKey s.fk 1 0 0 time (bytes key) none n, db := none }
    | _, _ => none

end Store

end TiPI.DB.Pudge
