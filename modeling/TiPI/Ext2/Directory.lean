import TiPI.Ext2.Inode

/-!
# Directories and paths

`Inode::nextDirEntry`, `split` and `Reader::inodeFromPath`.
-/

namespace TiPI.Ext2

abbrev Name := List UInt8

abbrev DirEntry := Int × Name

variable (image : Image) (g : Globals)

namespace Inode

/-- The eight bytes before a name, and the inode, which may have gone on to the next block. -/
def entryHead (ino : Inode) (block : Int) : Call (List UInt8 × Inode) := do
  let left := sizeT (g.blckSize - ino.direI)
  if left < 8 then
    let head ← preadAll image "Inode::nextDirEntry() 1: " left
      (offT (ino.direI + int32 (block * g.blckSize)))
    let ino' := { ino with ind := ino.ind + 1 }
    let block' ← nextBlock image g ino'
    if block' = 0 then throw (.failure "Bad block obtaining Inode::nextDirEntry() 1")
    let tail ← preadAll image "Inode::nextDirEntry() 2: " (8 - left) (int32 (block' * g.blckSize))
    return (head ++ tail, ino')
  else
    let buff ← preadAll image "Inode::nextDirEntry() 3 : " 8
      (offT (ino.direI + int32 (block * g.blckSize)))
    return (buff, ino)

/-- `while (to_read != 0)`; `first` is `first_iter`. -/
def nameLoop : Nat → Inode → Bool → Nat → List UInt8 → Call (List UInt8 × Inode)
  | _, ino, _, 0, name => return (name, ino)
  | 0, _, _, _ + 1, _ => throw .unfinished
  | fuel + 1, ino, first, toRead + 1, name => do
    let block ← nextBlock image g ino
    if block = 0 then throw (.failure "Bad block obtaining Inode::nextDirEntry() 2")
    let tmpToRead := min (toRead + 1) (sizeT g.blckSize)
    let offset :=
      if first then int32 (ino.direI + int32 (block * g.blckSize) + 8)
      else int32 (block * g.blckSize)
    let bytes ← preadAll image "Inode::nextDirEntry() 4: " tmpToRead offset
    let left := toRead + 1 - tmpToRead
    let ino' := if left = 0 then ino else { ino with ind := ino.ind + 1 }
    nameLoop fuel ino' false left (name ++ bytes)

/-- The length of a name: without file types the second byte is laid over the low one. -/
def nameLength (buff : List UInt8) : Int :=
  let lenLow := int8 (buff.getD 6 0).toNat
  if g.dirEntryType then lenLow else lenLow / 2 ^ 8 * 2 ^ 8 + (buff.getD 7 0).toNat

def nextDirEntry (ino : Inode) : Call (DirEntry × Inode) := do
  modify (World.search · ino.inode)
  -- an exception in `nextBlock` and a block `0` both give the default entry
  let block ← catching (nextBlock image g ino) 0
  if block = 0 then
    return ((0, []), ino)
  let (buff, ino) ← entryHead image g ino block
  let totalSize := int16 (half buff 4)
  let len := nameLength g buff
  newArray len
  let (name, ino) ← nameLoop image g (len.toNat + 1) ino true len.toNat []
  if g.blckSize = 0 then throw .undefined
  let next := sizeT (ino.direI + totalSize)
  let ind := if next / sizeT g.blckSize = 0 then ino.ind else ino.ind + 1
  let name ← stringOf name
  return ((int32 (word buff 0), name), { ino with ind := ind, direI := next % sizeT g.blckSize })

end Inode

/-- The loop of `split`; the delimiter is one byte. -/
def splitLoop (delimiter : UInt8) : Nat → Name → List Name → List Name
  | 0, s, tokens => tokens ++ [s]
  | fuel + 1, s, tokens =>
    match s.findIdx? (· == delimiter) with
    | none => tokens ++ [s]
    | some pos => splitLoop delimiter fuel (s.drop (pos + 1)) (tokens ++ [s.take pos])

def split (s : Name) (delimiter : UInt8) : List Name := splitLoop delimiter s.length s []

namespace Reader

def ROOT_INODE : Int := 2

def DIR : Nat := 0x4000

/-- `'/'` -/
def slash : UInt8 := 47

/-- `do … while (std::get<0>(dir) != int32_t() && std::get<1>(dir) != name)` -/
def entryLoop (name : Name) : Nat → Inode → Call (DirEntry × Inode)
  | 0, _ => throw .unfinished
  | fuel + 1, ino => do
    let (dir, ino') ← ino.nextDirEntry image g
    if dir.1 ≠ 0 ∧ dir.2 ≠ name then entryLoop name fuel ino' else return (dir, ino')

/-- The loop over the names of a path; `back` is the last of them. -/
def nameListLoop (fuel : Nat) (back : Name) : List Name → Inode → DirEntry → Call Int
  | [], _, dir => return dir.1
  | name :: names, ino, _ => do
    let (dir, _) ← entryLoop image g name fuel ino
    if dir.2 ≠ name then
      return -1
    else
      let ino' ← Inode.fill image g dir.1
      if name ≠ back ∧ ino'.t ≠ DIR then return -1 else nameListLoop fuel back names ino' dir

def inodeFromPath (fuel : Nat) (pathToFile : List UInt8) : Call Int := do
  let tokens := split pathToFile slash
  let nameList := if tokens.headD [] = [] then tokens.tail else tokens
  let ino ← Inode.fill image g ROOT_INODE
  nameListLoop image g fuel (nameList.getLastD []) nameList ino (0, [])

end Reader

end TiPI.Ext2
