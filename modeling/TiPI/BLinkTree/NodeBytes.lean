import TiPI.BLinkTree.Node
import TiPI.Lib.Chars
import TiPI.Lib.FileBytes
import TiPI.Lib.Run
import Mathlib.Data.UInt

/-!
# The bytes of the service file

The file as `NodeIO` reads and writes it: two words in front, and from byte 100 on the images of
nodes, one as long as the other. Every I/O call succeeds.
-/

namespace TiPI.BLinkTree

variable {L : Nat}

/-! ### Images of nodes -/

/-- A number in the bytes of a packed structure. -/
def member (bytes : List UInt8) (offset size : Nat) : Nat :=
  ofLowBytes ((bytes.drop offset).take size)

/-- The first `n` words of a memory block. -/
def memBytes (mem : Memory) (n : Nat) : List UInt8 :=
  (List.range n).flatMap fun i => lowBytes 8 (mem i)

namespace BTNode

/-- The bytes of a node in memory. -/
def image (node : BTNode L) : List UInt8 :=
  lowBytes 8 node.self ++ (lowBytes 8 node.right ++ (lowBytes 8 node.highKey ++
    (lowBytes 4 node.flag.toNat ++ (lowBytes 8 node.buffSize ++ (lowBytes 8 node.keyBuffSize ++
      memBytes node.mem (blockWords L))))))

/-- The node whose bytes these are; behind it in memory is `fresh`. -/
def ofImage (L : Nat) (bytes : List UInt8) (fresh : Memory) : BTNode L where
  self := member bytes 0 8
  right := member bytes 8 8
  highKey := member bytes 16 8
  flag := BitVec.ofNat 32 (member bytes 24 4)
  buffSize := member bytes 28 8
  keyBuffSize := member bytes 36 8
  mem i := if i < blockWords L then member bytes (44 + 8 * i) 8 else fresh i

/-- The node with what lies behind its block replaced. -/
def behind (node : BTNode L) (fresh : Memory) : BTNode L :=
  { node with mem := fun i => if i < blockWords L then node.mem i else fresh i }

/-- All words of the node are words of 64 bits. -/
structure Fits (node : BTNode L) : Prop where
  self : node.self < 2 ^ 64
  right : node.right < 2 ^ 64
  highKey : node.highKey < 2 ^ 64
  buffSize : node.buffSize < 2 ^ 64
  keyBuffSize : node.keyBuffSize < 2 ^ 64
  mem : ∀ i, i < blockWords L → node.mem i < 2 ^ 64

end BTNode

lemma member_append_left {l l' : List UInt8} {o k : Nat} (h : o + k ≤ l.length) :
    member (l ++ l') o k = member l o k := by
  rw [member, member, List.drop_append_of_le_length (by omega), List.take_append_of_le_length]
  rw [List.length_drop]
  omega

lemma member_append_right {l l' : List UInt8} {o k : Nat} (h : l.length ≤ o) :
    member (l ++ l') o k = member l' (o - l.length) k := by
  rw [member, member, List.drop_append, List.drop_eq_nil_of_le h, List.nil_append]

lemma member_lowBytes {n k : Nat} (h : n < 256 ^ k) : member (lowBytes k n) 0 k = n := by
  rw [member, List.drop_zero, List.take_of_length_le (by simp), ofLowBytes_lowBytes h]

lemma memBytes_succ (mem : Memory) (n : Nat) :
    memBytes mem (n + 1) = memBytes mem n ++ lowBytes 8 (mem n) := by
  simp [memBytes, List.range_succ]

@[simp] lemma length_memBytes (mem : Memory) (n : Nat) : (memBytes mem n).length = 8 * n := by
  induction n with
  | zero => rfl
  | succ n ih =>
    rw [memBytes_succ, List.length_append, ih, length_lowBytes]
    omega

lemma member_memBytes {mem : Memory} {n i : Nat} (hi : i < n) (h : mem i < 2 ^ 64) :
    member (memBytes mem n) (8 * i) 8 = mem i := by
  induction n with
  | zero => omega
  | succ n ih =>
    rw [memBytes_succ]
    rcases Nat.lt_succ_iff_lt_or_eq.1 hi with hlt | rfl
    · rw [member_append_left (by rw [length_memBytes]; omega), ih hlt]
    · rw [member_append_right (length_memBytes mem i).le, length_memBytes, Nat.sub_self]
      exact member_lowBytes h

namespace BTNode

@[simp] lemma length_image (node : BTNode L) : node.image.length = NODE_SIZE L := by
  simp only [image, List.length_append, length_lowBytes, length_memBytes, NODE_SIZE]
  omega

lemma ofImage_image {node : BTNode L} (h : node.Fits) (fresh : Memory) :
    ofImage L node.image fresh = node.behind fresh := by
  have hflag : node.flag.toNat < 256 ^ 4 := node.flag.isLt
  simp only [ofImage, behind, BTNode.mk.injEq, image]
  refine ⟨?_, ?_, ?_, ?_, ?_, ?_, ?_⟩
  · rw [member_append_left (by simp)]
    exact member_lowBytes h.self
  · rw [member_append_right (by simp), member_append_left (by simp), length_lowBytes]
    exact member_lowBytes h.right
  · simp (disch := simp) only [member_append_right, member_append_left, length_lowBytes]
    exact member_lowBytes h.highKey
  · simp (disch := simp) only [member_append_right, member_append_left, length_lowBytes]
    rw [member_lowBytes hflag, BitVec.ofNat_toNat, BitVec.setWidth_eq]
  · simp (disch := simp) only [member_append_right, member_append_left, length_lowBytes]
    exact member_lowBytes h.buffSize
  · simp (disch := simp) only [member_append_right, member_append_left, length_lowBytes]
    exact member_lowBytes h.keyBuffSize
  · funext i
    split_ifs with hi
    · simp (disch := (rw [length_lowBytes]; omega)) only [member_append_right, length_lowBytes]
      have hoff : 44 + 8 * i - 8 - 8 - 8 - 4 - 8 - 8 = 8 * i := by omega
      rw [hoff]
      exact member_memBytes hi (h.mem i hi)
    · rfl

end BTNode

/-! ### The file -/

/-- The file behind a `NodeIO`, byte by byte. -/
abbrev FileBytes := List UInt8

namespace FileBytes

/-- The buffer of `createEmptyServiceFile`, set member by member at its `offset_of`. -/
def rootImage (L : Nat) (buff : List UInt8) : List UInt8 :=
  let buff := pwrite buff 0 (lowBytes 8 INITIAL_ROOT_OFFSET)
  let buff := pwrite buff 36 (lowBytes 8 0)
  let buff := pwrite buff 44 (List.replicate (8 * (2 * L)) 0)
  let buff := pwrite buff 8 (lowBytes 8 INVALID_OFFSET)
  let buff := pwrite buff 16 (lowBytes 8 0)
  let buff := pwrite buff 24 (lowBytes 4 (ROOT_NODE ||| LEAF_NODE).toNat)
  let buff := pwrite buff 28 (lowBytes 8 0)
  pwrite buff (44 + 8 * (2 * L)) (List.replicate (16 * (2 * L)) 0)

/-- `buff` is what the buffer of `NODE_SIZE` bytes holds before it is set. -/
def createEmptyServiceFile (L : Nat) (buff : List UInt8) : FileBytes :=
  let file := pwrite [] 0 (lowBytes 8 INITIAL_ROOT_OFFSET)
  let file := pwrite file 8 (lowBytes 8 (INITIAL_ROOT_OFFSET + NODE_SIZE L))
  pwrite file INITIAL_ROOT_OFFSET (rootImage L buff)

variable (L) in
def readNode (file : FileBytes) (offset : Offset) (fresh : Memory) : Option (BTNode L) :=
  (pread file offset (NODE_SIZE L)).map fun bytes => .ofImage L bytes fresh

def writeNode (file : FileBytes) (current : BTNode L) : FileBytes :=
  pwrite file current.self current.image

def setRootOffset (file : FileBytes) (newRoot : Offset) : FileBytes :=
  pwrite file 0 (lowBytes 8 newRoot)

def getRootOffset (file : FileBytes) : Option Offset := (pread file 0 8).map ofLowBytes

/-- `addNode` with its arithmetic on `size_t`. -/
def addNode (L : Nat) (file : FileBytes) : Option (Offset × FileBytes) :=
  (pread file 8 8).map fun bytes =>
    let newNodeOffset := (ofLowBytes bytes + NODE_SIZE L) % 2 ^ 64
    ((newNodeOffset + (2 ^ 64 - NODE_SIZE L % 2 ^ 64)) % 2 ^ 64,
      pwrite file 8 (lowBytes 8 newNodeOffset))

end FileBytes

/-! ### The first root -/

lemma blockWords_eq (hL : 0 < L) : blockWords L = 6 * L := by
  rw [blockWords, Nat.max_eq_right (by omega)]
  omega

lemma member_eq {bytes b : List UInt8} {o k : Nat} (h : pread bytes o k = some b) :
    member bytes o k = ofLowBytes b := by
  rw [pread] at h
  split at h
  · rw [member, Option.some.inj h]
  · cases h

lemma ofLowBytes_replicate_zero (k : Nat) : ofLowBytes (List.replicate k 0) = 0 := by
  induction k with
  | zero => rfl
  | succ k ih =>
    rw [List.replicate_succ, ofLowBytes, ih]
    rfl

/-- Eight zeros of a block of zeros. -/
lemma member_of_zeros {bytes : List UInt8} {o n i : Nat}
    (h : pread bytes o (8 * n) = some (List.replicate (8 * n) 0)) (hi : i < n) :
    member bytes (o + 8 * i) 8 = 0 := by
  rw [member_eq (pread_part h (k := 8) (o := 8 * i) (by omega)), List.drop_replicate,
    List.take_replicate, ofLowBytes_replicate_zero]

namespace FileBytes

variable {buff : List UInt8}

lemma length_rootImage (hL : 0 < L) (hbuff : buff.length = NODE_SIZE L) :
    (rootImage L buff).length = NODE_SIZE L := by
  have hset : ∀ {buff : List UInt8} {o : Nat} {bytes : List UInt8}, buff.length = NODE_SIZE L →
      o + bytes.length ≤ NODE_SIZE L → (pwrite buff o bytes).length = NODE_SIZE L := by
    intro buff o bytes hlen hle
    rw [length_pwrite_of_le (by rwa [hlen]), hlen]
  have hsize : NODE_SIZE L = 44 + 48 * L := by
    rw [NODE_SIZE, blockWords_eq hL]
    omega
  unfold rootImage
  iterate 8 refine hset ?_ (by simp only [length_lowBytes, List.length_replicate]; omega)
  exact hbuff

/-- What the assignments to the members leave at each: none of the later ones touches it. -/
lemma pread_rootImage (hL : 0 < L) (buff : List UInt8) :
    pread (rootImage L buff) 0 8 = some (lowBytes 8 INITIAL_ROOT_OFFSET) ∧
    pread (rootImage L buff) 8 8 = some (lowBytes 8 INVALID_OFFSET) ∧
    pread (rootImage L buff) 16 8 = some (lowBytes 8 0) ∧
    pread (rootImage L buff) 24 4 = some (lowBytes 4 (ROOT_NODE ||| LEAF_NODE).toNat) ∧
    pread (rootImage L buff) 28 8 = some (lowBytes 8 0) ∧
    pread (rootImage L buff) 36 8 = some (lowBytes 8 0) ∧
    pread (rootImage L buff) 44 (8 * (2 * L)) = some (List.replicate (8 * (2 * L)) 0) ∧
    pread (rootImage L buff) (44 + 8 * (2 * L)) (8 * (4 * L)) =
      some (List.replicate (8 * (4 * L)) 0) := by
  have hlow := fun k n => length_lowBytes k n
  have hlen := fun k => List.length_replicate (n := k) (a := (0 : UInt8))
  unfold rootImage
  refine ⟨?_, ?_, ?_, ?_, ?_, ?_, ?_, ?_⟩
  · iterate 7 refine pread_pwrite_of_disjoint ?_ (by simp only [hlow, hlen]; omega)
    exact pread_pwrite_self (length_lowBytes _ _) (by decide)
  · iterate 4 refine pread_pwrite_of_disjoint ?_ (by simp only [hlow, hlen]; omega)
    exact pread_pwrite_self (length_lowBytes _ _) (by decide)
  · iterate 3 refine pread_pwrite_of_disjoint ?_ (by simp only [hlow, hlen]; omega)
    exact pread_pwrite_self (length_lowBytes _ _) (by decide)
  · iterate 2 refine pread_pwrite_of_disjoint ?_ (by simp only [hlow, hlen]; omega)
    exact pread_pwrite_self (length_lowBytes _ _) (by decide)
  · refine pread_pwrite_of_disjoint ?_ (.inl (by omega))
    exact pread_pwrite_self (length_lowBytes _ _) (by decide)
  · iterate 6 refine pread_pwrite_of_disjoint ?_ (by simp only [hlow, hlen]; omega)
    exact pread_pwrite_self (length_lowBytes _ _) (by decide)
  · iterate 5 refine pread_pwrite_of_disjoint ?_ (by simp only [hlow, hlen]; omega)
    exact pread_pwrite_self List.length_replicate (by omega)
  · have hunion : 16 * (2 * L) = 8 * (4 * L) := by omega
    rw [hunion]
    exact pread_pwrite_self List.length_replicate (by omega)

lemma ofImage_rootImage (hL : 0 < L) (buff : List UInt8) (fresh : Memory) :
    .ofImage L (rootImage L buff) fresh = (rootLeaf L).behind fresh := by
  obtain ⟨hself, hright, hkey, hflag, hsize, hkeys, hbuff, hunion⟩ := pread_rootImage hL buff
  simp only [BTNode.ofImage, BTNode.behind, BTNode.mk.injEq, rootLeaf]
  refine ⟨?_, ?_, ?_, ?_, ?_, ?_, ?_⟩
  · rw [member_eq hself, ofLowBytes_lowBytes (by decide)]
  · rw [member_eq hright, ofLowBytes_lowBytes (by decide)]
  · rw [member_eq hkey, ofLowBytes_lowBytes (by decide)]
  · rw [member_eq hflag, ofLowBytes_lowBytes (by decide)]
    rfl
  · rw [member_eq hsize, ofLowBytes_lowBytes (by decide)]
  · rw [member_eq hkeys, ofLowBytes_lowBytes (by decide)]
  · funext i
    split_ifs with hi
    · rw [blockWords_eq hL] at hi
      rcases Nat.lt_or_ge i (2 * L) with hlt | hge
      · exact member_of_zeros hbuff hlt
      · have hoff : 44 + 8 * i = 44 + 8 * (2 * L) + 8 * (i - 2 * L) := by omega
        rw [hoff]
        exact member_of_zeros hunion (by omega)
    · rfl

end FileBytes

end TiPI.BLinkTree
