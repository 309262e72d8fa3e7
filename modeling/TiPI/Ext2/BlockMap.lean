import TiPI.Ext2.Blocks
import TiPI.Ext2.Effects

/-!
# The block map

Which block the tables of an inode name for a logical block, and when `Inode::nextBlock` finds it,
for all block sizes that `BLCK_SIZE` can hold.
-/

namespace TiPI.Ext2

/-- A block size `1024 << k` that an `int32_t` can hold. -/
def FitsBlckSize (b : Nat) : Prop := ∃ k ≤ 20, b = 1024 * 2 ^ k

lemma FitsBlckSize.quarters {b : Nat} (h : FitsBlckSize b) :
    b = 4 * (b / 4) ∧ 256 ≤ b / 4 ∧ b / 4 ≤ 2 ^ 28 := by
  obtain ⟨k, hk, rfl⟩ := h
  have hlo : 1 ≤ 2 ^ k := Nat.one_le_two_pow
  have hhi : 2 ^ k ≤ 2 ^ 20 := Nat.pow_le_pow_right (by decide) hk
  omega

/-- A block address: the 32 bits of a pointer, unsigned. -/
def unsigned (x : Int) : Nat := (x % 2 ^ 32).toNat

/-- Entry `n` of the block at address `a`. -/
def entry (image : Image) (b a n : Nat) : Nat := word (image.bytes (a * b) b) (4 * n)

namespace Inode

variable (ino : Inode) (b : Nat)

/-- The index of a doubly indirect block among those. -/
def doubleInd : Nat := ino.ind - 12 - b / 4

/-- What the tables of the inode say for the block it stands at. -/
def blockMap (image : Image) : Int :=
  if h : ino.ind < 12 then ino.directBlock ⟨ino.ind, h⟩
  else if ino.ind < 12 + b / 4 then
    int32 (entry image b (unsigned ino.singlyIbp) (ino.ind - 12))
  else
    int32 (entry image b
      (entry image b (unsigned ino.doublyIbp) (ino.doubleInd b / (b / 4)))
      (ino.doubleInd b % (b / 4)))

/-- The image has the tables that the block map looks at; the second one is at address `e`. -/
structure Tables (image : Image) (e : Nat) : Prop where
  single : 12 ≤ ino.ind → ino.ind < 12 + b / 4 →
    image.Holds (unsigned ino.singlyIbp * b : Nat) b
  double : 12 + b / 4 ≤ ino.ind → image.Holds (unsigned ino.doublyIbp * b : Nat) b ∧
    entry image b (unsigned ino.doublyIbp) (ino.doubleInd b / (b / 4)) = e ∧
    image.Holds (e * b : Nat) b

/-- The products of addresses and block size do not overflow. Behind the singly indirect blocks the
descriptor table, whose size stands in place of the block size, must be as long as a block, and the
block not longer than the format has them: for longer ones the reader returns `0`. -/
def Reached (g : Globals) (e : Nat) : Prop :=
  ino.ind < 12 ∨
  (ino.ind < 12 + b / 4 ∧ unsigned ino.singlyIbp * b < 2 ^ 31) ∨
  (12 + b / 4 ≤ ino.ind ∧
    if b ≤ 2 ^ 16 then
      g.bgdtSize = b ∧ unsigned ino.doublyIbp * b < 2 ^ 31 ∧ e * b < 2 ^ 31
    else
      unsigned ino.doublyIbp = 0 ∧ e = 0 ∧ ino.doubleInd b / (b / 4) = ino.doubleInd b % (b / 4))

end Inode

variable {image : Image} {g : Globals} {b e : Nat} {ino : Inode} {w : World}

/-! ### Products -/

lemma int32_add_mul (x z : Int) : int32 (x + 2 ^ 32 * z) = int32 x := by
  unfold int32
  exact Int.add_mul_bmod_self_left x (2 ^ 32) z

lemma int32_unsigned_mul (x : Int) (n : Nat) : int32 (x * n) = int32 (unsigned x * n : Nat) := by
  have hx : x = unsigned x + 2 ^ 32 * (x / 2 ^ 32) := by
    unfold unsigned
    omega
  calc int32 (x * n) = int32 ((unsigned x * n : Nat) + 2 ^ 32 * (x / 2 ^ 32 * n)) := by
        congr 1
        rw [Int.natCast_mul]
        conv_lhs => rw [hx]
        rw [Int.add_mul, Int.mul_assoc]
    _ = _ := int32_add_mul _ _

lemma unsigned_int32 {n : Nat} (h : n < 2 ^ 32) : unsigned (int32 n) = n := by
  unfold unsigned int32
  rw [Int.bmod_def]
  split <;> omega

lemma unsigned_lt (x : Int) : unsigned x < 2 ^ 32 := by
  unfold unsigned
  omega

/-- A product that wraps is somewhere else, in front of `2 ^ 31`. -/
lemma int32_lt (x : Int) : int32 x < 2 ^ 31 := by
  unfold int32
  have h := Int.bmod_lt (x := x) (m := 2 ^ 32) (by decide)
  omega

lemma four_dvd_int32 {x : Int} (h : 4 ∣ x) : 4 ∣ int32 x := by
  have hmod := Int.emod_add_mul_ediv x (2 ^ 32)
  unfold int32
  rw [Int.bmod_def]
  split <;> omega

/-! ### The steps of the reader -/

lemma Inode.double_lt (h : FitsBlckSize b) (hin : ino.ind < 12 + b / 4 + b / 4 * (b / 4)) :
    ino.doubleInd b / (b / 4) < b / 4 ∧ ino.doubleInd b % (b / 4) < b / 4 := by
  obtain ⟨-, hpos, -⟩ := h.quarters
  have hquarter : 0 < b / 4 := by omega
  have hsquare : 0 < b / 4 * (b / 4) := Nat.mul_pos hquarter hquarter
  refine ⟨Nat.div_lt_of_lt_mul ?_, Nat.mod_lt _ hquarter⟩
  unfold doubleInd
  omega

lemma limit_eq (h : FitsBlckSize b) :
    sizeT (int32 (12 + (int32 (((b : Int).tdiv 4 + 1) * b)).tdiv 4)) =
      if b ≤ 2 ^ 16 then 12 + b / 4 + b / 4 * (b / 4) else 12 + b / 4 := by
  obtain ⟨k, hk, rfl⟩ := h
  have hall : ∀ k < 21, sizeT (int32 (12 + (int32 ((((1024 * 2 ^ k : Nat) : Int).tdiv 4 + 1) *
      (1024 * 2 ^ k : Nat))).tdiv 4)) =
        if 1024 * 2 ^ k ≤ 2 ^ 16 then 12 + 1024 * 2 ^ k / 4 + 1024 * 2 ^ k / 4 * (1024 * 2 ^ k / 4)
        else 12 + 1024 * 2 ^ k / 4 := by
    decide
  exact hall k (Nat.lt_succ_of_le hk)

section

variable (hb : g.blckSize = b) (h : FitsBlckSize b)
  (hend : ¬ sizeT ino.size < sizeT (ino.ind * g.blckSize)) (hlo : 12 ≤ ino.ind)

include hb h hend hlo

lemma nextBlock_single (hhi : ino.ind < 12 + b / 4) : ino.nextBlock image g =
    (Inode.layer image g "indirect1 Inode::nextBlock::pread() : " ino.singlyIbp >>= fun layer1 =>
      load32 layer1 (4 * (ino.ind - 12))) := by
  obtain ⟨h4, -, hle⟩ := h.quarters
  have hbound := single_limit hb (by omega)
  simp [Inode.nextBlock, hend, Nat.not_lt.2 hlo, hbound, hhi]

lemma nextBlock_double (hge : 12 + b / 4 ≤ ino.ind) (hhi : ino.ind < 12 + b / 4 + b / 4 * (b / 4)) :
    ino.nextBlock image g =
      if b ≤ 2 ^ 16 then
        Inode.layer image g "indirect2.1 Inode::nextBlock::pread() : "
          ino.doublyIbp >>= fun layer1 =>
          load32 layer1 (4 * (sizeT (ino.ind - 12 - g.bgdtSize.tdiv 4) / (b / 4))) >>= fun ptr =>
          Inode.layer image g "indirect2.2 Inode::nextBlock::pread() : " ptr >>= fun layer2 =>
          load32 layer2 (4 * (sizeT (ino.ind - 12 - g.bgdtSize.tdiv 4) % (b / 4)))
      else pure 0 := by
  obtain ⟨h4, -, hle⟩ := h.quarters
  have hbound := single_limit hb (by omega)
  have hquarter : sizeT ((b : Int).tdiv 4) = b / 4 := sizeT_of_lt (n := b / 4) (by omega)
  rw [hb] at hend hbound
  by_cases h16 : b ≤ 2 ^ 16
  · have hlimit := limit_eq h
    rw [if_pos h16] at hlimit
    simp only [Inode.nextBlock, hb, hend, Nat.not_lt.2 hlo, hbound, Nat.not_lt.2 hge, hlimit, hhi,
      hquarter, if_pos h16]
    simp
  · have hlimit := limit_eq h
    rw [if_neg h16] at hlimit
    simp only [Inode.nextBlock, hb, hend, Nat.not_lt.2 hlo, hbound, Nat.not_lt.2 hge, hlimit,
      if_neg h16]
    simp

end

/-! ### What the reader finds -/

/-- A block of pointers below 2 GiB is read, and an entry taken from it. -/
lemma run_entry {α : Type} (what : String) {block : Int} {n : Nat} (f : Int → Call α)
    (hb : g.blckSize = b) (hlt : b < 2 ^ 31) (hn : 4 * n + 4 ≤ b)
    (hbelow : unsigned block * b < 2 ^ 31) (hholds : image.Holds (unsigned block * b : Nat) b)
    (herrno : w.errno = 0) :
    (Inode.layer image g what block >>= fun buff => load32 buff (4 * n) >>= f).run w =
      (f (int32 (entry image b (unsigned block) n))).run w := by
  have hoffset : int32 (block * b) = (unsigned block * b : Nat) :=
    (int32_unsigned_mul block b).trans (int32_of_lt hbelow)
  have hlayer : (Inode.layer image g what block).run w = _ :=
    run_layer what hb hlt herrno (by rwa [hoffset])
  rw [hoffset, Int.toNat_natCast] at hlayer
  have hload := run_load32 (w := w) (image.bytes (unsigned block * b) b) (i := 4 * n)
    (by rwa [Image.length_bytes])
  rw [EStateM.run_bind, hlayer]
  simp only
  rw [EStateM.run_bind, hload]
  rfl

lemma run_nextBlock_of_reached (hb : g.blckSize = b) (h : FitsBlckSize b)
    (hend : ¬ sizeT ino.size < sizeT (ino.ind * g.blckSize))
    (hin : ino.ind < 12 + b / 4 + b / 4 * (b / 4)) (hreached : ino.Reached b g e)
    (htables : ino.Tables b image e) (herrno : w.errno = 0) :
    (ino.nextBlock image g).run w = .ok (ino.blockMap b image) w := by
  obtain ⟨h4, hpos, hle⟩ := h.quarters
  have hlt : b < 2 ^ 31 := by omega
  rcases hreached with hdirect | ⟨hhi, hsingle⟩ | ⟨hge, hdouble⟩
  · rw [run_nextBlock_direct hend hdirect, Inode.blockMap, dif_pos hdirect]
  · by_cases hdirect : ino.ind < 12
    · rw [run_nextBlock_direct hend hdirect, Inode.blockMap, dif_pos hdirect]
    · have hlo := Nat.not_lt.1 hdirect
      rw [nextBlock_single hb h hend hlo hhi, Inode.blockMap, dif_neg hdirect, if_pos hhi]
      have hrun := run_entry (n := ino.ind - 12) (w := w)
        "indirect1 Inode::nextBlock::pread() : " (pure : Int → Call Int) hb hlt (by omega) hsingle
        (htables.single hlo hhi) herrno
      simpa using hrun
  · have hlo : 12 ≤ ino.ind := by omega
    obtain ⟨hfirst, hentry, hsecond⟩ := htables.double hge
    obtain ⟨hquot, hrem⟩ := Inode.double_lt h hin
    have he : e < 2 ^ 32 := by
      rw [← hentry]
      exact word_lt _ _
    rw [nextBlock_double hb h hend hlo hge hin, Inode.blockMap, dif_neg (Nat.not_lt.2 hlo),
      if_neg (Nat.not_lt.2 hge), hentry]
    split_ifs at hdouble ⊢ with h16
    · obtain ⟨hbgdt, hbelow, hbelow'⟩ := hdouble
      have hind : sizeT (ino.ind - 12 - g.bgdtSize.tdiv 4) = ino.doubleInd b := by
        have hdiv : (b : Int).tdiv 4 = ((b / 4 : Nat) : Int) := rfl
        have hcast : (ino.ind : Int) - 12 - ((b / 4 : Nat) : Int) = (ino.doubleInd b : Nat) := by
          unfold Inode.doubleInd
          omega
        have hbound : b / 4 * (b / 4) ≤ 2 ^ 28 * 2 ^ 28 := Nat.mul_le_mul hle hle
        rw [hbgdt, hdiv, hcast]
        apply sizeT_of_lt
        unfold Inode.doubleInd
        omega
      rw [hind, run_entry _ _ hb hlt (by omega) hbelow hfirst herrno, hentry]
      have hunsigned := unsigned_int32 he
      rw [← hunsigned] at hbelow' hsecond
      have hrun := run_entry (n := ino.doubleInd b % (b / 4)) (w := w)
        "indirect2.2 Inode::nextBlock::pread() : " (pure : Int → Call Int) hb hlt (by omega)
        hbelow' hsecond herrno
      rw [unsigned_int32 he] at hrun
      simpa using hrun
    · -- the entry looked for is the pointer `0` that leads to it
      obtain ⟨hzero, rfl, heq⟩ := hdouble
      rw [← heq, ← hzero, hentry, EStateM.run_pure]
      rfl

/-! ### Images made of words -/

/-- The image whose word `x` is `f x`. -/
def Image.ofWords (f : Nat → Nat) : Image where
  length := 2 ^ 70
  byte o := UInt8.ofNat (f (o / 4) / 2 ^ (8 * (o % 4)))

variable {f : Nat → Nat}

lemma getD_ofWords {q c n r : Nat} (hr : r < 4) (hn : 4 * n + 4 ≤ c) :
    (((Image.ofWords f).bytes (4 * q) c).getD (4 * n + r) 0).toNat =
      f (q + n) / 2 ^ (8 * r) % 2 ^ 8 := by
  have hlt : 4 * n + r < c := by omega
  have hdiv : (4 * q + (4 * n + r)) / 4 = q + n := by omega
  simp [Image.bytes, Image.ofWords, hlt, hdiv, Nat.mod_eq_of_lt hr]

lemma word_ofWords (hf : ∀ x, f x < 2 ^ 32) {q c n : Nat} (hn : 4 * n + 4 ≤ c) :
    word ((Image.ofWords f).bytes (4 * q) c) (4 * n) = f (q + n) := by
  have h0 := getD_ofWords (f := f) (q := q) (r := 0) (by decide) hn
  have h1 := getD_ofWords (f := f) (q := q) (r := 1) (by decide) hn
  have h2 := getD_ofWords (f := f) (q := q) (r := 2) (by decide) hn
  have h3 := getD_ofWords (f := f) (q := q) (r := 3) (by decide) hn
  have hlt := hf (q + n)
  rw [Nat.add_zero] at h0
  rw [word, h0, h1, h2, h3]
  omega

lemma entry_ofWords (hf : ∀ x, f x < 2 ^ 32) (h : FitsBlckSize b) {a n : Nat} (hn : n < b / 4) :
    entry (Image.ofWords f) b a n = f (a * (b / 4) + n) := by
  obtain ⟨h4, -, -⟩ := h.quarters
  have hoffset : a * b = 4 * (a * (b / 4)) := by
    conv_lhs => rw [h4]
    rw [Nat.mul_left_comm]
  rw [entry, hoffset, word_ofWords hf (by omega)]

lemma holds_ofWords (h : FitsBlckSize b) {a : Nat} (ha : a < 2 ^ 32) :
    (Image.ofWords f).Holds (a * b : Nat) b := by
  obtain ⟨h4, -, hle⟩ := h.quarters
  have hmul : a * b ≤ 2 ^ 32 * 2 ^ 30 := Nat.mul_le_mul ha.le (by omega)
  refine ⟨Int.natCast_nonneg _, ?_⟩
  show b ≤ 2 ^ 70 - a * b
  omega

/-! ### What the reader has looked at when it returns -/

lemma layer_ok {what : String} {block : Int} {buff : List UInt8} {w' : World}
    (hb : g.blckSize = b) (herrno : w.errno = 0)
    (hrun : (Inode.layer image g what block).run w = .ok buff w') :
    0 ≤ int32 (block * b) ∧ buff = image.bytes (int32 (block * b)).toNat b ∧ w' = w := by
  obtain ⟨_, v, hnew, hread⟩ := bind_ok hrun
  obtain rfl := newArray_ok hnew
  have hlen := preadAll_ok hread
  rw [hb] at hread hlen
  rw [Steady.run_preadAll_of_errno _ _ _ _ herrno] at hread
  split_ifs at hread with hneg hcount
  · have hmin : min (sizeT (b : Int)) (image.length - (int32 (block * b)).toNat) = b :=
      Int.ofNat.inj hcount
    rw [hmin] at hread
    cases hread
    exact ⟨Int.not_lt.1 hneg, rfl, rfl⟩

/-- The reader finds the block at address `a` at word `q`. -/
def Place (b a q : Nat) : Prop := int32 (a * b : Nat) = (4 * q : Nat)

/-- That is where the address says, or far in front of it. -/
lemma Place.cases (h : FitsBlckSize b) {a q : Nat} (hplace : Place b a q) :
    (a * b < 2 ^ 31 ∧ q = a * (b / 4)) ∨ (2 ^ 31 ≤ a * b ∧ q + 2 ^ 30 ≤ a * (b / 4)) := by
  obtain ⟨h4, -, -⟩ := h.quarters
  have hoffset : a * b = 4 * (a * (b / 4)) := by
    conv_lhs => rw [h4]
    rw [Nat.mul_left_comm]
  unfold Place at hplace
  generalize a * (b / 4) = n at hoffset ⊢
  rw [hoffset] at hplace ⊢
  have hlt := int32_lt (4 * n : Nat)
  have hmod : (int32 (4 * n : Nat)) % 2 ^ 32 = (4 * n : Nat) % 2 ^ 32 := Int.bmod_emod
  omega

/-- The last address is in front of every image. -/
lemma not_place_last (h : FitsBlckSize b) (q : Nat) : ¬Place b (2 ^ 32 - 1) q := by
  obtain ⟨h4, hpos, hle⟩ := h.quarters
  have hwrap : (((2 ^ 32 - 1) * b : Nat) : Int) = -b + 2 ^ 32 * b := by omega
  rw [Place, hwrap, int32_add_mul, int32_of_bounds (by omega) (by omega)]
  omega

lemma exists_place (h : FitsBlckSize b) {block : Int} (hpos : 0 ≤ int32 (block * b)) :
    ∃ q, Place b (unsigned block) q ∧ (int32 (block * b)).toNat = 4 * q := by
  obtain ⟨h4, -, -⟩ := h.quarters
  have hdvd : (4 : Int) ∣ int32 (block * b) := by
    apply four_dvd_int32
    exact Int.dvd_mul_of_dvd_right ⟨(b / 4 : Nat), by omega⟩
  refine ⟨(int32 (block * b)).toNat / 4, ?_, ?_⟩
  · rw [Place, ← int32_unsigned_mul]
    omega
  · omega

/-- An entry that was taken is the word at the place of the block. -/
lemma entry_ok {α : Type} {what : String} {block : Int} {n : Nat} {k : Int → Call α} {a : α}
    {w' : World} (hb : g.blckSize = b) (h : FitsBlckSize b) (hf : ∀ x, f x < 2 ^ 32)
    (herrno : w.errno = 0)
    (hrun : (Inode.layer (Image.ofWords f) g what block >>= fun buff =>
      load32 buff (4 * n) >>= k).run w = .ok a w') :
    n < b / 4 ∧ ∃ q, Place b (unsigned block) q ∧ (k (int32 (f (q + n)))).run w = .ok a w' := by
  obtain ⟨h4, -, hle⟩ := h.quarters
  obtain ⟨buff, v, hlayer, hrest⟩ := bind_ok hrun
  obtain ⟨hpos, rfl, rfl⟩ := layer_ok hb herrno hlayer
  obtain ⟨x, u, hload, hk⟩ := bind_ok hrest
  have hbound := load32_ok hload
  rw [Image.length_bytes] at hbound
  rw [run_load32 _ (by rwa [Image.length_bytes])] at hload
  obtain ⟨rfl, rfl⟩ := EStateM.Result.ok.inj hload
  obtain ⟨q, hplace, hq⟩ := exists_place h hpos
  rw [hq, word_ofWords hf hbound] at hk
  exact ⟨by omega, q, hplace, hk⟩

lemma last_entry_ok {what : String} {block : Int} {n : Nat} {a : Int} {w' : World}
    (hb : g.blckSize = b) (h : FitsBlckSize b) (hf : ∀ x, f x < 2 ^ 32) (herrno : w.errno = 0)
    (hrun : (Inode.layer (Image.ofWords f) g what block >>= fun buff => load32 buff (4 * n)).run w =
      .ok a w') : ∃ q, Place b (unsigned block) q ∧ int32 (f (q + n)) = a := by
  have hbind : (Inode.layer (Image.ofWords f) g what block >>= fun buff =>
      load32 buff (4 * n) >>= pure).run w = .ok a w' := by
    simpa only [bind_pure] using hrun
  obtain ⟨-, q, hplace, hres⟩ := entry_ok hb h hf herrno hbind
  exact ⟨q, hplace, (EStateM.Result.ok.inj hres).1⟩

/-! ### Images on which it goes wrong -/

lemma int32_inj {m n : Nat} (hm : m < 2 ^ 32) (hn : n < 2 ^ 32) (h : int32 m = int32 n) :
    m = n := by
  rw [← unsigned_int32 hm, ← unsigned_int32 hn, h]

/-- Words of which one is given, and the others are all the same. -/
lemma exists_word (x : Nat) {e t : Nat} (he : e < 2 ^ 32) (ht : t < 2 ^ 32) :
    ∃ f : Nat → Nat, (∀ z, f z < 2 ^ 32) ∧ f x = e ∧ ∀ z, z ≠ x → f z = t := by
  refine ⟨fun z => if z = x then e else t, fun z => ?_, if_pos rfl, fun z hz => if_neg hz⟩
  simp only
  split_ifs <;> assumption

/-- Words of which one is given, and no two are the same as a second one. -/
lemma exists_words (x y : Nat) {e : Nat} (he : e < 2 ^ 32) :
    ∃ f : Nat → Nat, (∀ z, f z < 2 ^ 32) ∧ f x = e ∧ ∀ z, f z = f y → z = y := by
  obtain ⟨s, t, hst, hse, hte, hs, ht⟩ :
      ∃ s t : Nat, s ≠ t ∧ s ≠ e ∧ t ≠ e ∧ s < 2 ^ 32 ∧ t < 2 ^ 32 := by
    by_cases h0 : e = 0
    · exact ⟨1, 2, by omega⟩
    · by_cases h1 : e = 1
      · exact ⟨0, 2, by omega⟩
      · exact ⟨0, 1, by omega⟩
  refine ⟨fun z => if z = x then e else if z = y then s else t, fun z => ?_, if_pos rfl, ?_⟩
  · simp only
    split_ifs <;> assumption
  · intro z hz
    by_contra hzy
    simp only [if_neg hzy] at hz
    split_ifs at hz with hzx hyx hyx
    · exact hzy (hzx.trans hyx.symm)
    · exact hse hz.symm
    · exact hte hz
    · exact hst hz.symm

namespace Inode

/-- The block map is what `nextBlock` returns, whatever the image holds besides the pointer `e`. -/
def Maps (g : Globals) (ino : Inode) (b e : Nat) : Prop :=
  ∀ image, ino.Tables b image e → ∀ w : World, w.errno = 0 →
    (ino.nextBlock image g).run w = .ok (ino.blockMap b image) w

section

variable (hb : g.blckSize = b) (h : FitsBlckSize b)
  (hend : ¬ sizeT ino.size < sizeT (ino.ind * g.blckSize)) (hlo : 12 ≤ ino.ind)
  (hmaps : ino.Maps g b e)

include hb h hend hlo hmaps

lemma single_of_maps (hhi : ino.ind < 12 + b / 4) : unsigned ino.singlyIbp * b < 2 ^ 31 := by
  have hn : ino.ind - 12 < b / 4 := by omega
  obtain ⟨f, hf, -, hinj⟩ := exists_words (e := 0)
    (unsigned ino.singlyIbp * (b / 4) + (ino.ind - 12))
    (unsigned ino.singlyIbp * (b / 4) + (ino.ind - 12)) (by decide)
  have hrun := hmaps (Image.ofWords f) ⟨fun _ _ => holds_ofWords h (unsigned_lt _),
    fun hge => absurd hhi (Nat.not_lt.2 hge)⟩ {} rfl
  rw [nextBlock_single hb h hend hlo hhi, blockMap, dif_neg (Nat.not_lt.2 hlo), if_pos hhi,
    entry_ofWords hf h hn] at hrun
  obtain ⟨q, hplace, hres⟩ := last_entry_ok hb h hf rfl hrun
  have heq := int32_inj (hf _) (hf _) hres
  rcases hplace.cases h with ⟨hbelow, -⟩ | ⟨-, hfar⟩
  · exact hbelow
  · have := hinj _ heq
    omega

section

variable (hge : 12 + b / 4 ≤ ino.ind) (hin : ino.ind < 12 + b / 4 + b / 4 * (b / 4))
  (he : e < 2 ^ 32)

include hge hin he

/-- What the reader looks at on an image of words when it returns the entry that is mapped. -/
lemma reads_of_maps (h16 : b ≤ 2 ^ 16) {f : Nat → Nat} (hf : ∀ x, f x < 2 ^ 32)
    (hfirst : f (unsigned ino.doublyIbp * (b / 4) + ino.doubleInd b / (b / 4)) = e) :
    sizeT (ino.ind - 12 - g.bgdtSize.tdiv 4) / (b / 4) < b / 4 ∧ ∃ q q',
      Place b (unsigned ino.doublyIbp) q ∧
      Place b (f (q + sizeT (ino.ind - 12 - g.bgdtSize.tdiv 4) / (b / 4))) q' ∧
      f (q' + sizeT (ino.ind - 12 - g.bgdtSize.tdiv 4) % (b / 4)) =
        f (e * (b / 4) + ino.doubleInd b % (b / 4)) := by
  obtain ⟨hquot, hrem⟩ := double_lt h hin
  have hentry : entry (Image.ofWords f) b (unsigned ino.doublyIbp)
      (ino.doubleInd b / (b / 4)) = e :=
    (entry_ofWords hf h hquot).trans hfirst
  have hrun := hmaps (Image.ofWords f) ⟨fun _ hhi => absurd hhi (Nat.not_lt.2 hge), fun _ =>
    ⟨holds_ofWords h (unsigned_lt _), hentry, holds_ofWords h he⟩⟩ {} rfl
  rw [nextBlock_double hb h hend hlo hge hin, if_pos h16, blockMap, dif_neg (Nat.not_lt.2 hlo),
    if_neg (Nat.not_lt.2 hge), hentry, entry_ofWords hf h hrem] at hrun
  generalize sizeT (ino.ind - 12 - g.bgdtSize.tdiv 4) = j at hrun ⊢
  obtain ⟨hlt, q, hplace, hrest⟩ := entry_ok hb h hf rfl hrun
  obtain ⟨q', hplace', hres⟩ := last_entry_ok hb h hf rfl hrest
  rw [unsigned_int32 (hf _)] at hplace'
  exact ⟨hlt, q, q', hplace, hplace', int32_inj (hf _) (hf _) hres⟩

lemma below_of_maps (h16 : b ≤ 2 ^ 16) : unsigned ino.doublyIbp * b < 2 ^ 31 ∧
    sizeT (ino.ind - 12 - g.bgdtSize.tdiv 4) / (b / 4) = ino.doubleInd b / (b / 4) := by
  -- all other words are an address in front of the image
  obtain ⟨f, hf, hfirst, hother⟩ :=
    exists_word (unsigned ino.doublyIbp * (b / 4) + ino.doubleInd b / (b / 4)) he
      (by decide : 2 ^ 32 - 1 < 2 ^ 32)
  obtain ⟨hlt, q, q', hplace, hplace', -⟩ :=
    reads_of_maps hb h hend hlo hmaps hge hin he h16 hf hfirst
  generalize sizeT (ino.ind - 12 - g.bgdtSize.tdiv 4) / (b / 4) = ind1 at hlt hplace' ⊢
  generalize ino.doubleInd b / (b / 4) = quot at hother ⊢
  by_cases heq : q + ind1 = unsigned ino.doublyIbp * (b / 4) + quot
  · rcases hplace.cases h with ⟨hbelow, rfl⟩ | ⟨-, hfar⟩
    · exact ⟨hbelow, Nat.add_left_cancel heq⟩
    · obtain ⟨-, -, hle⟩ := h.quarters
      omega
  · rw [hother _ heq] at hplace'
    exact absurd hplace' (not_place_last h q')

lemma second_of_maps (h16 : b ≤ 2 ^ 16) : e * b < 2 ^ 31 ∧
    sizeT (ino.ind - 12 - g.bgdtSize.tdiv 4) % (b / 4) = ino.doubleInd b % (b / 4) := by
  obtain ⟨hbelow, hind⟩ := below_of_maps hb h hend hlo hmaps hge hin he h16
  obtain ⟨f, hf, hfirst, hinj⟩ := exists_words
    (unsigned ino.doublyIbp * (b / 4) + ino.doubleInd b / (b / 4))
    (e * (b / 4) + ino.doubleInd b % (b / 4)) he
  obtain ⟨-, q, q', hplace, hplace', hres⟩ :=
    reads_of_maps hb h hend hlo hmaps hge hin he h16 hf hfirst
  have heq := hinj _ hres
  rcases hplace.cases h with ⟨-, rfl⟩ | ⟨hfar, -⟩
  · rw [hind, hfirst] at hplace'
    rcases hplace'.cases h with ⟨hbelow', rfl⟩ | ⟨-, hfar⟩
    · exact ⟨hbelow', Nat.add_left_cancel heq⟩
    · have hrem := Nat.mod_lt (sizeT (ino.ind - 12 - g.bgdtSize.tdiv 4))
        (show 0 < b / 4 by obtain ⟨-, hpos, -⟩ := h.quarters; omega)
      omega
  · exact absurd hbelow (Nat.not_lt.2 hfar)

lemma bgdtSize_of_maps (h16 : b ≤ 2 ^ 16) : g.bgdtSize = b := by
  obtain ⟨h4, -, hle⟩ := h.quarters
  obtain ⟨-, hquot⟩ := below_of_maps hb h hend hlo hmaps hge hin he h16
  obtain ⟨-, hrem⟩ := second_of_maps hb h hend hlo hmaps hge hin he h16
  have hsame : sizeT (ino.ind - 12 - g.bgdtSize.tdiv 4) = ino.doubleInd b := by
    rw [← Nat.div_add_mod (sizeT _) (b / 4), hquot, hrem, Nat.div_add_mod]
  obtain ⟨c, hc⟩ : (4 : Int) ∣ g.bgdtSize :=
    four_dvd_int32 (Int.dvd_mul_of_dvd_right (by decide))
  have hrange : -2 ^ 31 ≤ g.bgdtSize ∧ g.bgdtSize < 2 ^ 31 := by
    refine ⟨?_, int32_lt _⟩
    have := Int.le_bmod (x := g.numOfBlckGroups * 32) (m := 2 ^ 32) (by decide)
    unfold Globals.bgdtSize int32
    omega
  have hbound : b / 4 * (b / 4) ≤ 2 ^ 28 * 2 ^ 28 := Nat.mul_le_mul hle hle
  rw [hc] at hsame hrange ⊢
  rw [Int.mul_tdiv_cancel_left _ (by decide)] at hsame
  unfold sizeT doubleInd at hsame
  omega

lemma zero_of_maps (h16 : ¬b ≤ 2 ^ 16) : unsigned ino.doublyIbp = 0 ∧ e = 0 ∧
    ino.doubleInd b / (b / 4) = ino.doubleInd b % (b / 4) := by
  obtain ⟨hquot, hrem⟩ := double_lt h hin
  -- no other word is zero
  obtain ⟨f, hf, hfirst, hother⟩ :=
    exists_word (unsigned ino.doublyIbp * (b / 4) + ino.doubleInd b / (b / 4)) he
      (by decide : 1 < 2 ^ 32)
  have hentry : entry (Image.ofWords f) b (unsigned ino.doublyIbp)
      (ino.doubleInd b / (b / 4)) = e :=
    (entry_ofWords hf h hquot).trans hfirst
  have hrun := hmaps _ ⟨fun _ hhi => absurd hhi (Nat.not_lt.2 hge), fun _ =>
    ⟨holds_ofWords h (unsigned_lt _), hentry, holds_ofWords h he⟩⟩ {} rfl
  rw [nextBlock_double hb h hend hlo hge hin, if_neg h16, blockMap, dif_neg (Nat.not_lt.2 hlo),
    if_neg (Nat.not_lt.2 hge), hentry, entry_ofWords hf h hrem] at hrun
  have hzero := (int32_eq_zero (hf _)).1 (EStateM.Result.ok.inj hrun).1.symm
  have heq : e * (b / 4) + ino.doubleInd b % (b / 4) =
      unsigned ino.doublyIbp * (b / 4) + ino.doubleInd b / (b / 4) := by
    by_contra hne
    rw [hother _ hne] at hzero
    exact absurd hzero Nat.one_ne_zero
  rw [heq, hfirst] at hzero
  rw [hzero, Nat.zero_mul, Nat.zero_add] at heq
  generalize ino.doubleInd b / (b / 4) = quot at heq ⊢
  have hdouble : unsigned ino.doublyIbp = 0 := by
    by_contra hne
    have hmul := Nat.le_mul_of_pos_left (b / 4) (Nat.pos_of_ne_zero hne)
    omega
  rw [hdouble] at heq
  exact ⟨hdouble, hzero, by omega⟩

end

end

end Inode

instance (ino : Inode) (b : Nat) (g : Globals) (e : Nat) : Decidable (ino.Reached b g e) :=
  inferInstanceAs (Decidable (_ ∨ _ ∨ _))

/-- Exactly the blocks that are reached without a wrap and over a descriptor table of one block are
found by `nextBlock`. -/
theorem nextBlock_maps_iff {g : Globals} {ino : Inode} {b e : Nat} (hb : g.blckSize = b)
    (h : FitsBlckSize b) (hsize : ino.ind * b < ino.size) (hint64 : ino.size < 2 ^ 63)
    (hin : ino.ind < 12 + b / 4 + b / 4 * (b / 4)) (he : e < 2 ^ 32) :
    ino.Maps g b e ↔ ino.Reached b g e := by
  have hend : ¬ sizeT ino.size < sizeT (ino.ind * g.blckSize) := by
    have hcast : (ino.ind : Int) * b = (ino.ind * b : Nat) := (Int.natCast_mul _ _).symm
    rw [hcast] at hsize
    rw [hb, hcast, sizeT_of_lt (by omega)]
    unfold sizeT
    omega
  constructor
  · intro hmaps
    by_cases hdirect : ino.ind < 12
    · exact .inl hdirect
    · have hlo := Nat.not_lt.1 hdirect
      by_cases hhi : ino.ind < 12 + b / 4
      · exact .inr (.inl ⟨hhi, Inode.single_of_maps hb h hend hlo hmaps hhi⟩)
      · have hge := Nat.not_lt.1 hhi
        refine .inr (.inr ⟨hge, ?_⟩)
        split_ifs with h16
        · exact ⟨Inode.bgdtSize_of_maps hb h hend hlo hmaps hge hin he h16,
            (Inode.below_of_maps hb h hend hlo hmaps hge hin he h16).1,
            (Inode.second_of_maps hb h hend hlo hmaps hge hin he h16).1⟩
        · exact Inode.zero_of_maps hb h hend hlo hmaps hge hin he h16
  · intro hreached image htables w herrno
    exact run_nextBlock_of_reached hb h hend hin hreached htables herrno

/-- An inode with the doubly indirect block `5` that stands at a block. -/
def doubleAt (ind : Nat) : Inode where
  inode := 12
  type := 0
  size := 2 ^ 24
  ind := ind
  directBlock _ := 0
  singlyIbp := 0
  doublyIbp := 5
  direI := 0

/-- Thirty-two groups have a descriptor table of one block. -/
def manyGroups : Globals := { oneGroup with numOfBlckGroups := 32 }

theorem manyGroups_maps : (doubleAt 568).Maps manyGroups 1024 9 :=
  (@nextBlock_maps_iff manyGroups (doubleAt 568) 1024 9 rfl
    ⟨0, by decide, rfl⟩ (by decide) (by decide) (by decide) (by decide)).2 (by decide)

/-- Block `5` begins with the pointer `6`, block `6` with the pointer `7`, and its entry `248`
is `9`. -/
def oneGroupTables : Image := imageOf [(5120, 6), (6144, 7), (7136, 9)]

/-- The value that a call returns. -/
def returned {α : Type} : EStateM.Result Fault World α → Option α
  | .ok a _ => some a
  | .error _ _ => none

/-- With one group the first doubly indirect block is looked up `248` entries behind its own. -/
theorem oneGroup_misses : (doubleAt 268).Tables 1024 oneGroupTables 6 ∧
    (doubleAt 268).blockMap 1024 oneGroupTables = 7 ∧
    returned (((doubleAt 268).nextBlock oneGroupTables oneGroup).run {}) = some 9 := by
  refine ⟨⟨fun _ hhi => absurd hhi (by decide), fun _ => ?_⟩, ?_, ?_⟩
  · decide +kernel
  · decide +kernel
  · decide +kernel

end TiPI.Ext2
