import TiPI.DB.Pudge
import TiPI.Lib.RecordLog

/-!
# The table on disk

The files stand for a table at all times, also between the two writes of `Set`: a value that is
written over a longer one is found by a decoder as soon as it is there, any other one only by its
record in the index. A call that is killed between its writes, or in one that puts a value at the
end of the file, has been made or it has not. One that is killed in a write of the index can leave
files that cannot be opened.
-/

namespace TiPI.DB.Pudge

lemma bytes_injective : Function.Injective bytes := by
  intro s t h
  exact String.toByteArray_inj.1 (ByteArray.ext (Array.toList_inj.1 h))

lemma uint32_of_lt {n : Nat} (h : n < 2 ^ 32) : uint32 n = n := Nat.mod_eq_of_lt h

/-! ### Keys -/

/-- A key that is in a sorted list is the first that is not less. -/
lemma getElem?_findIdx {l : List (List UInt8)} {b : List UInt8} (hsorted : l.Pairwise (· ≤ ·))
    (hb : b ∈ l) : l[l.findIdx fun key => decide (b ≤ key)]? = some b := by
  obtain ⟨i, hi, hib⟩ := List.getElem_of_mem hb
  have hlt : (l.findIdx fun key => decide (b ≤ key)) < l.length :=
    List.findIdx_lt_length_of_exists ⟨b, hb, by simp⟩
  have hge : b ≤ l[l.findIdx fun key => decide (b ≤ key)] :=
    of_decide_eq_true (List.findIdx_getElem (w := hlt))
  have hle : (l.findIdx fun key => decide (b ≤ key)) ≤ i := by
    by_contra hi'
    have hnot := List.not_of_lt_findIdx (Nat.lt_of_not_ge hi')
    simp [hib] at hnot
  generalize (l.findIdx fun key => decide (b ≤ key)) = f at hlt hge hle ⊢
  rw [List.getElem?_eq_getElem hlt]
  congr 1
  refine List.le_antisymm ?_ hge
  rcases Nat.eq_or_lt_of_le hle with rfl | hlt'
  · rw [hib]
    exact List.le_refl b
  · rw [← hib]
    exact List.pairwise_iff_getElem.1 hsorted _ _ hlt hi hlt'

namespace Db

variable {db : Db} {b k : List UInt8} {vals : List UInt8 → Option Cmd} {cmd : Cmd}

lemma sort_found (h : b ∈ db.keys) : db.sort.keys[db.found b]? = some b :=
  getElem?_findIdx (List.pairwise_insertionSort _ _) ((List.mem_insertionSort _).2 h)

@[simp] lemma deleteFromKeys_vals (db : Db) (b : List UInt8) :
    (db.deleteFromKeys b).vals = db.vals := by
  unfold deleteFromKeys
  split_ifs <;> rfl

lemma deleteFromKeys_keys (hnodup : db.keys.Nodup) :
    (db.deleteFromKeys b).keys.Nodup ∧
      ∀ k, k ∈ (db.deleteFromKeys b).keys ↔ k ∈ db.keys ∧ k ≠ b := by
  have hperm : db.sort.keys.Perm db.keys := List.perm_insertionSort _ _
  have hsorted := hperm.nodup_iff.2 hnodup
  unfold deleteFromKeys
  split_ifs with hb
  · obtain ⟨hlt, hget⟩ := List.getElem?_eq_some_iff.1 hb
    have hsplit : db.sort.keys = db.sort.keys.take (db.found b) ++
        b :: db.sort.keys.drop (db.found b + 1) := by
      have hdrop := List.drop_eq_getElem_cons hlt
      rw [hget] at hdrop
      rw [← hdrop, List.take_append_drop]
    have hmem : ∀ k, k ∈ db.keys ↔ k ∈ db.sort.keys.take (db.found b) ++
        b :: db.sort.keys.drop (db.found b + 1) := fun k => by rw [← hsplit, hperm.mem_iff]
    rw [hsplit] at hsorted
    simp only [List.eraseIdx_eq_take_drop_succ]
    refine ⟨hsorted.sublist (by simp), ?_⟩
    have hb' := List.nodup_middle.1 hsorted
    intro k
    rw [hmem k]
    simp only [List.mem_append, List.mem_cons]
    constructor
    · intro hk
      refine ⟨hk.imp_right .inr, ?_⟩
      rintro rfl
      exact (List.nodup_cons.1 hb').1 (List.mem_append.2 hk)
    · rintro ⟨hk | rfl | hk, hne⟩
      · exact .inl hk
      · exact absurd rfl hne
      · exact .inr hk
  · refine ⟨hsorted, ?_⟩
    intro k
    rw [hperm.mem_iff]
    refine ⟨fun hk => ⟨hk, ?_⟩, And.left⟩
    rintro rfl
    exact hb (sort_found hk)

/-- The addresses in memory, and their keys. -/
structure Agrees (db : Db) (vals : List UInt8 → Option Cmd) : Prop where
  vals_eq : db.vals = vals
  nodup : db.keys.Nodup
  mem : ∀ k, k ∈ db.keys ↔ vals k ≠ none

lemma Agrees.set (h : db.Agrees vals) (k : List UInt8) (cmd : Cmd) : Agrees
    (if (db.vals k).isSome then { db with vals := Function.update db.vals k (some cmd) }
      else { db with vals := Function.update db.vals k (some cmd) }.appendKey k)
    (Function.update vals k (some cmd)) := by
  have hvals := h.vals_eq
  cases hk : vals k with
  | none =>
    have hnot : k ∉ db.keys := fun hmem => (h.mem k).1 hmem hk
    rw [hvals, hk, if_neg (by simp)]
    refine ⟨rfl, ?_, ?_⟩
    · exact List.nodup_append.2 ⟨h.nodup, List.nodup_singleton k, by
        rintro a ha b hb rfl
        exact hnot (List.mem_singleton.1 hb ▸ ha)⟩
    · intro k'
      simp only [appendKey, List.mem_append, List.mem_singleton, h.mem k', Function.update_apply]
      split_ifs with heq <;> simp [heq]
  | some cmd' =>
    rw [hvals, hk, if_pos (by simp)]
    refine ⟨rfl, h.nodup, ?_⟩
    intro k'
    simp only [h.mem k', Function.update_apply]
    split_ifs with heq <;> simp [heq, hk]

lemma Agrees.delete (h : db.Agrees vals) :
    ({ db with vals := Function.update db.vals k none }.deleteFromKeys k).Agrees
      (Function.update vals k none) := by
  have hkeys : ({ db with vals := Function.update db.vals k none } : Db).keys.Nodup := h.nodup
  obtain ⟨hnodup, hmem⟩ := deleteFromKeys_keys (b := k) hkeys
  refine ⟨?_, hnodup, ?_⟩
  · rw [deleteFromKeys_vals, ← h.vals_eq]
  · intro k'
    simp only [hmem k', h.mem k', Function.update_apply]
    split_ifs with heq <;> simp [heq]

end Db

/-! ### The index -/

/-- A record of the index. -/
structure Rec where
  t : Nat
  seek : Nat
  size : Nat
  time : Nat
  key : List UInt8

namespace Rec

def encode (r : Rec) : List UInt8 := keyRecord r.t r.seek r.size r.time r.key

structure Fits (r : Rec) : Prop where
  t : r.t = 0 ∨ r.t = 1
  seek : r.seek < 2 ^ 32
  size : r.size < 2 ^ 32
  key : r.key.length < 2 ^ 16

/-- What the record at an offset says of its key. -/
def cmd (p : Nat × Rec) : Option Cmd := if p.2.t = 0 then some ⟨p.2.seek, p.2.size, p.1⟩ else none

@[simp] lemma length_encode (r : Rec) : r.encode.length = 16 + r.key.length := by
  simp only [encode, keyRecord, List.length_cons, List.length_append, length_highBytes]
  omega

variable {r : Rec}

lemma nextKey_encode (h : r.Fits) (rest : List UInt8) :
    nextKey (r.encode ++ rest) = some (r.t, r.seek, r.size, r.key.length) := by
  have ht : (UInt8.ofNat r.t).toNat = r.t := by
    rcases h.t with h | h <;> rw [h] <;> rfl
  have hlen : ¬(r.encode ++ rest).length < 16 := by
    rw [List.length_append, length_encode]
    omega
  rw [nextKey, if_neg hlen]
  have hseek : (r.encode ++ rest).drop 2 = highBytes 4 r.seek ++ (highBytes 4 r.size ++
      (highBytes 4 r.time ++ (highBytes 2 r.key.length ++ (r.key ++ rest)))) := by
    simp [encode, keyRecord]
  have hsize : (r.encode ++ rest).drop 6 = highBytes 4 r.size ++ (highBytes 4 r.time ++
      (highBytes 2 r.key.length ++ (r.key ++ rest))) := by
    rw [show 6 = 2 + 4 from rfl, ← List.drop_drop, hseek, List.drop_left' (length_highBytes 4 _)]
  have hkey : (r.encode ++ rest).drop 14 = highBytes 2 r.key.length ++ (r.key ++ rest) := by
    rw [show 14 = 6 + 4 + 4 from rfl, ← List.drop_drop, ← List.drop_drop, hsize,
      List.drop_left' (length_highBytes 4 _), List.drop_left' (length_highBytes 4 _)]
  rw [hseek, hsize, hkey]
  simp only [List.take_left' (length_highBytes _ _)]
  rw [ofHighBytes_highBytes h.seek, ofHighBytes_highBytes h.size, ofHighBytes_highBytes h.key]
  simp [encode, keyRecord, ht]

lemma drop_encode (r : Rec) (rest : List UInt8) : (r.encode ++ rest).drop 16 = r.key ++ rest := by
  have hlen : (0 :: UInt8.ofNat r.t :: (highBytes 4 r.seek ++ (highBytes 4 r.size ++
      (highBytes 4 r.time ++ highBytes 2 r.key.length)))).length = 16 := by
    simp
  calc (r.encode ++ rest).drop 16
      = ((0 :: UInt8.ofNat r.t :: (highBytes 4 r.seek ++ (highBytes 4 r.size ++
        (highBytes 4 r.time ++ highBytes 2 r.key.length)))) ++ (r.key ++ rest)).drop 16 := by
        simp [encode, keyRecord]
    _ = r.key ++ rest := List.drop_left' hlen

end Rec

/-- What the index says of a key. -/
def indexed (rs : List Rec) (k : List UInt8) : Option Cmd :=
  (latest Rec.encode Rec.key rs k).bind Rec.cmd

variable {rs : List Rec} {r : Rec} {fk fv : List UInt8} {k : List UInt8} {cmd : Cmd}

@[simp] lemma indexed_nil : indexed [] = fun _ => none := rfl

lemma indexed_snoc : indexed (rs ++ [r]) =
    Function.update (indexed rs) r.key (Rec.cmd ((logBytes Rec.encode rs).length, r)) := by
  funext k
  rw [indexed, latest_snoc, Function.update_apply]
  by_cases hk : r.key = k
  · rw [if_pos hk, if_pos hk.symm]
    rfl
  · rw [if_neg hk, if_neg (Ne.symm hk)]
    rfl

/-- The index is a log, of which the offsets fit into 32 bits. -/
structure Index (fk : List UInt8) (rs : List Rec) : Prop where
  log : fk = logBytes Rec.encode rs
  fits : ∀ r ∈ rs, r.Fits
  offsets : ∀ p ∈ placed Rec.encode 0 rs, p.1 < 2 ^ 32

lemma readKeys_succ {fuel n : Nat} {buf : List UInt8} {db : Db} (hbuf : buf ≠ []) :
    readKeys (fuel + 1) buf n db =
      (nextKey buf).bind fun p => readKeys fuel (buf.drop (16 + p.2.2.2))
        (uint32 (n + (16 + p.2.2.2)))
        (db.readKey p.1 ⟨p.2.1, p.2.2.1, n⟩ ((buf.drop 16).take p.2.2.2)) := by
  cases buf with
  | nil => exact absurd rfl hbuf
  | cons b buf =>
    rw [readKeys]
    · cases nextKey (b :: buf) <;> rfl
    · simp

/-- The loop of `newDb` goes through the records. -/
lemma readKeys_log {fuel n : Nat} {db : Db} (hfits : ∀ r ∈ rs, r.Fits)
    (hoffsets : ∀ p ∈ placed Rec.encode n rs, p.1 < 2 ^ 32)
    (hfuel : (logBytes Rec.encode rs).length ≤ fuel) :
    readKeys fuel (logBytes Rec.encode rs) n db =
      some ((placed Rec.encode n rs).foldl
        (fun db p => db.readKey p.2.t ⟨p.2.seek, p.2.size, p.1⟩ p.2.key) db) := by
  induction rs generalizing fuel n db with
  | nil => cases fuel <;> rfl
  | cons r rs ih =>
    rw [List.forall_mem_cons] at hfits
    rw [placed, List.forall_mem_cons] at hoffsets
    rw [logBytes_cons, List.length_append, Rec.length_encode] at hfuel
    obtain ⟨fuel, rfl⟩ : ∃ fuel', fuel = fuel' + 1 := ⟨fuel - 1, by omega⟩
    have hne : r.encode ++ logBytes Rec.encode rs ≠ [] := by
      simp [Rec.encode, keyRecord]
    have hdrop : (r.encode ++ logBytes Rec.encode rs).drop (16 + r.key.length) =
        logBytes Rec.encode rs := List.drop_left' (Rec.length_encode r)
    rw [logBytes_cons, readKeys_succ hne, Rec.nextKey_encode hfits.1, Option.bind_some, hdrop,
      Rec.drop_encode, List.take_left, placed, List.foldl_cons, Rec.length_encode]
    rw [Rec.length_encode] at hoffsets
    cases rs with
    | nil => cases fuel <;> rfl
    | cons r' rs =>
      have hn : uint32 (n + (16 + r.key.length)) = n + (16 + r.key.length) :=
        uint32_of_lt (hoffsets.2 _ List.mem_cons_self)
      rw [hn, ih hfits.2 hoffsets.2 (by omega)]

/-- The front part of a record behind the others makes the loop of `newDb` panic. -/
lemma readKeys_torn {fuel n : Nat} {db : Db} {buf : List UInt8} (hfits : ∀ r ∈ rs, r.Fits)
    (hne : buf ≠ []) (hlt : buf.length < 16) :
    readKeys fuel (logBytes Rec.encode rs ++ buf) n db = none := by
  induction rs generalizing fuel n db with
  | nil =>
    cases fuel with
    | zero =>
      cases buf with
      | nil => exact absurd rfl hne
      | cons b buf => rfl
    | succ fuel =>
      rw [logBytes_nil, List.nil_append, readKeys_succ hne, nextKey, if_pos hlt, Option.bind_none]
  | cons r rs ih =>
    rw [List.forall_mem_cons] at hfits
    have hfirst : r.encode ++ (logBytes Rec.encode rs ++ buf) ≠ [] := by
      simp [Rec.encode, keyRecord]
    rw [logBytes_cons, List.append_assoc]
    cases fuel with
    | zero => rfl
    | succ fuel =>
      rw [readKeys_succ hfirst, Rec.nextKey_encode hfits.1, Option.bind_some,
        List.drop_left' (Rec.length_encode r)]
      exact ih hfits.2

/-- What `newDb` has read. -/
lemma agrees_readKeys (hfits : ∀ r ∈ rs, r.Fits) : Db.Agrees
    ((placed Rec.encode 0 rs).foldl
      (fun db p => db.readKey p.2.t ⟨p.2.seek, p.2.size, p.1⟩ p.2.key) ⟨[], fun _ => none⟩)
    (indexed rs) := by
  induction rs using List.reverseRecOn with
  | nil => exact ⟨rfl, List.nodup_nil, by simp [placed]⟩
  | append_singleton rs r ih =>
    have ih := ih fun r hr => hfits r (List.mem_append_left _ hr)
    rw [placed_snoc, List.foldl_append, List.foldl_cons, List.foldl_nil, indexed_snoc, Nat.zero_add]
    generalize (placed Rec.encode 0 rs).foldl _ _ = db at ih ⊢
    rcases (hfits r (by simp)).t with ht | ht
    · have hset := ih.set r.key ⟨r.seek, r.size, (logBytes Rec.encode rs).length⟩
      rw [Db.readKey, if_pos ht, Rec.cmd, if_pos ht]
      cases hk : db.vals r.key with
      | none => simpa [hk, Db.appendKey] using hset
      | some cmd => simpa [hk] using hset
    · rw [Db.readKey, if_neg (by simp [ht]), if_pos ht, Rec.cmd, if_neg (by simp [ht])]
      exact ih.delete

lemma Index.newDb (h : Index fk rs) : ∃ db, newDb fk = some db ∧ db.Agrees (indexed rs) := by
  refine ⟨_, ?_, agrees_readKeys h.fits⟩
  rw [Pudge.newDb, h.log]
  exact readKeys_log h.fits h.offsets le_rfl

/-- An index with a part of a record at its end cannot be opened. -/
lemma Index.newDb_torn (h : Index fk rs) {t seek size time n : Nat} {key : List UInt8}
    (hpos : 0 < n)
    (hlt : n < 16) : Pudge.newDb (tornKey fk t seek size time key none n) = none := by
  have hlen : ((keyRecord t seek size time key).take n).length = n := by
    rw [List.length_take]
    simp only [keyRecord, List.length_cons, List.length_append, length_highBytes]
    omega
  have hne := List.ne_nil_of_length_pos (hlen.symm ▸ hpos)
  have htorn : tornKey fk t seek size time key none n =
      logBytes Rec.encode rs ++ (keyRecord t seek size time key).take n := by
    rw [tornKey, writeAtPos, Option.getD_none, pwrite_end, h.log]
  rw [Pudge.newDb, htorn]
  exact readKeys_torn h.fits hne (hlen.symm ▸ hlt)

lemma Index.append (h : Index fk rs) (hr : r.Fits) (hlen : fk.length < 2 ^ 32) :
    Index (pwrite fk fk.length r.encode) (rs ++ [r]) := by
  refine ⟨?_, ?_, ?_⟩
  · rw [pwrite_end, h.log]
    simp
  · intro r' hr'
    rcases List.mem_append.1 hr' with hr' | hr'
    · exact h.fits r' hr'
    · rwa [List.mem_singleton.1 hr']
  · intro p hp
    rw [placed_snoc] at hp
    rcases List.mem_append.1 hp with hp | hp
    · exact h.offsets p hp
    · rw [List.mem_singleton.1 hp, Nat.zero_add, ← h.log]
      exact hlen

/-- The record that an address comes from. -/
lemma exists_of_indexed (h : indexed rs k = some cmd) :
    ∃ r as bs, rs = as ++ r :: bs ∧ r.key = k ∧
    cmd = ⟨r.seek, r.size, (logBytes Rec.encode as).length⟩ ∧
      ∀ b ∈ bs, b.key ≠ k := by
  obtain ⟨⟨o, r⟩, hlatest, hcmd⟩ := Option.bind_eq_some_iff.1 h
  obtain ⟨hkey, as, bs, hrs, ho, hbs⟩ := exists_of_latest hlatest
  rw [Rec.cmd] at hcmd
  split at hcmd
  · exact ⟨r, as, bs, hrs, hkey, by rw [← ho, ← Option.some.inj hcmd], hbs⟩
  · cases hcmd

lemma Index.bounds (h : Index fk rs) (hk : indexed rs k = some cmd) :
    cmd.seek < 2 ^ 32 ∧ cmd.size < 2 ^ 32 ∧ cmd.keySeek < 2 ^ 32 := by
  obtain ⟨r, as, bs, rfl, -, rfl, -⟩ := exists_of_indexed hk
  have hr := h.fits r (by simp)
  refine ⟨hr.seek, hr.size, ?_⟩
  have hoff := h.offsets (0 + (logBytes Rec.encode as).length, r) (by
    rw [placed_replace (r := r) rfl]
    simp)
  rwa [Nat.zero_add] at hoff

/-- The record of a key written over with a new one. -/
lemma Index.replace (h : Index fk rs) (hk : indexed rs k = some cmd) (hr : r.Fits)
    (hkey : r.key = k) (ht : r.t = 0) : ∃ rs', Index (pwrite fk cmd.keySeek r.encode) rs' ∧
      indexed rs' = Function.update (indexed rs) k (some ⟨r.seek, r.size, cmd.keySeek⟩) := by
  obtain ⟨r₀, as, bs, rfl, hkey₀, rfl, hbs⟩ := exists_of_indexed hk
  have hlen : r.encode.length = r₀.encode.length := by
    rw [Rec.length_encode, Rec.length_encode, hkey, hkey₀]
  refine ⟨as ++ r :: bs, ⟨?_, ?_, ?_⟩, ?_⟩
  · rw [h.log]
    exact pwrite_replace hlen (by rw [Rec.length_encode]; omega)
  · intro r' hr'
    rcases List.mem_append.1 hr' with hr' | hr'
    · exact h.fits r' (List.mem_append_left _ hr')
    · rcases List.mem_cons.1 hr' with rfl | hr'
      · exact hr
      · exact h.fits r' (List.mem_append_right _ (List.mem_cons_of_mem _ hr'))
  · intro p hp
    have hold := h.offsets
    rw [placed_replace hlen] at hp
    rw [placed_replace (r := r₀) rfl] at hold
    rcases List.mem_append.1 hp with hp | hp
    · exact hold p (List.mem_append_left _ hp)
    · rcases List.mem_cons.1 hp with rfl | hp
      · exact hold (_, r₀) (List.mem_append_right _ List.mem_cons_self)
      · exact hold p (List.mem_append_right _ (List.mem_cons_of_mem _ hp))
  · funext k'
    rw [indexed, latest_replace hlen hkey₀ hkey hbs, Function.update_apply]
    by_cases hk' : k = k'
    · rw [if_pos hk', if_pos hk'.symm, Option.bind_some, Rec.cmd, if_pos ht]
    · rw [if_neg hk', if_neg (Ne.symm hk'), indexed]

/-! ### The values -/

variable {vals : List UInt8 → Option Cmd} {m : List UInt8 → Option (List UInt8)} {v : List UInt8}

def Cmd.Apart (cmd cmd' : Cmd) : Prop :=
  cmd.seek + cmd.size ≤ cmd'.seek ∨ cmd'.seek + cmd'.size ≤ cmd.seek

/-- The addresses and the values stand for a table. -/
structure Holds (fv : List UInt8) (vals : List UInt8 → Option Cmd)
    (m : List UInt8 → Option (List UInt8)) : Prop where
  value : ∀ k cmd, vals k = some cmd → ∃ stored v,
    pread fv cmd.seek cmd.size = some stored ∧ decodeString stored = some v ∧ m k = some v
  absent : ∀ k, vals k = none → m k = none
  apart : ∀ k k' cmd cmd', k ≠ k' → vals k = some cmd → vals k' = some cmd' → cmd.Apart cmd'

namespace Holds

lemma end_le (h : Holds fv vals m) (hk : vals k = some cmd) : cmd.seek + cmd.size ≤ fv.length := by
  obtain ⟨stored, v, hread, -⟩ := h.value k cmd hk
  exact (pread_eq_some_iff.1 hread).1

lemma isSome_iff (h : Holds fv vals m) (k : List UInt8) : vals k ≠ none ↔ m k ≠ none := by
  cases hk : vals k with
  | none => simp [h.absent k hk]
  | some cmd =>
    obtain ⟨_, v, -, -, hm⟩ := h.value k cmd hk
    simp [hm]

/-- A value written over the front of the old one takes its place at once. -/
lemma front (h : Holds fv vals m) (hk : vals k = some cmd) (hlen : (encodeString v).length < 2 ^ 64)
    (hle : (encodeString v).length ≤ cmd.size) :
    Holds (pwrite fv cmd.seek (encodeString v)) vals (Function.update m k (some v)) := by
  refine ⟨?_, ?_, h.apart⟩
  · intro k' cmd' hk'
    obtain ⟨stored, v', hread, hdecode, hm⟩ := h.value k' cmd' hk'
    by_cases heq : k' = k
    · subst heq
      obtain rfl := Option.some.inj (hk.symm.trans hk')
      exact ⟨_, v, pread_pwrite_front hread hle, decodeString_encodeString hlen _,
        Function.update_self ..⟩
    · refine ⟨stored, v', pread_pwrite_of_disjoint hread ?_, hdecode, ?_⟩
      · rcases h.apart k' k cmd' cmd heq hk' hk with hapart | hapart
        · exact .inl hapart
        · exact .inr (by omega)
      · rw [Function.update_of_ne heq, hm]
  · intro k' hk'
    have hne : k' ≠ k := by
      rintro rfl
      rw [hk] at hk'
      cases hk'
    rw [Function.update_of_ne hne, h.absent k' hk']

/-- A value at the end of the file is not found before its address is stored. -/
lemma append (h : Holds fv vals m) (b : List UInt8) : Holds (pwrite fv fv.length b) vals m := by
  refine ⟨?_, h.absent, h.apart⟩
  intro k cmd hk
  obtain ⟨stored, v, hread, hrest⟩ := h.value k cmd hk
  exact ⟨stored, v, pread_pwrite_of_disjoint hread (.inl (h.end_le hk)), hrest⟩

lemma set (h : Holds fv vals m) (hlen : (encodeString v).length < 2 ^ 64)
    (hread : pread fv cmd.seek cmd.size = some (encodeString v))
    (hapart : ∀ k' cmd', k' ≠ k → vals k' = some cmd' → cmd.Apart cmd') :
    Holds fv (Function.update vals k (some cmd)) (Function.update m k (some v)) := by
  have hdecode : decodeString (encodeString v) = some v := by
    simpa using decodeString_encodeString hlen []
  refine ⟨?_, ?_, ?_⟩
  · intro k' cmd' hk'
    by_cases heq : k' = k
    · subst heq
      rw [Function.update_self] at hk'
      obtain rfl := Option.some.inj hk'
      exact ⟨_, v, hread, hdecode, Function.update_self ..⟩
    · rw [Function.update_of_ne heq] at hk' ⊢
      exact h.value k' cmd' hk'
  · intro k' hk'
    by_cases heq : k' = k
    · simp [heq] at hk'
    · rw [Function.update_of_ne heq] at hk' ⊢
      exact h.absent k' hk'
  · intro k₁ k₂ cmd₁ cmd₂ hne h₁ h₂
    by_cases heq₁ : k₁ = k
    · rw [heq₁, Function.update_self] at h₁
      rw [Function.update_of_ne (fun h => hne (heq₁.trans h.symm))] at h₂
      obtain rfl := Option.some.inj h₁
      exact hapart k₂ cmd₂ (fun h => hne (heq₁.trans h.symm)) h₂
    · rw [Function.update_of_ne heq₁] at h₁
      by_cases heq₂ : k₂ = k
      · rw [heq₂, Function.update_self] at h₂
        obtain rfl := Option.some.inj h₂
        exact (hapart k₁ cmd₁ heq₁ h₁).symm
      · rw [Function.update_of_ne heq₂] at h₂
        exact h.apart k₁ k₂ cmd₁ cmd₂ hne h₁ h₂

lemma delete (h : Holds fv vals m) :
    Holds fv (Function.update vals k none) (Function.update m k none) := by
  have hold : ∀ {k' cmd'}, Function.update vals k none k' = some cmd' →
      k' ≠ k ∧ vals k' = some cmd' := by
    intro k' cmd' hk'
    by_cases heq : k' = k
    · simp [heq] at hk'
    · rw [Function.update_of_ne heq] at hk'
      exact ⟨heq, hk'⟩
  refine ⟨?_, ?_, ?_⟩
  · intro k' cmd' hk'
    obtain ⟨hne, hk'⟩ := hold hk'
    rw [Function.update_of_ne hne]
    exact h.value k' cmd' hk'
  · intro k' hk'
    by_cases heq : k' = k
    · rw [heq, Function.update_self]
    · rw [Function.update_of_ne heq] at hk' ⊢
      exact h.absent k' hk'
  · intro k₁ k₂ cmd₁ cmd₂ hne h₁ h₂
    exact h.apart k₁ k₂ cmd₁ cmd₂ hne (hold h₁).2 (hold h₂).2

end Holds

/-! ### A value that has been written -/

/-- The value is in the file, and nothing that the index knows of other keys is where it is. -/
structure Setting.Written (w : Setting) (fv : List UInt8) (vals : List UInt8 → Option Cmd)
    (k v : List UInt8) : Prop where
  key : w.key = k
  keyFits : k.length < 2 ^ 16
  existed : w.existed = (vals k).isSome
  keySeek : ∀ cmd, vals k = some cmd → w.cmd.keySeek = cmd.keySeek
  read : pread fv w.cmd.seek w.cmd.size = some (encodeString v)
  seekFits : w.cmd.seek < 2 ^ 32
  sizeFits : w.cmd.size < 2 ^ 32
  apart : ∀ k' cmd', k' ≠ k → vals k' = some cmd' → w.cmd.Apart cmd'

lemma Setting.Written.length_lt {w : Setting} (h : w.Written fv vals k v) :
    (encodeString v).length < 2 ^ 32 := by
  have hlen := (pread_eq_some_iff.1 h.read).2.1
  rw [hlen]
  exact h.sizeFits

/-- The first write of `Set` has put the value in the place of the old one, or it cannot be found
yet. -/
lemma writeVal_cases (h : Holds fv vals m) (hseek : ∀ cmd, vals k = some cmd → cmd.seek < 2 ^ 32)
    (hk : k.length < 2 ^ 16) (hv : (encodeString v).length < 2 ^ 32) (hfv : fv.length < 2 ^ 32) :
    (⟨k, (writeVal fv (encodeString v) (vals k)).2, (vals k).isSome⟩ : Setting).Written
      (writeVal fv (encodeString v) (vals k)).1 vals k v ∧
    (Holds (writeVal fv (encodeString v) (vals k)).1 vals m ∨
      Holds (writeVal fv (encodeString v) (vals k)).1 vals (Function.update m k (some v))) := by
  have hend : ∀ k' cmd', vals k' = some cmd' → cmd'.seek + cmd'.size ≤ fv.length :=
    fun _ _ hk' => h.end_le hk'
  cases hold : vals k with
  | none =>
    refine ⟨⟨rfl, hk, by rw [hold], by simp [hold], ?_, ?_, ?_, ?_⟩, .inl (h.append _)⟩
    · simp only [writeVal, writeAtPos, Option.getD_none, uint32_of_lt hv, uint32_of_lt hfv]
      exact pread_pwrite le_rfl
    · simpa only [writeVal, writeAtPos, Option.getD_none, uint32_of_lt hfv] using hfv
    · simpa only [writeVal, uint32_of_lt hv] using hv
    · intro k' cmd' _ hk'
      refine .inr ?_
      simpa only [writeVal, writeAtPos, Option.getD_none, uint32_of_lt hfv] using hend k' cmd' hk'
  | some cmd =>
    have hkeySeek : ∀ cmd', vals k = some cmd' → cmd'.keySeek = cmd.keySeek := by
      intro cmd' hcmd'
      rw [Option.some.inj (hold.symm.trans hcmd')]
    by_cases hle : (encodeString v).length ≤ cmd.size
    · have heq : writeVal fv (encodeString v) (some cmd) =
          (pwrite fv cmd.seek (encodeString v),
            ⟨cmd.seek, (encodeString v).length, cmd.keySeek⟩) := by
        simp [writeVal, writeAtPos, uint32_of_lt hv, hle]
      rw [heq]
      refine ⟨⟨rfl, hk, by rw [hold], fun _ h => (hkeySeek _ h).symm, ?_, hseek cmd hold, hv, ?_⟩,
        .inr (h.front hold (by omega) hle)⟩
      · exact pread_pwrite (Nat.le_of_add_right_le (h.end_le hold))
      · intro k' cmd' hne hk'
        rcases h.apart k' k cmd' cmd hne hk' hold with hapart | hapart
        · exact .inr hapart
        · exact .inl ((Nat.add_le_add_left hle _).trans hapart)
    · have heq : writeVal fv (encodeString v) (some cmd) =
          (pwrite fv fv.length (encodeString v),
            ⟨fv.length, (encodeString v).length, cmd.keySeek⟩) := by
        simp [writeVal, writeAtPos, uint32_of_lt hv, uint32_of_lt hfv, hle]
      rw [heq]
      refine ⟨⟨rfl, hk, by rw [hold], fun _ h => (hkeySeek _ h).symm,
        pread_pwrite le_rfl, hfv, hv, ?_⟩,
        .inl (h.append _)⟩
      exact fun k' cmd' _ hk' => .inr (hend k' cmd' hk')

/-- A write of which a part is made does no harm at the end of the file. -/
lemma tornVal_cases {n : Nat} (h : Holds fv vals m) (hv : (encodeString v).length < 2 ^ 32)
    (huntorn : n = 0 ∨ (encodeString v).length ≤ n ∨
      ∀ cmd ∈ vals k, cmd.size < (encodeString v).length) :
    Holds (tornVal fv (encodeString v) (vals k) n) vals m ∨
      Holds (tornVal fv (encodeString v) (vals k) n) vals (Function.update m k (some v)) := by
  cases hold : vals k with
  | none => exact .inl (h.append _)
  | some cmd =>
    by_cases hle : (encodeString v).length ≤ cmd.size
    · have heq : tornVal fv (encodeString v) (some cmd) n =
          pwrite fv cmd.seek ((encodeString v).take n) := by
        simp [tornVal, writeAtPos, uint32_of_lt hv, hle]
      rw [heq]
      rcases huntorn with rfl | hall | happends
      · rw [List.take_zero, pwrite_nil]
        exact .inl h
      · rw [List.take_of_length_le hall]
        exact .inr (h.front hold (by omega) hle)
      · exact absurd (happends cmd hold) (Nat.not_lt.2 hle)
    · have heq : tornVal fv (encodeString v) (some cmd) n =
          pwrite fv fv.length ((encodeString v).take n) := by
        simp [tornVal, writeAtPos, uint32_of_lt hv, hle]
      rw [heq]
      exact .inl (h.append _)

/-! ### Tables -/

/-- What the files are for: a table, of which the calls come to an end or are killed. -/
structure Table where
  kvs : Kvs
  /-- the key and the value of a `Write` that is being made -/
  pending : Option (String × String)
  answers : List Answer

namespace Table

def init : Table := ⟨Kvs.empty, none, []⟩

def answer (t : Table) (a : Answer) : Table := { t with answers := t.answers ++ [a] }

def read (t : Table) (key : String) : Answer :=
  match t.kvs.read key with
  | some value => .value (bytes value)
  | none => .ErrKeyNotFound

def delete (t : Table) (key : String) : Table :=
  match t.kvs.delete key with
  | some kvs => { t with kvs := kvs }.answer .done
  | none => t.answer .ErrKeyNotFound

/-- A `Write` or `Delete` that is killed has been made or it has not. -/
inductive Step : Table → StoreAct → Table → Prop
  | opens (t : Table) : Step t .opens t
  | close (t : Table) : Step t .close t
  | write (t : Table) (key value : String) (ht : t.pending = none) :
      Step t (.write key value) { t with pending := some (key, value) }
  | writeKey (t : Table) (key value : String) (time : Nat) (ht : t.pending = some (key, value)) :
      Step t (.writeKey time)
      ({ t with kvs := t.kvs.write key value, pending := none }.answer .done)
  | read (t : Table) (key : String) (ht : t.pending = none) :
      Step t (.read key) (t.answer (t.read key))
  | delete (t : Table) (key : String) (time : Nat) (ht : t.pending = none) :
      Step t (.delete key time) (t.delete key)
  | kill (t : Table) : Step t .kill { t with pending := none }
  | killMade (t : Table) (key value : String) (ht : t.pending = some (key, value)) :
      Step t .kill { t with kvs := t.kvs.write key value, pending := none }
  | killWrite (t : Table) (key value : String) (n : Nat) (ht : t.pending = none) :
      Step t (.killWrite key value n) t
  | killWriteMade (t : Table) (key value : String) (n : Nat) (ht : t.pending = none) :
      Step t (.killWrite key value n) { t with kvs := t.kvs.write key value }
  | killWriteKey (t : Table) (time n : Nat) :
      Step t (.killWriteKey time n) { t with pending := none }
  | killWriteKeyMade (t : Table) (key value : String) (time n : Nat)
      (ht : t.pending = some (key, value)) :
      Step t (.killWriteKey time n) { t with kvs := t.kvs.write key value, pending := none }
  | killDelete (t : Table) (key : String) (time n : Nat) (ht : t.pending = none) :
      Step t (.killDelete key time n) t
  | killDeleteMade (t : Table) (key : String) (time n : Nat) (kvs : Kvs) (ht : t.pending = none)
      (hkvs : t.kvs.delete key = some kvs) : Step t (.killDelete key time n) { t with kvs := kvs }

inductive Run : List StoreAct → Table → Prop
  | nil : Run [] init
  | snoc {as : List StoreAct} {a : StoreAct} {t t' : Table} (run : Run as t) (step : Step t a t') :
      Run (as ++ [a]) t'

end Table

/-- The table of bytes is that of the strings. -/
def Stands (m : List UInt8 → Option (List UInt8)) (kvs : Kvs) : Prop :=
  ∀ key, m (bytes key) = (kvs key).map bytes

variable {kvs : Kvs} {key value : String}

lemma Stands.write (h : Stands m kvs) :
    Stands (Function.update m (bytes key) (some (bytes value))) (kvs.write key value) := by
  intro key'
  by_cases heq : key' = key
  · simp [heq, Kvs.write]
  · have hne : bytes key' ≠ bytes key := fun h => heq (bytes_injective h)
    simp [Kvs.write, heq, hne, h key']

lemma Stands.delete (h : Stands m kvs) :
    Stands (Function.update m (bytes key) none) (Function.update kvs key none) := by
  intro key'
  by_cases heq : key' = key
  · simp [heq]
  · have hne : bytes key' ≠ bytes key := fun h => heq (bytes_injective h)
    simp [heq, hne, h key']

/-! ### Runs -/

/-- Between the writes of `Set` the files stand for the table before or behind the call. -/
inductive Between (s : Store) (t : Table) (vals : List UInt8 → Option Cmd)
    (m : List UInt8 → Option (List UInt8)) : Prop
  | idle (hs : s.setting = none) (ht : t.pending = none) (hm : Stands m t.kvs)
  | setting (w : Setting) (key value : String) (hs : s.setting = some w)
      (ht : t.pending = some (key, value)) (hw : w.Written s.fv vals (bytes key) (bytes value))
      (hm : Stands m t.kvs ∨ Stands m (t.kvs.write key value))

structure Stored (s : Store) (t : Table) (rs : List Rec) (m : List UInt8 → Option (List UInt8)) :
    Prop where
  index : Index s.fk rs
  db : ∀ db, s.db = some db → db.Agrees (indexed rs)
  holds : Holds s.fv (indexed rs) m
  between : Between s t (indexed rs) m
  answers : t.answers = s.answers

variable {s s' : Store} {t : Table}

lemma Stored.idle (h : Stored s t rs m) (hs : s.setting = none) :
    t.pending = none ∧ Stands m t.kvs := by
  cases h.between with
  | idle _ ht hm => exact ⟨ht, hm⟩
  | setting w key value hs' => simp [hs] at hs'

lemma stored_init : Stored .init .init [] fun _ => none where
  index := ⟨rfl, by simp, by simp [placed]⟩
  db := by simp [Store.init]
  holds := ⟨by simp, by simp, by simp⟩
  between := .idle rfl rfl fun _ => rfl
  answers := rfl

/-- The keys, the values and the files are within what their records have room for. -/
def Fits (s : Store) : StoreAct → Prop
  | .write key value | .killWrite key value _ => (bytes key).length < 2 ^ 16 ∧
      (encodeString (bytes value)).length < 2 ^ 32 ∧ s.fv.length < 2 ^ 32
  | .writeKey _ | .delete _ _ | .killWriteKey _ _ | .killDelete _ _ _ => s.fk.length < 2 ^ 32
  | _ => True

instance (s : Store) (a : StoreAct) : Decidable (Fits s a) := by
  cases a <;> unfold Fits <;> infer_instance

/-- The value is put at the end of the file. -/
def Appends (db : Db) (key value : String) : Prop :=
  ∀ cmd ∈ db.vals (bytes key), cmd.size < (encodeString (bytes value)).length

instance (db : Db) (key value : String) : Decidable (Appends db key value) :=
  inferInstanceAs (Decidable (∀ cmd ∈ db.vals (bytes key), _))

/-- The process is killed between the writes, or in one that puts a value at the end of the file. -/
def Untorn (s : Store) : StoreAct → Prop
  | .killWrite key value n => n = 0 ∨ (encodeString (bytes value)).length ≤ n ∨
      ∀ db ∈ s.db, Appends db key value
  | .killWriteKey _ n => n = 0 ∨ ∀ w ∈ s.setting, 16 + w.key.length ≤ n
  | .killDelete key _ n => n = 0 ∨ 16 + (bytes key).length ≤ n
  | _ => True

instance (s : Store) (a : StoreAct) : Decidable (Untorn s a) := by
  cases a <;> unfold Untorn <;> infer_instance

def Spared (s : Store) (a : StoreAct) : Prop := Fits s a ∧ Untorn s a

instance (s : Store) (a : StoreAct) : Decidable (Spared s a) :=
  inferInstanceAs (Decidable (Fits s a ∧ Untorn s a))

lemma Stored.opens (h : Stored s t rs m) (hstep : s.step .opens = some s') : Stored s' t rs m := by
  simp only [Store.step] at hstep
  split at hstep
  · obtain rfl := Option.some.inj hstep
    exact h
  · obtain ⟨db, hdb, rfl⟩ := Option.map_eq_some_iff.1 hstep
    obtain ⟨db', hdb', hagrees⟩ := h.index.newDb
    refine ⟨h.index, ?_, h.holds, ?_, h.answers⟩
    · intro db'' hdb''
      rwa [← Option.some.inj hdb'', Option.some.inj (hdb.symm.trans hdb')]
    · cases h.between with
      | idle hs ht hm => exact .idle hs ht hm
      | setting w key value hs ht hw hm => exact .setting w key value hs ht hw hm

lemma Stored.write (h : Stored s t rs m) {db : Db} (hdb : s.db = some db) (hs : s.setting = none)
    (hfits : Fits s (.write key value)) :
    ∃ m', Stored (s.set db key value) { t with pending := some (key, value) } rs m' := by
  obtain ⟨-, hm⟩ := h.idle hs
  obtain ⟨hk, hv, hfv⟩ := hfits
  obtain ⟨hw, hholds⟩ := writeVal_cases (k := bytes key) h.holds
    (fun cmd hcmd => (h.index.bounds hcmd).1) hk hv hfv
  have hset : s.set db key value = { s with
      fv := (writeVal s.fv (encodeString (bytes value)) (db.vals (bytes key))).1
      setting := some
        ⟨bytes key, (writeVal s.fv (encodeString (bytes value)) (db.vals (bytes key))).2,
        (db.vals (bytes key)).isSome⟩ } := rfl
  rw [hset, (h.db db hdb).vals_eq]
  rcases hholds with hholds | hholds
  · exact ⟨m, h.index, h.db, hholds, .setting _ key value rfl rfl hw (.inl hm), h.answers⟩
  · exact ⟨_, h.index, h.db, hholds, .setting _ key value rfl rfl hw (.inr hm.write), h.answers⟩

lemma Stored.writeKey (h : Stored s t rs m) {db : Db} (hdb : s.db = some db) {w : Setting}
    (hs : s.setting = some w) (time : Nat) (hfits : s.fk.length < 2 ^ 32) :
    ∃ key value rs' m', t.pending = some (key, value) ∧ Stored ((s.setKey db w time).answer .done)
      ({ t with kvs := t.kvs.write key value, pending := none }.answer .done) rs' m' := by
  cases h.between with
  | idle hs' => simp [hs] at hs'
  | setting w' key value hs' ht hw hm =>
    obtain rfl := Option.some.inj (hs.symm.trans hs')
    have hagrees := h.db db hdb
    set r : Rec := ⟨0, w.cmd.seek, w.cmd.size, time, bytes key⟩ with hr
    have hrfits : r.Fits := ⟨.inl rfl, hw.seekFits, hw.sizeFits, hw.keyFits⟩
    have hlen := hw.length_lt
    have hstands : Stands (Function.update m (bytes key) (some (bytes value)))
        (t.kvs.write key value) := by
      rcases hm with hm | hm
      · exact hm.write
      · intro key'
        by_cases heq : key' = key
        · simp [heq, Kvs.write]
        · have hne : bytes key' ≠ bytes key := fun h => heq (bytes_injective h)
          rw [Function.update_of_ne hne, hm key']
    -- the new index, at the old record or at the end
    have hindex : ∃ rs', Index (Pudge.writeKey s.fk 0 w.cmd.seek w.cmd.size time w.key
          (if w.existed then some w.cmd.keySeek else none)).1 rs' ∧
        indexed rs' = Function.update (indexed rs) (bytes key) (some { w.cmd with
          keySeek := uint32 (Pudge.writeKey s.fk 0 w.cmd.seek w.cmd.size time w.key
            (if w.existed then some w.cmd.keySeek else none)).2 }) := by
      rw [hw.existed, hw.key]
      cases hk : indexed rs (bytes key) with
      | none =>
        refine ⟨rs ++ [r], h.index.append hrfits hfits, ?_⟩
        have hoff : (logBytes Rec.encode rs).length = uint32 s.fk.length := by
          rw [uint32_of_lt hfits, h.index.log]
        rw [indexed_snoc, Rec.cmd, if_pos rfl, hoff]
        rfl
      | some cmd =>
        obtain ⟨rs', hindex, hindexed⟩ := h.index.replace hk hrfits rfl rfl
        have hkeySeek := hw.keySeek cmd hk
        refine ⟨rs', ?_, ?_⟩
        · rw [Option.isSome_some, if_pos rfl, hkeySeek]
          exact hindex
        · have hoff : uint32 cmd.keySeek = cmd.keySeek := uint32_of_lt (h.index.bounds hk).2.2
          rw [hindexed]
          simp only [Option.isSome_some, if_true, Pudge.writeKey, writeAtPos, Option.getD_some,
            hkeySeek, hoff]
          rfl
    obtain ⟨rs', hindex, hindexed⟩ := hindex
    refine ⟨key, value, rs', _, ht, ⟨hindex, ?_, ?_, .idle rfl rfl hstands, ?_⟩⟩
    · intro db' hdb'
      have hset := hagrees.set (bytes key) { w.cmd with
        keySeek := uint32 (Pudge.writeKey s.fk 0 w.cmd.seek w.cmd.size time w.key
          (if w.existed then some w.cmd.keySeek else none)).2 }
      rw [hagrees.vals_eq, ← hw.existed] at hset
      rw [← Option.some.inj hdb', hindexed, ← hw.key, hagrees.vals_eq]
      rw [← hw.key] at hset
      exact hset
    · rw [hindexed]
      exact h.holds.set (by omega) hw.read hw.apart
    · exact congrArg (· ++ [Answer.done]) h.answers

lemma Stored.get (h : Stored s t rs m) {db : Db} (hdb : s.db = some db) (hs : s.setting = none)
    (key : String) : s.get db key = t.read key := by
  obtain ⟨-, hm⟩ := h.idle hs
  have hkey := hm key
  rw [Store.get, (h.db db hdb).vals_eq, Table.read, Kvs.read]
  cases hk : indexed rs (bytes key) with
  | none =>
    rw [h.holds.absent _ hk] at hkey
    cases hkvs : t.kvs key with
    | none => rfl
    | some value => simp [hkvs] at hkey
  | some cmd =>
    obtain ⟨stored, v, hread, hdecode, hv⟩ := h.holds.value _ _ hk
    rw [hv] at hkey
    cases hkvs : t.kvs key with
    | none => simp [hkvs] at hkey
    | some value =>
      simp only [hkvs, Option.map_some, Option.some.injEq] at hkey
      simp [hread, hdecode, hkey]

lemma Stored.delete (h : Stored s t rs m) {db : Db} (hdb : s.db = some db) (hs : s.setting = none)
    (key : String) (time : Nat) (hfits : s.fk.length < 2 ^ 32) :
    ∃ rs' m', Stored (s.delete db key time) (t.delete key) rs' m' := by
  obtain ⟨ht, hm⟩ := h.idle hs
  have hagrees := h.db db hdb
  have hkey := hm key
  rw [Store.delete, hagrees.vals_eq, Table.delete, Kvs.delete]
  cases hk : indexed rs (bytes key) with
  | none =>
    rw [h.holds.absent _ hk] at hkey
    have hkvs : t.kvs key = none := by simpa using hkey.symm
    rw [hkvs]
    exact ⟨rs, m, h.index, h.db, h.holds, .idle hs ht hm, congrArg (· ++ [_]) h.answers⟩
  | some cmd =>
    obtain ⟨_, v, -, -, hv⟩ := h.holds.value _ _ hk
    rw [hv] at hkey
    obtain ⟨value, hkvs, -⟩ : ∃ value, t.kvs key = some value ∧ bytes value = v := by
      simpa using hkey.symm
    rw [hkvs]
    obtain ⟨r₀, as, bs, rfl, hkey₀, -⟩ := exists_of_indexed hk
    set r : Rec := ⟨1, 0, 0, time, bytes key⟩ with hr
    have hkeyFits : (bytes key).length < 2 ^ 16 := hkey₀ ▸ (h.index.fits r₀ (by simp)).key
    have hrfits : r.Fits := ⟨.inr rfl, Nat.two_pow_pos 32, Nat.two_pow_pos 32, hkeyFits⟩
    have hindexed : indexed ((as ++ r₀ :: bs) ++ [r]) =
        Function.update (indexed (as ++ r₀ :: bs)) (bytes key) none := indexed_snoc
    refine ⟨_, _, h.index.append hrfits hfits, ?_, ?_, .idle hs ht hm.delete, ?_⟩
    · intro db' hdb'
      rw [← Option.some.inj hdb', hindexed]
      have hdelete := hagrees.delete (k := bytes key)
      rw [hagrees.vals_eq] at hdelete
      exact hdelete
    · rw [hindexed]
      exact h.holds.delete
    · exact congrArg (· ++ [Answer.done]) h.answers

/-- The process ends between two writes: the files are those of the table without the call that is
being made, or with it. -/
lemma Stored.ends (h : Stored s t rs m) :
    Stored { s with db := none, setting := none } { t with pending := none } rs m ∨
    ∃ key value, t.pending = some (key, value) ∧ Stored { s with db := none, setting := none }
      { t with kvs := t.kvs.write key value, pending := none } rs m := by
  have hdb : ∀ db, (none : Option Db) = some db → db.Agrees (indexed rs) := by simp
  cases h.between with
  | idle _ _ hm => exact .inl ⟨h.index, hdb, h.holds, .idle rfl rfl hm, h.answers⟩
  | setting w key value _ ht _ hm =>
    rcases hm with hm | hm
    · exact .inl ⟨h.index, hdb, h.holds, .idle rfl rfl hm, h.answers⟩
    · exact .inr ⟨key, value, ht, h.index, hdb, h.holds, .idle rfl rfl hm, h.answers⟩

lemma Stored.kill (h : Stored s t rs m) : ∃ t', Table.Step t .kill t' ∧
    Stored { s with db := none, setting := none } t' rs m := by
  rcases h.ends with h' | ⟨key, value, ht, h'⟩
  · exact ⟨_, .kill t, h'⟩
  · exact ⟨_, .killMade t key value ht, h'⟩

lemma Stored.killWrite (h : Stored s t rs m) {db : Db} (hdb : s.db = some db)
    (hs : s.setting = none) {n : Nat} (hfits : Fits s (.killWrite key value n))
    (huntorn : Untorn s (.killWrite key value n)) :
    ∃ t' m', Table.Step t (.killWrite key value n) t' ∧
      Stored { s with
        fv := tornVal s.fv (encodeString (bytes value)) (db.vals (bytes key)) n
        db := none } t' rs m' := by
  obtain ⟨ht, hm⟩ := h.idle hs
  have hvals := (h.db db hdb).vals_eq
  have huntorn' : n = 0 ∨ (encodeString (bytes value)).length ≤ n ∨
      ∀ cmd ∈ indexed rs (bytes key), cmd.size < (encodeString (bytes value)).length := by
    rw [← hvals]
    exact huntorn.imp_right (Or.imp_right fun happends => happends db hdb)
  have hdead : ∀ db', (none : Option Db) = some db' → db'.Agrees (indexed rs) := by simp
  rw [hvals]
  rcases tornVal_cases h.holds hfits.2.1 huntorn' with hholds | hholds
  · exact ⟨t, m, .killWrite t key value n ht, h.index, hdead, hholds, .idle hs ht hm, h.answers⟩
  · exact ⟨_, _, .killWriteMade t key value n ht, h.index, hdead, hholds,
      .idle hs ht hm.write, h.answers⟩

lemma tornKey_zero {type seek size time : Nat} {keySeek : Option Nat} :
    tornKey fk type seek size time k keySeek 0 = fk := by
  rw [tornKey, List.take_zero, writeAtPos, pwrite_nil]

lemma tornKey_of_le {type seek size time n : Nat} {keySeek : Option Nat} (h : 16 + k.length ≤ n) :
    tornKey fk type seek size time k keySeek n =
      (writeKey fk type seek size time k keySeek).1 := by
  have hlen : (keyRecord type seek size time k).length ≤ n :=
    le_of_eq_of_le (Rec.length_encode ⟨type, seek, size, time, k⟩) h
  rw [tornKey, List.take_of_length_le hlen, writeKey]

lemma Stored.killWriteKey (h : Stored s t rs m) {db : Db} (hdb : s.db = some db) {w : Setting}
    (hs : s.setting = some w) {time n : Nat} (hfits : s.fk.length < 2 ^ 32)
    (huntorn : n = 0 ∨ 16 + w.key.length ≤ n) :
    ∃ t' rs' m', Table.Step t (.killWriteKey time n) t' ∧ Stored { s with
      fk := tornKey s.fk 0 w.cmd.seek w.cmd.size time w.key
        (if w.existed then some w.cmd.keySeek else none) n
      db := none
      setting := none } t' rs' m' := by
  rcases huntorn with rfl | hall
  · rw [tornKey_zero]
    rcases h.ends with h' | ⟨key, value, ht, h'⟩
    · exact ⟨_, rs, m, .killWriteKey t time 0, h'⟩
    · exact ⟨_, rs, m, .killWriteKeyMade t key value time 0 ht, h'⟩
  · obtain ⟨key, value, rs', m', ht, h'⟩ := h.writeKey hdb hs time hfits
    rw [tornKey_of_le hall]
    exact ⟨_, rs', m', .killWriteKeyMade t key value time n ht, h'.index, by simp, h'.holds,
      .idle rfl rfl (h'.idle rfl).2, h.answers⟩

lemma Stored.killDelete (h : Stored s t rs m) {db : Db} (hdb : s.db = some db)
    (hs : s.setting = none) {cmd : Cmd} (hcmd : db.vals (bytes key) = some cmd) {time n : Nat}
    (hfits : s.fk.length < 2 ^ 32) (huntorn : n = 0 ∨ 16 + (bytes key).length ≤ n) :
    ∃ t' rs' m', Table.Step t (.killDelete key time n) t' ∧
      Stored { s with fk := tornKey s.fk 1 0 0 time (bytes key) none n, db := none } t' rs' m' := by
  obtain ⟨ht, hm⟩ := h.idle hs
  rcases huntorn with rfl | hall
  · rw [tornKey_zero]
    exact ⟨t, rs, m, .killDelete t key time 0 ht, h.index, by simp, h.holds, .idle hs ht hm,
      h.answers⟩
  · obtain ⟨rs', m', h'⟩ := h.delete hdb hs key time hfits
    rw [tornKey_of_le hall]
    rw [Store.delete, hcmd, Table.delete] at h'
    cases hkvs : t.kvs.delete key with
    | none =>
      rw [hkvs] at h'
      have hsame : t.answers ++ [Answer.ErrKeyNotFound] = s.answers ++ [Answer.done] := h'.answers
      simp [h.answers] at hsame
    | some kvs =>
      rw [hkvs] at h'
      exact ⟨_, rs', m', .killDeleteMade t key time n kvs ht hkvs, h'.index, by simp, h'.holds,
        .idle hs ht (h'.idle hs).2, h.answers⟩

lemma Stored.step {a : StoreAct} (h : Stored s t rs m) (hfits : Fits s a) (huntorn : Untorn s a)
    (hstep : s.step a = some s') :
    ∃ t' rs' m', Table.Step t a t' ∧ Stored s' t' rs' m' := by
  cases a with
  | opens => exact ⟨t, rs, m, .opens t, h.opens hstep⟩
  | write key value =>
    simp only [Store.step] at hstep
    split at hstep
    · next db hdb hs =>
      obtain rfl := Option.some.inj hstep
      obtain ⟨m', h'⟩ := h.write hdb hs hfits
      exact ⟨_, rs, m', .write t key value (h.idle hs).1, h'⟩
    · cases hstep
  | writeKey time =>
    simp only [Store.step] at hstep
    split at hstep
    · next db w hdb hs =>
      obtain rfl := Option.some.inj hstep
      obtain ⟨key, value, rs', m', ht, h'⟩ := h.writeKey hdb hs time hfits
      exact ⟨_, rs', m', .writeKey t key value time ht, h'⟩
    · cases hstep
  | read key =>
    simp only [Store.step] at hstep
    split at hstep
    · next db hdb hs =>
      obtain rfl := Option.some.inj hstep
      obtain ⟨ht, hm⟩ := h.idle hs
      rw [h.get hdb hs]
      exact ⟨_, rs, m, .read t key ht, h.index, h.db, h.holds, .idle hs ht hm,
        congrArg (· ++ [t.read key]) h.answers⟩
    · cases hstep
  | delete key time =>
    simp only [Store.step] at hstep
    split at hstep
    · next db hdb hs =>
      obtain rfl := Option.some.inj hstep
      obtain ⟨rs', m', h'⟩ := h.delete hdb hs key time hfits
      exact ⟨_, rs', m', .delete t key time (h.idle hs).1, h'⟩
    · cases hstep
  | close =>
    simp only [Store.step] at hstep
    split at hstep
    · next db hdb hs =>
      obtain rfl := Option.some.inj hstep
      obtain ⟨ht, hm⟩ := h.idle hs
      exact ⟨t, rs, m, .close t, h.index, by simp, h.holds, .idle hs ht hm, h.answers⟩
    · cases hstep
  | kill =>
    obtain rfl := Option.some.inj hstep
    obtain ⟨t', hkill, h'⟩ := h.kill
    exact ⟨t', rs, m, hkill, h'⟩
  | killWrite key value n =>
    simp only [Store.step] at hstep
    split at hstep
    · next db hdb hs =>
      obtain rfl := Option.some.inj hstep
      obtain ⟨t', m', hkill, h'⟩ := h.killWrite hdb hs hfits huntorn
      exact ⟨t', rs, m', hkill, h'⟩
    · cases hstep
  | killWriteKey time n =>
    simp only [Store.step] at hstep
    split at hstep
    · next db w hdb hs =>
      obtain rfl := Option.some.inj hstep
      exact h.killWriteKey hdb hs hfits (huntorn.imp_right fun hall => hall w hs)
    · cases hstep
  | killDelete key time n =>
    simp only [Store.step] at hstep
    split at hstep
    · next db hdb hs =>
      obtain ⟨cmd, hcmd, rfl⟩ := Option.map_eq_some_iff.1 hstep
      exact h.killDelete hdb hs hcmd hfits huntorn
    · cases hstep

lemma stored_run {as : List StoreAct} (h : Steps Store.step Spared .init as s) :
    ∃ t rs m, Table.Run as t ∧ Stored s t rs m := by
  refine Steps.invariant (P := fun as s => ∃ t rs m, Table.Run as t ∧ Stored s t rs m) h
    ⟨_, _, _, .nil, stored_init⟩ ?_
  rintro as s a s' ⟨t, rs, m, hrun, hs⟩ ⟨hfits, huntorn⟩ hstep
  obtain ⟨t', rs', m', hstep', hs'⟩ := hs.step hfits huntorn hstep
  exact ⟨t', rs', m', hrun.snoc hstep', hs'⟩

/-- Whatever calls there are, and wherever between its writes the process is killed, or in one that
puts a value at the end of the file, the files can be opened again and the calls return what they
return of a table, of which a call that is killed has been made or has not. The keys in memory are
those of the table. The index cannot be opened, though, when one to fifteen bytes of a new record
have been written. -/
theorem refines_kvs {as : List StoreAct} (h : Steps Store.step Spared .init as s) :
    ∃ t, Table.Run as t ∧ s.answers = t.answers ∧ (newDb s.fk).isSome ∧
      (∀ db, s.db = some db → s.setting = none →
        db.keys.Nodup ∧ ∀ key, bytes key ∈ db.keys ↔ t.kvs.read key ≠ none) ∧
      ∀ type seek size time key n, 0 < n → n < 16 →
        newDb (tornKey s.fk type seek size time key none n) = none := by
  obtain ⟨t, rs, m, hrun, hs⟩ := stored_run h
  obtain ⟨db', hdb', -⟩ := hs.index.newDb
  refine ⟨t, hrun, hs.answers.symm, by simp [hdb'], ?_,
    fun _ _ _ _ _ _ hpos hlt => hs.index.newDb_torn hpos hlt⟩
  intro db hdb hsetting
  have hagrees := hs.db db hdb
  refine ⟨hagrees.nodup, fun key => ?_⟩
  rw [hagrees.mem, hs.holds.isSome_iff, (hs.idle hsetting).2 key, Kvs.read]
  simp

/-- A shorter value is there after a kill, a longer one is not, nor one written in part. -/
def killedThrice : List StoreAct :=
  [.opens, .write "k" "abc", .writeKey 7, .write "k" "x", .kill, .opens, .read "k",
    .write "k" "abcd", .kill, .opens, .read "k", .killWrite "k" "abcd" 3, .opens, .read "k",
    .delete "k" 8, .close, .opens, .read "k"]

theorem refines_kvs_killed : ∃ (s : Store) (t : Table), Table.Run killedThrice t ∧
    s.answers = t.answers ∧ s.answers = [.done, .value (bytes "x"), .value (bytes "x"),
      .value (bytes "x"), .done, .ErrKeyNotFound] ∧ (newDb s.fk).isSome := by
  obtain ⟨s, hrun, hs⟩ : ∃ s : Store, Steps Store.step Spared .init killedThrice s ∧
      s.answers = [.done, .value (bytes "x"), .value (bytes "x"), .value (bytes "x"), .done,
        .ErrKeyNotFound] :=
    steps_of_exec killedThrice (by decide)
  obtain ⟨t, ht, hanswers, hopen, -⟩ := refines_kvs hrun
  exact ⟨s, t, ht, hanswers, hs, hopen⟩

end TiPI.DB.Pudge
