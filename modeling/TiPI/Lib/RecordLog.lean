import TiPI.Lib.FileBytes
import Mathlib.Data.List.Induction

/-!
# Logs of records

A log is a file of records, one encoding behind the other. A record is put at the end, or over a
record as long as it is. What a key stands for is in the last record that has it.
-/

namespace TiPI

variable {α ρ κ : Type*} (encode : ρ → List α) (keyOf : ρ → κ)

def logBytes (rs : List ρ) : List α := rs.flatMap encode

/-- The records with their offsets; the first one is at `n`. -/
def placed (n : Nat) : List ρ → List (Nat × ρ)
  | [] => []
  | r :: rs => (n, r) :: placed (n + (encode r).length) rs

/-- The last record of a key, with its offset. -/
def latest [DecidableEq κ] (rs : List ρ) (k : κ) : Option (Nat × ρ) :=
  ((placed encode 0 rs).filter fun p => keyOf p.2 = k).getLast?

variable {encode keyOf} {n : Nat} {r r' : ρ} {rs rs' : List ρ} {k k' : κ}

@[simp] lemma logBytes_nil : logBytes encode [] = [] := rfl

@[simp] lemma logBytes_cons : logBytes encode (r :: rs) = encode r ++ logBytes encode rs :=
  List.flatMap_cons

@[simp] lemma logBytes_append :
    logBytes encode (rs ++ rs') = logBytes encode rs ++ logBytes encode rs' :=
  List.flatMap_append

lemma placed_append : placed encode n (rs ++ rs') =
    placed encode n rs ++ placed encode (n + (logBytes encode rs).length) rs' := by
  induction rs generalizing n with
  | nil => rfl
  | cons r rs ih =>
    rw [List.cons_append, placed, placed, ih, logBytes_cons, List.length_append, Nat.add_assoc,
      List.cons_append]

lemma placed_snoc : placed encode n (rs ++ [r]) =
    placed encode n rs ++ [(n + (logBytes encode rs).length, r)] := placed_append

/-- A record that is as long leaves the others where they are. -/
lemma placed_replace (hlen : (encode r').length = (encode r).length) :
    placed encode n (rs ++ r' :: rs') = placed encode n rs ++
      (n + (logBytes encode rs).length, r') ::
        placed encode (n + (logBytes encode rs).length + (encode r).length) rs' := by
  rw [placed_append, placed, hlen]

lemma mem_of_mem_placed {p : Nat × ρ} (h : p ∈ placed encode n rs) : p.2 ∈ rs := by
  induction rs generalizing n with
  | nil => cases h
  | cons r rs ih =>
    rcases List.mem_cons.1 h with rfl | h
    · exact List.mem_cons_self
    · exact List.mem_cons_of_mem _ (ih h)

variable [DecidableEq κ]

@[simp] lemma latest_nil : latest encode keyOf [] k = none := rfl

lemma latest_snoc : latest encode keyOf (rs ++ [r]) k =
    if keyOf r = k then some ((logBytes encode rs).length, r) else latest encode keyOf rs k := by
  rw [latest, placed_snoc, List.filter_append, List.getLast?_append, Nat.zero_add]
  by_cases hk : keyOf r = k
  · simp [hk]
  · simp [hk, latest]

/-- Behind the last record of a key the others have other keys. -/
lemma exists_of_latest {o : Nat} (h : latest encode keyOf rs k = some (o, r)) :
    keyOf r = k ∧ ∃ as bs, rs = as ++ r :: bs ∧ o = (logBytes encode as).length ∧
      ∀ b ∈ bs, keyOf b ≠ k := by
  induction rs using List.reverseRecOn with
  | nil => cases h
  | append_singleton rs r₁ ih =>
    rw [latest_snoc] at h
    split_ifs at h with hk
    · obtain ⟨rfl, rfl⟩ := Prod.mk.inj (Option.some.inj h)
      exact ⟨hk, rs, [], rfl, rfl, by simp⟩
    · obtain ⟨hkey, as, bs, rfl, ho, hbs⟩ := ih h
      refine ⟨hkey, as, bs ++ [r₁], by simp, ho, ?_⟩
      intro b hb
      rcases List.mem_append.1 hb with hb | hb
      · exact hbs b hb
      · rwa [List.mem_singleton.1 hb]

/-- The last record of a key written over with another one of that key. -/
lemma latest_replace {as bs : List ρ} (hlen : (encode r').length = (encode r).length)
    (hr : keyOf r = k) (hr' : keyOf r' = k) (hbs : ∀ b ∈ bs, keyOf b ≠ k) :
    latest encode keyOf (as ++ r' :: bs) k' =
      if k = k' then some ((logBytes encode as).length, r')
      else latest encode keyOf (as ++ r :: bs) k' := by
  have hnone : ((placed encode ((logBytes encode as).length + (encode r).length) bs).filter
      fun p => keyOf p.2 = k) = [] := by
    apply List.filter_eq_nil_iff.2
    intro p hp
    simpa using hbs _ (mem_of_mem_placed hp)
  simp only [latest, placed_replace hlen, placed_replace (r := r) rfl, Nat.zero_add,
    List.filter_append, List.filter_cons]
  by_cases hk : k = k'
  · subst hk
    simp [hr', hnone]
  · simp [hr, hr', hk]

omit [DecidableEq κ] in
/-- A record written over one of the same length. -/
lemma pwrite_replace [Zero α] {as bs : List ρ} (hlen : (encode r').length = (encode r).length)
    (hpos : 0 < (encode r').length) :
    pwrite (logBytes encode (as ++ r :: bs)) (logBytes encode as).length (encode r') =
      logBytes encode (as ++ r' :: bs) := by
  have hne : (encode r').isEmpty = false := by
    simpa using List.ne_nil_of_length_pos hpos
  simp [pwrite, hne, hlen]

end TiPI
