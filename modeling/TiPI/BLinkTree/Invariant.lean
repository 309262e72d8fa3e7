import TiPI.BLinkTree.Places

/-!
# The invariant of the threads

`Inv skip s T M m`: the file of `s` holds the tree `T`, apart from what writers have under their
locks, `T` stands for the map `M`, and every thread is in order. `Inv.update` says what a step has
to show for its own thread.
-/

namespace TiPI.BLinkTree

variable {L : Nat} {T T' : Tree} {M M' : Key → Option Value} {m m' : Tid → Nat} {skip : Prop}

namespace System

def orphans (s : System L) : Set Offset := {c | ∃ t, c ∈ (s.thread t).orphans}

structure Inv (skip : Prop) (s : System L) (T : Tree) (M : Key → Option Value) (m : Tid → Nat) :
    Prop where
  valid : T.Valid s.orphans
  represents : T.Represents M
  rootMem : s.store.file.root ∈ T.nodes
  rootTop : T.level s.store.file.root = T.top
  locked : s.Locked
  free : INVALID_OFFSET < s.store.file.free
  bounds : ∀ o ∈ T.nodes, INVALID_OFFSET < o ∧ o < s.store.file.free
  clean : ∀ o ∈ T.nodes, (∀ t, o ∉ (s.thread t).dirty) →
    ∃ node, s.store.file.node o = some node ∧ IsNode T o node
  reserved : ∀ t, ∀ o ∈ (s.thread t).reserved,
    o ∉ T.nodes ∧ INVALID_OFFSET < o ∧ o < s.store.file.free
  apart : ∀ t t', t ≠ t' → ∀ o ∈ (s.thread t).reserved, o ∉ (s.thread t').reserved
  orphansApart : ∀ t t', t ≠ t' → ∀ c ∈ (s.thread t).orphans, c ∉ (s.thread t').orphans
  ok : ∀ t, (s.thread t).Ok T s.store.file skip (m t)

variable {s : System L} {t : Tid}

lemma Inv.ne_invalid (h : Inv skip s T M m) {o : Offset} (ho : o ∈ T.nodes) : o ≠ INVALID_OFFSET :=
  (h.bounds o ho).1.ne'

lemma Inv.next_ne_invalid (h : Inv skip s T M m) {o : Offset} (ho : o ∈ T.nodes) :
    T.next o ≠ some INVALID_OFFSET :=
  fun hn => h.ne_invalid (h.valid.next_mem o ho _ hn) rfl

end System

lemma Thread.dirty_subset (th : Thread L) : ∀ o ∈ th.dirty, o ∈ th.writeLocks := by
  unfold Thread.dirty
  split
  · next hjob =>
    simp only [Thread.writeLocks, hjob]
    exact WritePc.dirty_subset _
  · exact fun o ho => ho.elim

namespace System

variable {s : System L} {t : Tid}

/-- The node of a lock that a thread holds is in the file as the tree has it. -/
lemma Inv.node_of_held (h : Inv skip s T M m) {o : Offset} (ho : o ∈ T.nodes)
    (hheld : o ∈ (s.thread t).writeLocks ∨ o ∈ (s.thread t).readLocks)
    (hdirty : o ∉ (s.thread t).dirty) :
    ∃ node, s.store.file.node o = some node ∧ IsNode T o node := by
  refine h.clean o ho fun t' ht' => ?_
  by_cases htt : t' = t
  · exact hdirty (htt ▸ ht')
  · obtain ⟨hw, hr⟩ := h.locked.exclusive (Thread.dirty_subset _ o ht') (Ne.symm htt)
    exact hheld.elim hw hr

/-- What the rest of the tree is after a step: thread `t` changes only nodes it has write locks
for. -/
structure Changes (s : System L) (t : Tid) (T T' : Tree) : Prop extends T.Grows T' where
  agree : ∀ o ∈ T.nodes, o ∉ (s.thread t).writeLocks → T.AgreeAt T' o
  root : ∀ o ∈ T.nodes, o ∉ (s.thread t).writeLocks → (T'.level o = T'.top ↔ T.level o = T.top)
  new : ∀ o ∈ T'.nodes, o ∈ T.nodes ∨ o ∈ (s.thread t).reserved

lemma Changes.refl (s : System L) (t : Tid) (T : Tree) : Changes s t T T where
  mem _ ho := ho
  level _ _ := rfl
  low _ _ := rfl
  agree o _ _ := .refl T o
  root _ _ _ := Iff.rfl
  new _ ho := .inl ho

lemma Changes.of_changesAt {a : Offset} (h : T.ChangesAt T' a)
    (ha : a ∈ (s.thread t).writeLocks)
    (hnew : ∀ o ∈ T'.nodes, o ∈ T.nodes ∨ o ∈ (s.thread t).reserved) : Changes s t T T' where
  toGrows := h.toGrows
  agree o ho hw := h.agree o ho fun hoa => hw (hoa ▸ ha)
  root o ho hw := h.root o ho fun hoa => hw (hoa ▸ ha)
  new := hnew

/-- A step of thread `t` that goes to `th`, with what it has to show. -/
structure Preserves (skip : Prop) (s : System L) (t : Tid) (T T' : Tree) (m' : Nat)
    (file : ServiceFile L) (th : Thread L) : Prop where
  changes : Changes s t T T'
  valid : T'.Valid ((s.orphans \ (s.thread t).orphans) ∪ th.orphans)
  rootMem : file.root ∈ T'.nodes
  rootTop : T'.level file.root = T'.top
  free : s.store.file.free ≤ file.free
  node : ∀ o, ¬(o ∈ T.nodes ∧ o ∈ (s.thread t).writeLocks) → o ∉ (s.thread t).reserved →
    file.node o = s.store.file.node o
  clean : ∀ o ∈ T'.nodes, o ∈ (s.thread t).writeLocks ∨ o ∈ (s.thread t).reserved →
    o ∉ th.dirty → ∃ node, file.node o = some node ∧ IsNode T' o node
  dirty : ∀ o ∈ th.dirty, o ∈ (s.thread t).writeLocks ∨ o ∈ (s.thread t).reserved
  reserved : ∀ o ∈ th.reserved, o ∉ T'.nodes ∧
    (o ∈ (s.thread t).reserved ∨ s.store.file.free ≤ o ∧ o < file.free)
  orphans : ∀ c ∈ th.orphans, c ∈ (s.thread t).orphans ∨ c ∈ (s.thread t).reserved
  ok : th.Ok T' file skip m'

/-- What another thread sees of a step. -/
lemma Preserves.undisturbed (h : Inv skip s T M m) {k : Nat} {file : ServiceFile L} {th : Thread L}
    (hs : Preserves skip s t T T' k file th) {t' : Tid} (hne : t' ≠ t) :
    Undisturbed T T' s.store.file file
      (fun o => o ∈ (s.thread t').writeLocks ∨ o ∈ (s.thread t').readLocks)
      (s.thread t').reserved := by
  have hoff : ∀ o, o ∈ (s.thread t').writeLocks ∨ o ∈ (s.thread t').readLocks →
      o ∉ (s.thread t).writeLocks := by
    intro o ho hw
    obtain ⟨hw', hr'⟩ := h.locked.exclusive hw hne
    exact ho.elim hw' hr'
  exact
    { grows := hs.changes.toGrows
      agree := fun o ho hh => hs.changes.agree o ho (hoff o hh)
      root := fun o ho hh => hs.changes.root o ho (hoff o hh)
      node := fun o ho hh => hs.node o (fun hw => hoff o hh hw.2) fun hr => (h.reserved t o hr).1 ho
      own := fun o ho => hs.node o (fun hw => (h.reserved t' o ho).1 hw.1)
        (h.apart t' t hne o ho) }

lemma orphans_update (s : System L) (h : ∀ t', t' ≠ t →
    ∀ c ∈ (s.thread t').orphans, c ∉ (s.thread t).orphans) (store : Store L) (th : Thread L) :
    orphans { store := store, thread := Function.update s.thread t th } =
      (s.orphans \ (s.thread t).orphans) ∪ th.orphans := by
  ext c
  constructor
  · rintro ⟨t', ht'⟩
    by_cases htt : t' = t
    · subst htt
      exact .inr (by simpa using ht')
    · have hc : c ∈ (s.thread t').orphans := by simpa [htt] using ht'
      exact .inl ⟨⟨t', hc⟩, h t' htt c hc⟩
  · rintro (⟨⟨t', ht'⟩, hno⟩ | hc)
    · have htt : t' ≠ t := by
        rintro rfl
        exact hno ht'
      exact ⟨t', by simpa [htt] using ht'⟩
    · exact ⟨t, by simpa using hc⟩

lemma Inv.update (h : Inv skip s T M m) {store : Store L} {th : Thread L}
    (hlocked : Locked { store := store, thread := Function.update s.thread t th })
    (hM : T'.Represents M') (hs : Preserves skip s t T T' (m' t) store.file th)
    (hm : ∀ t', t' ≠ t → m' t' = m t') :
    Inv skip { store := store, thread := Function.update s.thread t th } T' M' m' := by
  have hself : Function.update s.thread t th t = th := Function.update_self ..
  have hother : ∀ t', t' ≠ t → Function.update s.thread t th t' = s.thread t' :=
    fun t' ht' => Function.update_of_ne ht' _ _
  have horphans := orphans_update (t := t) s (fun t' ht' c hc => h.orphansApart t' t ht' c hc)
    store th
  have hbounds : ∀ o, o ∈ (s.thread t).reserved → INVALID_OFFSET < o ∧ o < store.file.free :=
    fun o ho => ⟨(h.reserved t o ho).2.1, (h.reserved t o ho).2.2.trans_le hs.free⟩
  have hfree := h.free.trans_le hs.free
  -- an offset the thread has reserved now was its own before or is new
  have hres : ∀ o ∈ th.reserved, ∀ t', t' ≠ t → o ∉ (s.thread t').reserved := by
    intro o ho t' ht' ho'
    rcases (hs.reserved o ho).2 with hr | hr
    · exact h.apart t t' (Ne.symm ht') o hr ho'
    · exact absurd (h.reserved t' o ho').2.2 (not_lt.2 hr.1)
  have horph : ∀ c ∈ th.orphans, ∀ t', t' ≠ t → c ∉ (s.thread t').orphans := by
    intro c hc t' ht' hc'
    rcases hs.orphans c hc with ho | hr
    · exact h.orphansApart t t' (Ne.symm ht') c ho hc'
    · exact (h.reserved t c hr).1 (h.valid.orphan_mem c ⟨t', hc'⟩).1
  exact
    { valid := by
        rw [horphans]
        exact hs.valid
      represents := hM
      rootMem := hs.rootMem
      rootTop := hs.rootTop
      locked := hlocked
      free := hfree
      bounds := fun o ho => by
        rcases hs.changes.new o ho with ho | ho
        · exact ⟨(h.bounds o ho).1, (h.bounds o ho).2.trans_le hs.free⟩
        · exact hbounds o ho
      clean := fun o ho hd => by
        have hdth : o ∉ th.dirty := by simpa only [hself] using hd t
        by_cases hw : o ∈ (s.thread t).writeLocks ∨ o ∈ (s.thread t).reserved
        · exact hs.clean o ho hw hdth
        · rw [not_or] at hw
          have hoT := (hs.changes.new o ho).resolve_right hw.2
          obtain ⟨node, hnode, hT⟩ := h.clean o hoT fun t' ht' => by
            by_cases htt : t' = t
            · subst htt
              exact hw.1 (Thread.dirty_subset _ o ht')
            · exact hd t' (by simpa only [hother t' htt] using ht')
          refine ⟨node, ?_, hT.congr (hs.changes.agree o hoT hw.1) (hs.changes.root o hoT hw.1)⟩
          show store.file.node o = some node
          rw [hs.node o (fun h' => hw.1 h'.2) hw.2, hnode]
      reserved := fun t' o ho => by
        by_cases htt : t' = t
        · simp only [htt, hself] at ho
          obtain ⟨hno, hr⟩ := hs.reserved o ho
          refine ⟨hno, ?_⟩
          rcases hr with hr | hr
          · exact hbounds o hr
          · exact ⟨h.free.trans_le hr.1, hr.2⟩
        · simp only [hother t' htt] at ho
          obtain ⟨hno, hlt, hltf⟩ := h.reserved t' o ho
          refine ⟨fun ho' => ?_, hlt, hltf.trans_le hs.free⟩
          rcases hs.changes.new o ho' with ho' | ho'
          · exact hno ho'
          · exact h.apart t' t htt o ho ho'
      apart := fun t₁ t₂ hne o ho ho' => by
        by_cases h₁ : t₁ = t
        · subst h₁
          simp only [hself, hother t₂ (Ne.symm hne)] at ho ho'
          exact hres o ho t₂ (Ne.symm hne) ho'
        · by_cases h₂ : t₂ = t
          · subst h₂
            simp only [hself, hother t₁ hne] at ho ho'
            exact hres o ho' t₁ hne ho
          · simp only [hother t₁ h₁, hother t₂ h₂] at ho ho'
            exact h.apart t₁ t₂ hne o ho ho'
      orphansApart := fun t₁ t₂ hne o ho ho' => by
        by_cases h₁ : t₁ = t
        · subst h₁
          simp only [hself, hother t₂ (Ne.symm hne)] at ho ho'
          exact horph o ho t₂ (Ne.symm hne) ho'
        · by_cases h₂ : t₂ = t
          · subst h₂
            simp only [hself, hother t₁ hne] at ho ho'
            exact horph o ho' t₁ hne ho
          · simp only [hother t₁ h₁, hother t₂ h₂] at ho ho'
            exact h.orphansApart t₁ t₂ hne o ho ho'
      ok := fun t' => by
        by_cases htt : t' = t
        · subst htt
          simp only [hself]
          exact hs.ok
        · simp only [hother t' htt]
          rw [hm t' htt]
          exact (h.ok t').stable (hs.undisturbed h htt) }

/-- A step that leaves the tree alone and in the file writes at most a node of its own. -/
lemma Preserves.same (h : Inv skip s T M m) {k : Nat} {file : ServiceFile L} {th : Thread L}
    (hroot : file.root = s.store.file.root) (hfree : s.store.file.free ≤ file.free)
    (hnode : ∀ o, o ∉ (s.thread t).reserved → o ∉ th.dirty →
      file.node o = s.store.file.node o)
    (hdirty : ∀ o ∈ th.dirty, o ∈ T.nodes ∧ o ∈ (s.thread t).writeLocks)
    (hkept : ∀ o ∈ (s.thread t).dirty, o ∈ th.dirty)
    (hreserved : ∀ o ∈ th.reserved, o ∈ (s.thread t).reserved ∨
      s.store.file.free ≤ o ∧ o < file.free)
    (horphans : th.orphans = (s.thread t).orphans) (hok : th.Ok T file skip k) :
    Preserves skip s t T T k file th where
  changes := .refl s t T
  valid := by
    have hsub : (s.thread t).orphans ⊆ s.orphans := fun c hc => ⟨t, hc⟩
    rw [horphans, Set.sdiff_union_of_subset hsub]
    exact h.valid
  rootMem := hroot ▸ h.rootMem
  rootTop := hroot ▸ h.rootTop
  free := hfree
  node o ho hr := hnode o hr fun hd => ho (hdirty o hd)
  clean o ho hw hd := by
    have hr : o ∉ (s.thread t).reserved := fun hr => (h.reserved t o hr).1 ho
    rw [hnode o hr hd]
    exact h.node_of_held ho (.inl (hw.resolve_right hr)) fun hd' => hd (hkept o hd')
  dirty o ho := .inl (hdirty o ho).2
  reserved o ho := by
    refine ⟨fun hoT => ?_, hreserved o ho⟩
    rcases hreserved o ho with hr | hr
    · exact (h.reserved t o hr).1 hoT
    · exact absurd (h.bounds o hoT).2 (not_lt.2 hr.1)
  orphans c hc := .inl (horphans ▸ hc)
  ok := hok

end System

end TiPI.BLinkTree
