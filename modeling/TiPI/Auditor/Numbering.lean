import TiPI.Auditor.PostEvent

/-!
# Names and their ids

A call of `getOrCreateId` that returns an id returns that of a row of its name, as the column holds
it, and no two names of a table have the same id.
-/

namespace TiPI.Auditor

/-- The row of this name has the id. -/
def Db.Knows (s : Db) (table : Table) (name : String) (id : Nat) : Prop :=
  ∃ n, Name.assign name = some n ∧ s.rows table n = some id

/-- The errors of `getOrCreateId`. -/
def nameErrors : List String := [
  "getOrCreateId tx query error: ERROR: invalid byte sequence for encoding \"UTF8\": 0x00",
  "getOrCreateId tx insert error: ERROR: value too long for type character varying(255)",
  "getOrCreateId tx insert error: no rows in result set"]

namespace Db

variable {s s' : Db} {i : Nat} {c d : Call} {a : Act}

/-- What a call has found out is so. -/
def Told (s : Db) (c : Call) : Prop :=
  match c.pc with
  | .commitFound id => s.Knows c.table c.name id
  | .commitInserted n _ => Name.assign c.name = some n
  | .fail err => err ∈ nameErrors
  | .returned (.ok id) => s.Knows c.table c.name id
  | .returned (.error err) => err ∈ nameErrors
  | _ => True

/-- The ids of a table are different, and the sequence behind them is at the last of them. -/
structure Numbered (s : Db) : Prop where
  le : ∀ table n id, s.rows table n = some id → id ≤ s.seq table
  inj : ∀ table n n' id, s.rows table n = some id → s.rows table n' = some id → n = n'
  pendingLe : ∀ c ∈ s.calls, ∀ n id, c.pc = .commitInserted n id → id ≤ s.seq c.table
  pendingFresh : ∀ c ∈ s.calls, ∀ n id, c.pc = .commitInserted n id →
    ∀ n', s.rows c.table n' ≠ some id
  pendingAlone : ∀ (i j : Nat) (c d : Call) (n n' : Name) (id : Nat), s.calls[i]? = some c →
    s.calls[j]? = some d → c.pc = .commitInserted n id → d.pc = .commitInserted n' id →
    c.table = d.table → i = j

lemma Knows.mono {table : Table} {name : String} {id : Nat} (h : s.Knows table name id)
    (hrows : ∀ table n id, s.rows table n = some id → s'.rows table n = some id) :
    s'.Knows table name id := by
  obtain ⟨n, hn, hrow⟩ := h
  exact ⟨n, hn, hrows table n id hrow⟩

lemma Told.mono (h : s.Told c)
    (hrows : ∀ table n id, s.rows table n = some id → s'.rows table n = some id) : s'.Told c := by
  cases hpc : c.pc with
  | commitFound id =>
    simp only [Told, hpc] at h ⊢
    exact h.mono hrows
  | returned res =>
    cases res with
    | ok id =>
      simp only [Told, hpc] at h ⊢
      exact h.mono hrows
    | error err => simpa only [Told, hpc] using h
  | commitInserted n id => simpa only [Told, hpc] using h
  | fail err => simpa only [Told, hpc] using h
  | beginTx | select | insert => simp only [Told, hpc]

lemma told_selectId : s.Told { c with pc := s.selectId c } := by
  unfold selectId
  split_ifs with hnul
  · simp [Told, nameErrors]
  · cases hrow : (Name.ofText c.name).bind (s.rows c.table) with
    | none => trivial
    | some id =>
      obtain ⟨n, hn, hid⟩ := Option.bind_eq_some_iff.1 hrow
      exact ⟨n, Name.assign_eq hn, hid⟩

/-- What an `INSERT` does to the sequence. -/
lemma insertName_cases (h : s.insertName i c = some s') :
    (∃ err ∈ nameErrors, s' = s.goto i c (.fail err)) ∨
    ∃ pc, s' = { s with
        seq := Function.update s.seq c.table (s.seq c.table + 1) }.goto i c pc ∧
      ((∃ err ∈ nameErrors, pc = .fail err) ∨
        ∃ n, Name.assign c.name = some n ∧ s.held c.table n = false ∧ s.rows c.table n = none ∧
          pc = .commitInserted n (s.seq c.table + 1)) := by
  unfold insertName at h
  split at h
  · obtain rfl := Option.some.inj h
    exact .inl ⟨_, by simp [nameErrors], rfl⟩
  · next n hn =>
    split at h
    · cases h
    · next hheld =>
      simp only at h
      split at h
      · obtain rfl := Option.some.inj h
        exact .inr ⟨_, rfl, .inl ⟨_, by simp [nameErrors], rfl⟩⟩
      · next hrow =>
        obtain rfl := Option.some.inj h
        exact .inr ⟨_, rfl, .inr ⟨n, hn, by simpa using hheld, hrow, rfl⟩⟩

lemma step_insert (h : s.step (.run i) = some s') (hc : s.calls[i]? = some c)
    (hpc : c.pc = .insert) :
    s.insertName i c = some s' := by
  rw [step, hc, Option.bind_some, getOrCreateId, hpc] at h
  exact h

/-! ### Calls say what is so -/

lemma told_step (hs : s.Sound) (htold : ∀ c ∈ s.calls, s.Told c) (hstep : s.step a = some s') :
    ∀ c ∈ s'.calls, s'.Told c := by
  have hold : ∀ d ∈ s.calls, s'.Told d :=
    fun d hd => (htold d hd).mono fun _ _ _ hrow => hs.rows_step hstep hrow
  have hinserts : ∀ i c, s.calls[i]? = some c → c.pc = .insert → s.step (.run i) = some s' →
      ∀ c ∈ s'.calls, s'.Told c := by
    intro i c hc hpc hstep
    rcases insertName_cases (step_insert hstep hc hpc) with
      ⟨err, herr, rfl⟩ | ⟨pc, rfl, ⟨err, herr, rfl⟩ | ⟨n, hn, -, -, rfl⟩⟩
    · exact forall_goto hold herr
    · exact @forall_goto { s with seq := _ } i c _ _ hold herr
    · exact @forall_goto { s with seq := _ } i c _ _ hold hn
  cases step_cases hstep with
  | call name table =>
    intro d hd
    rcases List.mem_append.1 hd with hd | hd
    · exact hold d hd
    · obtain rfl := List.mem_singleton.1 hd
      trivial
  | begins i c hc hpc => exact forall_goto hold trivial
  | selects i c hc hpc => exact forall_goto hold told_selectId
  | inserts i c seq n id hc hpc => exact hinserts i c hc hpc hstep
  | refuses i c seq err hc hpc => exact hinserts i c hc hpc hstep
  | commits i c n id hc hpc =>
    have hn := htold c (List.mem_of_getElem? hc)
    simp only [Told, hpc] at hn
    exact forall_goto hold ⟨n, hn, by simp⟩
  | returns i c id hc hpc =>
    have hfound := htold c (List.mem_of_getElem? hc)
    simp only [Told, hpc] at hfound
    exact forall_goto hold hfound
  | fails i c err hc hpc =>
    have herr := htold c (List.mem_of_getElem? hc)
    simp only [Told, hpc] at herr
    exact forall_goto hold herr

/-! ### Ids are different -/

lemma Numbered.goto (h : s.Numbered) {pc : Pc} (hpc : ∀ n id, pc ≠ .commitInserted n id) :
    (s.goto i c pc).Numbered where
  le := h.le
  inj := h.inj
  pendingLe := forall_goto h.pendingLe fun n id heq => absurd heq (hpc n id)
  pendingFresh := forall_goto h.pendingFresh fun n id heq => absurd heq (hpc n id)
  pendingAlone j k d e n n' id hd he hdpc hepc := by
    rcases getElem?_goto hd with ⟨-, rfl⟩ | ⟨-, hd⟩
    · exact absurd hdpc (hpc n id)
    · rcases getElem?_goto he with ⟨-, rfl⟩ | ⟨-, he⟩
      · exact absurd hepc (hpc n' id)
      · exact h.pendingAlone j k d e n n' id hd he hdpc hepc

/-- Using up a value of the sequence. -/
lemma Numbered.next (h : s.Numbered) (table : Table) :
    Numbered { s with seq := Function.update s.seq table (s.seq table + 1) } := by
  have hle : ∀ t, s.seq t ≤ Function.update s.seq table (s.seq table + 1) t := by
    intro t
    rw [Function.update_apply]
    split_ifs with ht
    · rw [ht]
      exact Nat.le_succ _
    · exact le_rfl
  exact ⟨fun t n id hrow => (h.le t n id hrow).trans (hle t), h.inj,
    fun d hd n id hpc => (h.pendingLe d hd n id hpc).trans (hle d.table), h.pendingFresh,
    h.pendingAlone⟩

/-- The new id is above all the others. -/
lemma Numbered.insert (h : s.Numbered) {n : Name} :
    Numbered ({ s with seq := Function.update s.seq c.table (s.seq c.table + 1) }.goto i c
      (.commitInserted n (s.seq c.table + 1))) := by
  have hnext := h.next c.table
  refine ⟨hnext.le, hnext.inj, forall_goto hnext.pendingLe ?_,
    forall_goto hnext.pendingFresh ?_, ?_⟩
  · intro n' id hpc
    obtain ⟨-, rfl⟩ := Pc.commitInserted.inj hpc
    simp [Db.goto]
  · intro n' id hpc n'' hrow
    obtain ⟨-, rfl⟩ := Pc.commitInserted.inj hpc
    have hle := h.le c.table n'' _ hrow
    omega
  · intro j k d e n' n'' id hd he hdpc hepc htable
    rcases getElem?_goto hd with ⟨hj, rfl⟩ | ⟨-, hd⟩
    · rcases getElem?_goto he with ⟨hk, -⟩ | ⟨-, he⟩
      · exact hj.trans hk.symm
      · obtain ⟨-, rfl⟩ := Pc.commitInserted.inj hdpc
        have hle := h.pendingLe e (List.mem_of_getElem? he) n'' _ hepc
        rw [← htable] at hle
        exact absurd hle (Nat.not_succ_le_self _)
    · rcases getElem?_goto he with ⟨-, rfl⟩ | ⟨-, he⟩
      · obtain ⟨-, rfl⟩ := Pc.commitInserted.inj hepc
        have hle := h.pendingLe d (List.mem_of_getElem? hd) n' _ hdpc
        rw [htable] at hle
        exact absurd hle (Nat.not_succ_le_self _)
      · exact h.pendingAlone j k d e n' n'' id hd he hdpc hepc htable

lemma Numbered.commit (h : s.Numbered) {n : Name} {id : Nat} (hc : s.calls[i]? = some c)
    (hpc : c.pc = .commitInserted n id) :
    Numbered { s.goto i c (.returned (.ok id)) with
      rows := Function.update s.rows c.table
        (Function.update (s.rows c.table) n (some id)) } := by
  have hmem := List.mem_of_getElem? hc
  have hrows : ∀ {table n' id'}, Function.update s.rows c.table
      (Function.update (s.rows c.table) n (some id)) table n' = some id' →
      (table = c.table ∧ n' = n ∧ id' = id) ∨ s.rows table n' = some id' := by
    intro table n' id' hrow
    by_cases htable : table = c.table
    · subst htable
      by_cases hn : n' = n
      · subst hn
        simp only [Function.update_self, Option.some.injEq] at hrow
        exact .inl ⟨rfl, rfl, hrow.symm⟩
      · rw [Function.update_self, Function.update_of_ne hn] at hrow
        exact .inr hrow
    · rw [Function.update_of_ne htable] at hrow
      exact .inr hrow
  have hgoto : (s.goto i c (.returned (.ok id))).Numbered := h.goto (by simp)
  refine ⟨fun table n' id' hrow => ?_, fun table n' n'' id' hrow hrow' => ?_, hgoto.pendingLe,
    fun d hd n' id' hdpc n'' hrow => ?_, hgoto.pendingAlone⟩
  · rcases hrows hrow with ⟨rfl, rfl, rfl⟩ | hrow
    · exact h.pendingLe c hmem n' id' hpc
    · exact h.le table n' id' hrow
  · rcases hrows hrow with ⟨rfl, rfl, rfl⟩ | hold
    · rcases hrows hrow' with ⟨-, rfl, -⟩ | hold'
      · rfl
      · exact absurd hold' (h.pendingFresh c hmem n' id' hpc n'')
    · rcases hrows hrow' with ⟨rfl, rfl, rfl⟩ | hold'
      · exact absurd hold (h.pendingFresh c hmem n'' id' hpc n')
      · exact h.inj table n' n'' id' hold hold'
  · rcases hrows hrow with ⟨htable, rfl, rfl⟩ | hrow
    · obtain ⟨j, hj⟩ := List.mem_iff_getElem?.1 hd
      rcases getElem?_goto hj with ⟨-, rfl⟩ | ⟨hne, hj⟩
      · cases hdpc
      · exact hne (h.pendingAlone j i d c n' n'' id' hj hc hdpc hpc htable)
    · exact hgoto.pendingFresh d hd n' id' hdpc n'' hrow

lemma Numbered.step (h : s.Numbered) (hstep : s.step a = some s') : s'.Numbered := by
  have hinserts : ∀ i c, s.calls[i]? = some c → c.pc = .insert → s.step (.run i) = some s' →
      s'.Numbered := by
    intro i c hc hpc hstep
    rcases insertName_cases (step_insert hstep hc hpc) with
      ⟨err, -, rfl⟩ | ⟨pc, rfl, ⟨err, -, rfl⟩ | ⟨n, -, -, -, rfl⟩⟩
    · exact h.goto (by simp)
    · exact (h.next c.table).goto (by simp)
    · exact h.insert
  cases step_cases hstep with
  | call name table =>
    refine ⟨h.le, h.inj, ?_, ?_, ?_⟩
    · rintro d hd n id hpc
      rcases List.mem_append.1 hd with hd | hd
      · exact h.pendingLe d hd n id hpc
      · obtain rfl := List.mem_singleton.1 hd
        cases hpc
    · rintro d hd n id hpc
      rcases List.mem_append.1 hd with hd | hd
      · exact h.pendingFresh d hd n id hpc
      · obtain rfl := List.mem_singleton.1 hd
        cases hpc
    · intro j k d e n n' id hd he hdpc hepc
      rcases getElem?_snoc hd with hd | rfl
      · rcases getElem?_snoc he with he | rfl
        · exact h.pendingAlone j k d e n n' id hd he hdpc hepc
        · cases hepc
      · cases hdpc
  | begins i c hc hpc => exact h.goto (by simp)
  | selects i c hc hpc =>
    apply h.goto
    intro n id
    unfold selectId
    split_ifs
    · simp
    · split <;> simp
  | inserts i c seq n id hc hpc => exact hinserts i c hc hpc hstep
  | refuses i c seq err hc hpc => exact hinserts i c hc hpc hstep
  | commits i c n id hc hpc => exact h.commit hc hpc
  | returns i c id hc hpc => exact h.goto (by simp)
  | fails i c err hc hpc => exact h.goto (by simp)

end Db

end TiPI.Auditor
