import TiPI.Pipe.Processes
import TiPI.Lib.Progress

/-!
# What comes through, and when nothing does

Every byte is somewhere on its way, in order. A file that the two pipes hold comes out whole; one
that is longer than the pipes and the buffer of the child together keeps both processes waiting for
each other for good, since the parent does not read before it has written everything.
-/

namespace TiPI.Pipe

variable {c : Config} {contents : List UInt8}

def Parent.toWrite : Parent → List UInt8
  | .writeFile rest => rest
  | _ => []

/-- The parent has read these and not printed them. -/
def Parent.toPrint : Parent → List UInt8
  | .print chunk => chunk
  | _ => []

def Child.toWrite : Child → List UInt8
  | .printf rest | .writeFile rest | .flush rest => rest
  | .readFile | .ended => []

/-- What the C library still holds back. -/
def Child.atExit (c : Config) : Child → List UInt8
  | .printf _ | .readFile | .writeFile _ => if c.buffered then message else []
  | .flush _ | .ended => []

/-- What the parent is to print. -/
def expected (c : Config) (contents : List UInt8) : List UInt8 :=
  if c.buffered then contents ++ message else message ++ contents

/-- The part of the message that goes into the pipe in front of the file. -/
def ahead (c : Config) : Nat := if c.buffered then 0 else message.length

lemma message_length_le : message.length ≤ BUFSIZE := by decide

lemma message_ne_nil : message ≠ [] := by decide

/-- The child has seen the end of its input. -/
def Child.atEnd : Child → Bool
  | .printf _ | .readFile | .writeFile _ => false
  | .flush _ | .ended => true

/-- A process that writes has something to write. -/
def Parent.Writing (p : Parent) : Prop := p ≠ .writeFile []

def Child.Writing (ch : Child) : Prop := ch ≠ .printf [] ∧ ch ≠ .writeFile [] ∧ ch ≠ .flush []

@[simp] lemma Parent.wrote_toWrite (p : Parent) (n : Nat) :
    (p.wrote n).toWrite = p.toWrite.drop n := by
  cases p with
  | writeFile rest =>
    by_cases hn : n = rest.length
    · simp [wrote, toWrite, hn]
    · simp [wrote, toWrite, hn]
  | _ => simp [wrote, toWrite]

@[simp] lemma Child.wrote_toWrite (ch : Child) (n : Nat) :
    (ch.wrote n).toWrite = ch.toWrite.drop n := by
  cases ch with
  | printf rest | writeFile rest | flush rest =>
    by_cases hn : n = rest.length
    · simp [wrote, toWrite, hn]
    · simp [wrote, toWrite, hn]
  | _ => simp [wrote, toWrite]

@[simp] lemma Child.wrote_atExit (ch : Child) (n : Nat) : (ch.wrote n).atExit c = ch.atExit c := by
  cases ch with
  | printf rest | writeFile rest | flush rest =>
    by_cases hn : n = rest.length <;> simp [wrote, atExit, hn]
  | _ => rfl

@[simp] lemma Child.wrote_atEnd (ch : Child) (n : Nat) : (ch.wrote n).atEnd = ch.atEnd := by
  cases ch with
  | printf rest | writeFile rest | flush rest =>
    by_cases hn : n = rest.length <;> simp [wrote, atEnd, hn]
  | _ => rfl

lemma Child.exit_toWrite : (Child.exit c).toWrite = if c.buffered then message else [] := by
  unfold exit
  split_ifs <;> rfl

lemma Child.exit_atExit : (Child.exit c).atExit c = [] := by
  unfold exit
  split_ifs <;> rfl

lemma Parent.writing_wrote {rest : List UInt8} {n : Nat} (hle : n ≤ rest.length) :
    ((Parent.writeFile rest).wrote n).Writing := by
  by_cases hn : n = rest.length
  · simp [wrote, Writing, hn]
  · simp only [wrote, if_neg hn]
    intro heq
    have hlen := congrArg List.length (Parent.writeFile.inj heq)
    simp only [List.length_drop, List.length_nil] at hlen
    omega

/-- A parent that writes has not closed the pipe yet. -/
lemma Parent.wrote_before (rest : List UInt8) (n : Nat) :
    ((writeFile rest).wrote n).closed = false ∧ ((writeFile rest).wrote n).toPrint = [] ∧
      (writeFile rest).wrote n ≠ .closeHandle := by
  by_cases hn : n = rest.length <;> simp [wrote, closed, toPrint, hn]

lemma Child.writing_wrote {ch : Child} {n : Nat} (h : ch.Writing) (hle : n ≤ ch.toWrite.length) :
    (ch.wrote n).Writing := by
  have hdrop : ∀ rest : List UInt8, n ≤ rest.length → n ≠ rest.length → rest.drop n ≠ [] := by
    intro rest hle hn heq
    have hlen := congrArg List.length heq
    simp only [List.length_drop, List.length_nil] at hlen
    omega
  cases ch with
  | printf rest | writeFile rest | flush rest =>
    by_cases hn : n = rest.length
    · simp [wrote, Writing, hn]
    · simpa [wrote, Writing, hn] using hdrop rest hle hn
  | _ => exact h

namespace Processes

variable {s s' : Processes} {a : Act}

/-- The branches of a step. -/
inductive StepCase (c : Config) (s : Processes) : Processes → Prop
  | readsFile (parent : s.parent = .readFile) (more : s.file ≠ []) :
      StepCase c s
        { s with parent := .writeFile (s.file.take BUFSIZE), file := s.file.drop BUFSIZE }
  | fileEnds (parent : s.parent = .readFile) (file : s.file = []) :
      StepCase c s { s with parent := .closeHandle }
  | writes (rest : List UInt8) (n : Nat) (parent : s.parent = .writeFile rest) (pos : 0 < n)
      (le : n ≤ rest.length) (room : s.toChild.length + n ≤ c.inSize) :
      StepCase c s { s with toChild := s.toChild ++ rest.take n, parent := s.parent.wrote n }
  | closes (parent : s.parent = .closeHandle) : StepCase c s { s with parent := .readPipe }
  | readsPipe (n : Nat) (parent : s.parent = .readPipe) (pos : 0 < n)
      (le : n ≤ s.fromChild.length) :
      StepCase c s
        { s with parent := .print (s.fromChild.take n), fromChild := s.fromChild.drop n }
  | outputEnds (parent : s.parent = .readPipe) (empty : s.fromChild = [])
      (child : s.child = .ended) :
      StepCase c s { s with parent := .ended }
  | prints (chunk : List UInt8) (parent : s.parent = .print chunk) :
      StepCase c s { s with parent := .readPipe, printed := s.printed ++ chunk }
  | childReads (n : Nat) (child : s.child = .readFile) (pos : 0 < n) (le : n ≤ s.toChild.length)
      (size : n ≤ BUFSIZE) :
      StepCase c s { s with child := .writeFile (s.toChild.take n), toChild := s.toChild.drop n }
  | inputEnds (child : s.child = .readFile) (empty : s.toChild = []) (closed : s.parent.closed) :
      StepCase c s { s with child := .exit c }
  | childWrites (n : Nat) (pos : 0 < n) (le : n ≤ s.child.toWrite.length)
      (room : s.fromChild.length + n ≤ c.outSize) :
      StepCase c s
        { s with fromChild := s.fromChild ++ s.child.toWrite.take n, child := s.child.wrote n }

lemma step_cases (h : step c s a = some s') : StepCase c s s' := by
  cases a with
  | parent n =>
    simp only [step, stepParent] at h
    split at h
    · next hp =>
      split_ifs at h with hfile
      · obtain rfl := Option.some.inj h
        exact .fileEnds hp hfile
      · obtain rfl := Option.some.inj h
        exact .readsFile hp hfile
    · next rest hp =>
      split_ifs at h with hn
      obtain rfl := Option.some.inj h
      exact .writes rest n hp hn.1 hn.2.1 hn.2.2
    · next hp =>
      obtain rfl := Option.some.inj h
      exact .closes hp
    · next hp =>
      split_ifs at h with hempty hchild hn
      · obtain rfl := Option.some.inj h
        exact .outputEnds hp hempty hchild
      · obtain rfl := Option.some.inj h
        exact .readsPipe n hp hn.1 hn.2.2
    · next chunk hp =>
      obtain rfl := Option.some.inj h
      exact .prints chunk hp
    · cases h
  | child n =>
    have hwrites : ∀ rest, s.child.toWrite = rest →
        (if 0 < n ∧ n ≤ rest.length ∧ s.fromChild.length + n ≤ c.outSize then
          some { s with fromChild := s.fromChild ++ rest.take n, child := s.child.wrote n }
        else none) = some s' → StepCase c s s' := by
      rintro rest rfl hif
      obtain ⟨⟨hpos, hle, hroom⟩, heq⟩ := Option.ite_none_right_eq_some.1 hif
      obtain rfl := Option.some.inj heq
      exact .childWrites n hpos hle hroom
    simp only [step, stepChild] at h
    split at h
    · next hc =>
      split_ifs at h with hended hn
      · obtain rfl := Option.some.inj h
        exact .inputEnds hc hended.1 hended.2
      · obtain rfl := Option.some.inj h
        exact .childReads n hc hn.1 hn.2.2 hn.2.1
    · next rest hc => exact hwrites rest (by simp [hc, Child.toWrite]) h
    · next rest hc => exact hwrites rest (by simp [hc, Child.toWrite]) h
    · next rest hc => exact hwrites rest (by simp [hc, Child.toWrite]) h
    · cases h

/-! ### Where the bytes are -/

structure Inv (c : Config) (contents : List UInt8) (s : Processes) : Prop where
  bytes : s.printed ++ s.parent.toPrint ++ s.fromChild ++ s.child.toWrite ++ s.toChild ++
    s.parent.toWrite ++ s.file ++ s.child.atExit c = expected c contents
  file : s.parent = .closeHandle ∨ s.parent.closed → s.file = []
  early : s.parent.closed = false → s.printed = []
  late : s.child.atEnd → s.toChild = [] ∧ s.parent.closed
  parentWriting : s.parent.Writing
  childWriting : s.child.Writing
  size : s.child.toWrite.length ≤ BUFSIZE
  inRoom : s.toChild.length ≤ c.inSize
  outRoom : s.fromChild.length ≤ c.outSize

lemma inv_init (c : Config) (contents : List UInt8) : (init c contents).Inv c contents := by
  cases hb : c.buffered with
  | true => constructor <;> simp [init, hb, Parent.toPrint, Child.toWrite, Parent.toWrite,
      Child.atExit, expected, Parent.closed, Child.atEnd, Parent.Writing, Child.Writing]
  | false =>
    constructor
    case size => simpa [init, hb, Child.toWrite] using message_length_le
    all_goals simp [init, hb, Parent.toPrint, Child.toWrite, Parent.toWrite, Child.atExit,
      expected, Parent.closed, Child.atEnd, Parent.Writing, Child.Writing, message_ne_nil]

lemma Inv.step (h : s.Inv c contents) (hstep : step c s a = some s') : s'.Inv c contents := by
  have hbytes := h.bytes
  cases step_cases hstep with
  | readsFile parent more =>
    refine ⟨?_, by simp [Parent.closed], fun _ => h.early (by simp [parent, Parent.closed]), ?_, ?_,
      h.childWriting, h.size, h.inRoom, h.outRoom⟩
    · simpa [parent, Parent.toPrint, Parent.toWrite] using hbytes
    · intro hend
      simpa [parent, Parent.closed] using (h.late hend).2
    · simpa [Parent.Writing, BUFSIZE] using more
  | fileEnds parent file =>
    refine ⟨?_, fun _ => file, fun _ => h.early (by simp [parent, Parent.closed]), ?_,
      by simp [Parent.Writing], h.childWriting, h.size, h.inRoom, h.outRoom⟩
    · simpa [parent, Parent.toPrint, Parent.toWrite] using hbytes
    · intro hend
      simpa [parent, Parent.closed] using (h.late hend).2
  | writes rest n parent pos le room =>
    obtain ⟨hclosed, hprint, hclose⟩ := Parent.wrote_before rest n
    rw [← parent] at hclosed hprint hclose
    have hwrite : s.parent.toWrite = rest := by rw [parent]; rfl
    have hprint₀ : s.parent.toPrint = [] := by rw [parent]; rfl
    refine ⟨?_, ?_, fun _ => h.early (by simp [parent, Parent.closed]), ?_, ?_, h.childWriting,
      h.size, ?_, h.outRoom⟩
    · simpa [hprint, hprint₀, hwrite] using hbytes
    · simp [hclosed, hclose]
    · intro hend
      simpa [parent, Parent.closed] using (h.late hend).2
    · dsimp only
      rw [parent]
      exact Parent.writing_wrote le
    · simp only [List.length_append, List.length_take]
      omega
  | closes parent =>
    have hfile := h.file (.inl parent)
    refine ⟨?_, fun _ => hfile, by simp [Parent.closed], fun hend => ⟨(h.late hend).1, rfl⟩,
      by simp [Parent.Writing], h.childWriting, h.size, h.inRoom, h.outRoom⟩
    simpa [parent, Parent.toPrint, Parent.toWrite] using hbytes
  | readsPipe n parent pos le =>
    have hfile := h.file (.inr (by simp [parent, Parent.closed]))
    refine ⟨?_, fun _ => hfile, by simp [Parent.closed], fun hend => ⟨(h.late hend).1, rfl⟩,
      by simp [Parent.Writing], h.childWriting, h.size, h.inRoom, ?_⟩
    · simpa [parent, Parent.toPrint, Parent.toWrite] using hbytes
    · exact (List.drop_sublist n s.fromChild).length_le.trans h.outRoom
  | outputEnds parent empty child =>
    have hfile := h.file (.inr (by simp [parent, Parent.closed]))
    refine ⟨?_, fun _ => hfile, by simp [Parent.closed], fun hend => ⟨(h.late hend).1, rfl⟩,
      by simp [Parent.Writing], h.childWriting, h.size, h.inRoom, h.outRoom⟩
    simpa [parent, Parent.toPrint, Parent.toWrite] using hbytes
  | prints chunk parent =>
    have hfile := h.file (.inr (by simp [parent, Parent.closed]))
    refine ⟨?_, fun _ => hfile, by simp [Parent.closed], fun hend => ⟨(h.late hend).1, rfl⟩,
      by simp [Parent.Writing], h.childWriting, h.size, h.inRoom, h.outRoom⟩
    simpa [parent, Parent.toPrint, Parent.toWrite] using hbytes
  | childReads n child pos le size =>
    refine ⟨?_, h.file, h.early, by simp [Child.atEnd], h.parentWriting, ?_, ?_, ?_, h.outRoom⟩
    · simpa [child, Child.toWrite, Child.atExit] using hbytes
    · have hne : s.toChild ≠ [] := List.ne_nil_of_length_pos (by omega)
      simp [Child.Writing, hne, pos.ne']
    · simp only [Child.toWrite, List.length_take]
      omega
    · exact (List.drop_sublist n s.toChild).length_le.trans h.inRoom
  | inputEnds child empty closed =>
    have hfile := h.file (.inr closed)
    have hwrite : s.parent.toWrite = [] := by
      cases hp : s.parent <;> simp_all [Parent.closed, Parent.toWrite]
    refine ⟨?_, h.file, h.early, fun _ => ⟨empty, closed⟩, h.parentWriting, ?_, ?_, h.inRoom,
      h.outRoom⟩
    · have hnone : s.child.toWrite = [] := by rw [child]; rfl
      have hexit : s.child.atExit c = if c.buffered then message else [] := by rw [child]; rfl
      simpa [hnone, hexit, empty, hfile, hwrite, Child.exit_toWrite, Child.exit_atExit] using hbytes
    · unfold Child.exit
      split_ifs <;> simp [Child.Writing, message_ne_nil]
    · rw [Child.exit_toWrite]
      split_ifs
      · exact message_length_le
      · exact Nat.zero_le _
  | childWrites n pos le room =>
    refine ⟨?_, h.file, h.early, ?_, h.parentWriting, Child.writing_wrote h.childWriting le, ?_,
      h.inRoom, ?_⟩
    · simpa using hbytes
    · simpa using h.late
    · simp only [Child.wrote_toWrite, List.length_drop]
      have hsize := h.size
      omega
    · simp only [List.length_append, List.length_take]
      omega

/-- The parent ends behind the child, with nothing left in the pipe. -/
def Over (s : Processes) : Prop := s.parent = .ended → s.fromChild = [] ∧ s.child = .ended

lemma Over.step (h : s.Over) (hstep : step c s a = some s') : s'.Over := by
  cases step_cases hstep with
  | writes rest n parent =>
    intro hended
    dsimp only at hended
    have hbefore := (Parent.wrote_before rest n).1
    rw [← parent, hended] at hbefore
    simp [Parent.closed] at hbefore
  | outputEnds parent empty child => exact fun _ => ⟨empty, child⟩
  | childReads n child => exact fun hended => by simpa [child] using (h hended).2
  | inputEnds child => exact fun hended => by simpa [child] using (h hended).2
  | childWrites n pos le =>
    intro hended
    have hchild := (h hended).2
    simp only [hchild, Child.toWrite, List.length_nil] at le
    omega
  | readsFile | fileEnds | closes | readsPipe | prints => simp [Over]

lemma inv_run {as : List Act} (h : AllSteps (step c) (init c contents) as s) :
    s.Inv c contents ∧ s.Over := by
  apply h.invariant (P := fun _ s => s.Inv c contents ∧ s.Over)
  · exact ⟨inv_init c contents, by simp [Over, init]⟩
  · rintro _ s a s' ⟨hs, hover⟩ - hstep
    exact ⟨hs.step hstep, hover.step hstep⟩

/-- What is printed is what comes in front of the rest. -/
lemma Inv.printed_begins (h : s.Inv c contents) : s.printed <+: expected c contents := by
  rw [← h.bytes]
  simp only [List.append_assoc]
  exact List.prefix_append _ _

/-- At the end everything has been printed. -/
lemma Inv.printed_eq (h : s.Inv c contents) (hover : s.Over) (hended : s.parent = .ended) :
    s.printed = expected c contents := by
  obtain ⟨hfrom, hchild⟩ := hover hended
  obtain ⟨hto, -⟩ := h.late (by simp [hchild, Child.atEnd])
  have hfile := h.file (.inr (by simp [hended, Parent.closed]))
  simpa [hended, hfrom, hchild, hto, hfile, Parent.toPrint, Parent.toWrite, Child.toWrite,
    Child.atExit] using h.bytes

lemma expected_length : (expected c contents).length = contents.length + message.length := by
  unfold expected
  split_ifs <;> simp [add_comm]

/-- Before the parent reads, all bytes but those for the exit are in the file, the processes or the
pipes. -/
lemma Inv.length_early (h : s.Inv c contents) (hclosed : s.parent.closed = false) :
    s.fromChild.length + s.child.toWrite.length + s.toChild.length + s.parent.toWrite.length +
      s.file.length = contents.length + ahead c := by
  have hend : s.child.atEnd = false := by
    by_contra hend
    simp [(h.late (by simpa using hend)).2] at hclosed
  have hprint : s.parent.toPrint = [] := by
    cases hp : s.parent <;> simp_all [Parent.toPrint, Parent.closed]
  have hexit : (s.child.atExit c).length + ahead c = message.length := by
    unfold ahead
    cases hc : s.child with
    | printf rest | writeFile rest => by_cases hb : c.buffered <;> simp [Child.atExit, hb]
    | readFile => by_cases hb : c.buffered <;> simp [Child.atExit, hb]
    | flush rest => simp [hc, Child.atEnd] at hend
    | ended => simp [hc, Child.atEnd] at hend
  have hlen := congrArg List.length h.bytes
  simp only [h.early hclosed, hprint, expected_length, List.length_append, List.length_nil] at hlen
  omega

/-! ### How long a run is -/

def Parent.phase : Parent → Nat
  | .readFile | .writeFile _ => 3
  | .closeHandle | .print _ => 2
  | .readPipe => 1
  | .ended => 0

/-- Each byte has up to seven places to pass. -/
def left (c : Config) (s : Processes) : Nat :=
  7 * s.file.length + 6 * s.parent.toWrite.length + 5 * s.toChild.length +
    4 * s.child.toWrite.length + 4 * (s.child.atExit c).length + 3 * s.fromChild.length +
    s.parent.toPrint.length + Parent.phase s.parent + (if s.child.atEnd then 0 else 1)

lemma left_step (hstep : step c s a = some s') : s'.left c < s.left c := by
  unfold left
  cases step_cases hstep with
  | readsFile parent more =>
    have hpos := List.length_pos_iff.2 more
    simp only [parent, Parent.toWrite, Parent.toPrint, Parent.phase, List.length_take,
      List.length_drop, List.length_nil, BUFSIZE]
    omega
  | fileEnds parent file =>
    simp [parent, Parent.toWrite, Parent.toPrint, Parent.phase]
  | writes rest n parent pos le room =>
    have hphase : Parent.phase (s.parent.wrote n) = 3 ∧ (s.parent.wrote n).toPrint = [] := by
      rw [parent]
      by_cases hn : n = rest.length <;> simp [Parent.wrote, Parent.phase, Parent.toPrint, hn]
    simp only [Parent.wrote_toWrite, hphase]
    simp only [parent, Parent.toWrite, Parent.toPrint, Parent.phase, List.length_append,
      List.length_take, List.length_drop, List.length_nil]
    omega
  | closes parent => simp [parent, Parent.toWrite, Parent.toPrint, Parent.phase]
  | readsPipe n parent pos le =>
    simp only [parent, Parent.toWrite, Parent.toPrint, Parent.phase, List.length_take,
      List.length_drop, List.length_nil]
    omega
  | outputEnds parent empty child => simp [parent, Parent.toWrite, Parent.toPrint, Parent.phase]
  | prints chunk parent =>
    simp only [parent, Parent.toWrite, Parent.toPrint, Parent.phase, List.length_nil]
    omega
  | childReads n child pos le size =>
    have hexit : (Child.writeFile (s.toChild.take n)).atExit c = s.child.atExit c := by
      rw [child]
      rfl
    have hwrite : s.child.toWrite = [] := by rw [child]; rfl
    have hend : s.child.atEnd = false := by rw [child]; rfl
    rw [hexit, hwrite, hend]
    simp only [Child.toWrite, Child.atEnd, List.length_take, List.length_drop, List.length_nil,
      Bool.false_eq_true, if_false]
    omega
  | inputEnds child empty closed =>
    have hexit : (Child.exit c).toWrite.length = (s.child.atExit c).length := by
      rw [Child.exit_toWrite, child]
      rfl
    have hend : (Child.exit c).atEnd = true := by
      unfold Child.exit
      split_ifs <;> rfl
    have hwrite : s.child.toWrite = [] := by rw [child]; rfl
    have hend' : s.child.atEnd = false := by rw [child]; rfl
    rw [hexit, hend, Child.exit_atExit, hwrite, hend']
    simp
  | childWrites n pos le room =>
    simp only [Child.wrote_toWrite, Child.wrote_atExit, Child.wrote_atEnd, List.length_append,
      List.length_take, List.length_drop]
    omega

lemma length_le_run {as : List Act} (h : AllSteps (step c) (init c contents) as s) :
    as.length ≤ 7 * contents.length + 4 * message.length + 4 := by
  have hle := h.length_le (left c) (fun _ => 0) fun s a s' _ hstep => by
    have hlt := left_step hstep
    omega
  have hinit : (init c contents).left c = 7 * contents.length + 4 * message.length + 4 := by
    cases hb : c.buffered <;>
      simp [left, init, hb, Parent.toWrite, Parent.toPrint, Parent.phase, Child.toWrite,
        Child.atExit, Child.atEnd]
  have hpay : (as.map fun _ => 0).sum = 0 := by simp
  omega

/-! ### Where a run gets stuck -/

lemma stuck_parent (hp : s.stepParent c 1 = none) (hwriting : s.parent.Writing) :
    s.parent = .ended ∨
      (∃ rest, s.parent = .writeFile rest ∧ rest ≠ [] ∧ c.inSize ≤ s.toChild.length) ∨
      s.parent = .readPipe ∧ s.fromChild = [] ∧ s.child ≠ .ended := by
  unfold stepParent at hp
  split at hp
  · split_ifs at hp
  · next rest hrest =>
    have hne : rest ≠ [] := fun hnil => hwriting (by rw [hrest, hnil])
    have hpos := List.length_pos_iff.2 hne
    simp only [ite_eq_right_iff, reduceCtorEq, imp_false] at hp
    exact .inr (.inl ⟨rest, hrest, hne, by omega⟩)
  · cases hp
  · next hread =>
    split_ifs at hp with hempty hchild hroom
    · exact .inr (.inr ⟨hread, hempty, hchild⟩)
    · have hpos := List.length_pos_iff.2 hempty
      simp only [BUFSIZE] at hroom
      omega
  · cases hp
  · next hended => exact .inl hended

lemma stuck_child (hc : s.stepChild c 1 = none) (hwriting : s.child.Writing) :
    s.child = .ended ∨ (s.child.toWrite ≠ [] ∧ c.outSize ≤ s.fromChild.length) ∨
      s.child = .readFile ∧ s.toChild = [] ∧ s.parent.closed = false := by
  have hwrites : ∀ rest : List UInt8, rest ≠ [] → s.child.toWrite = rest →
      (if 0 < 1 ∧ 1 ≤ rest.length ∧ s.fromChild.length + 1 ≤ c.outSize then
        some { s with fromChild := s.fromChild ++ rest.take 1, child := s.child.wrote 1 }
      else none) = none → s.child.toWrite ≠ [] ∧ c.outSize ≤ s.fromChild.length := by
    intro rest hne hrest hif
    have hpos := List.length_pos_iff.2 hne
    simp only [ite_eq_right_iff, reduceCtorEq, imp_false] at hif
    exact ⟨hrest ▸ hne, by omega⟩
  unfold stepChild at hc
  split at hc
  · next hread =>
    split_ifs at hc with hended hroom
    refine .inr (.inr ⟨hread, ?_⟩)
    have hnil : s.toChild = [] := by
      by_contra hne
      have hpos := List.length_pos_iff.2 hne
      simp only [BUFSIZE] at hroom
      omega
    exact ⟨hnil, by simpa [hnil] using hended⟩
  · next rest hrest =>
    refine .inr (.inl (hwrites rest ?_ (by simp [hrest, Child.toWrite]) hc))
    exact fun hnil => hwriting.1 (by rw [hrest, hnil])
  · next rest hrest =>
    refine .inr (.inl (hwrites rest ?_ (by simp [hrest, Child.toWrite]) hc))
    exact fun hnil => hwriting.2.1 (by rw [hrest, hnil])
  · next rest hrest =>
    refine .inr (.inl (hwrites rest ?_ (by simp [hrest, Child.toWrite]) hc))
    exact fun hnil => hwriting.2.2 (by rw [hrest, hnil])
  · next hended => exact .inl hended

/-- Both processes have ended, or each waits for the other to read. -/
lemma Inv.stuck (h : s.Inv c contents) (hstuck : ∀ a, Processes.step c s a = none) :
    s.parent = .ended ∨ s.parent.closed = false ∧ s.parent.toWrite ≠ [] ∧ s.child.toWrite ≠ [] ∧
      s.toChild.length = c.inSize ∧ s.fromChild.length = c.outSize := by
  rcases stuck_parent (hstuck (.parent 1)) h.parentWriting with
    hended | ⟨rest, hrest, hne, hin⟩ | ⟨hread, hempty, hrunning⟩
  · exact .inl hended
  · have hclosed : s.parent.closed = false := by rw [hrest]; rfl
    have hto : s.toChild ≠ [] := List.ne_nil_of_length_pos (by have hpos := c.in_pos; omega)
    rcases stuck_child (hstuck (.child 1)) h.childWriting with
      hended | ⟨hwrite, hout⟩ | ⟨-, hnil, -⟩
    · have hend := (h.late (by simp [hended, Child.atEnd])).2
      simp [hclosed] at hend
    · refine .inr ⟨hclosed, by simpa [hrest, Parent.toWrite] using hne, hwrite, ?_, ?_⟩
      · exact le_antisymm h.inRoom hin
      · exact le_antisymm h.outRoom hout
    · exact absurd hnil hto
  · rcases stuck_child (hstuck (.child 1)) h.childWriting with hended | ⟨-, hout⟩ | ⟨-, -, hopen⟩
    · exact absurd hended hrunning
    · have hpos := c.out_pos
      simp only [hempty, List.length_nil] at hout
      omega
    · simp [hread, Parent.closed] at hopen

/-- A file that fits into the pipes comes out whole: every run ends, both processes with it, and the
parent has then printed the file and the message. -/
theorem pipes_carry {as : List Act} (hrun : AllSteps (step c) (init c contents) as s)
    (hfits : contents.length + ahead c ≤ c.inSize + c.outSize + 1) :
    as.length ≤ 7 * contents.length + 4 * message.length + 4 ∧
    s.printed <+: expected c contents ∧
    ((∀ a, step c s a = none) →
      s.parent = .ended ∧ s.child = .ended ∧ s.printed = expected c contents) := by
  obtain ⟨hinv, hover⟩ := inv_run hrun
  refine ⟨length_le_run hrun, hinv.printed_begins, fun hstuck => ?_⟩
  rcases hinv.stuck hstuck with hended | ⟨hclosed, hparent, hchild, hin, hout⟩
  · exact ⟨hended, (hover hended).2, hinv.printed_eq hover hended⟩
  · have hlen := hinv.length_early hclosed
    have hparent := List.length_pos_iff.2 hparent
    have hchild := List.length_pos_iff.2 hchild
    omega

/-- Two bytes, and pipes that have room for all there is. -/
theorem pipes_carry_two : ∃ s, AllSteps (step ⟨4, 64, true, by decide, by decide⟩)
      (init ⟨4, 64, true, by decide, by decide⟩ [104, 105])
      [.parent 0, .parent 2, .parent 0, .parent 0, .child 2, .child 2, .child 0, .child 53,
        .parent 55, .parent 0, .parent 0] s ∧
    s.printed = [104, 105] ++ message := by
  have hex : ∃ s, AllSteps (step ⟨4, 64, true, by decide, by decide⟩)
      (init ⟨4, 64, true, by decide, by decide⟩ [104, 105])
      [.parent 0, .parent 2, .parent 0, .parent 0, .child 2, .child 2, .child 0, .child 53,
        .parent 55, .parent 0, .parent 0] s ∧ s.parent = .ended ∧ s.child = .ended :=
    steps_of_exec _ (by decide +kernel)
  obtain ⟨s, hrun, hparent, hchild⟩ := hex
  refine ⟨s, hrun, ((pipes_carry hrun (by decide)).2.2 fun a => ?_).2.2⟩
  cases a with
  | parent n => simp [step, stepParent, hparent]
  | child n => simp [step, stepChild, hchild]

/-- A longer file never comes out: the parent prints nothing and does not get to the end of the
file, and every run comes to where both pipes are full and both processes wait for the other one. -/
theorem pipes_block {as : List Act} (hrun : AllSteps (step c) (init c contents) as s)
    (hlong : c.inSize + c.outSize + BUFSIZE < contents.length + ahead c) :
    as.length ≤ 7 * contents.length + 4 * message.length + 4 ∧
    s.printed = [] ∧ s.parent.closed = false ∧
    ((∀ a, step c s a = none) → s.parent.toWrite ≠ [] ∧ s.child.toWrite ≠ [] ∧
      s.toChild.length = c.inSize ∧ s.fromChild.length = c.outSize) := by
  have hwriting : ∀ s : Processes, s.Inv c contents → s.parent.closed = false →
      s.parent ≠ .closeHandle := by
    intro s hs hclosed hclose
    have hlen := hs.length_early hclosed
    have hfile := congrArg List.length (hs.file (.inl hclose))
    have hrest : s.parent.toWrite.length = 0 := by rw [hclose]; rfl
    have hsize := hs.size
    have hin := hs.inRoom
    have hout := hs.outRoom
    simp only [List.length_nil] at hfile
    omega
  have hall : s.Inv c contents ∧ s.parent.closed = false := by
    apply hrun.invariant (P := fun _ s => s.Inv c contents ∧ s.parent.closed = false)
    · exact ⟨inv_init c contents, rfl⟩
    · rintro _ s a s' ⟨hs, hclosed⟩ - hstep
      refine ⟨hs.step hstep, ?_⟩
      cases step_cases hstep with
      | readsFile | fileEnds => rfl
      | writes rest n parent =>
        dsimp only
        rw [parent]
        exact (Parent.wrote_before rest n).1
      | closes parent => exact absurd parent (hwriting s hs hclosed)
      | readsPipe n parent | outputEnds parent | prints chunk parent =>
        simp [parent, Parent.closed] at hclosed
      | childReads | inputEnds | childWrites => exact hclosed
  obtain ⟨hinv, hclosed⟩ := hall
  refine ⟨length_le_run hrun, hinv.early hclosed, hclosed, fun hstuck => ?_⟩
  rcases hinv.stuck hstuck with hended | ⟨-, hfull⟩
  · simp [hended, Parent.closed] at hclosed
  · exact hfull

/-- Pipes of one byte each are full after three bytes of the file. -/
theorem pipes_block_one : ∃ as s, AllSteps (step ⟨1, 1, true, by decide, by decide⟩)
      (init ⟨1, 1, true, by decide, by decide⟩ (List.replicate 4100 0)) as s ∧
    (s.toChild = [0] ∧ s.fromChild = [0] ∧ s.child = .writeFile [0]) ∧ s.printed = [] ∧
    s.parent.closed = false := by
  have hex : ∃ s, AllSteps (step ⟨1, 1, true, by decide, by decide⟩)
      (init ⟨1, 1, true, by decide, by decide⟩ (List.replicate 4100 0))
      [.parent 0, .parent 1, .child 1, .child 1, .parent 1, .child 1, .parent 1] s ∧
      s.toChild = [0] ∧ s.fromChild = [0] ∧ s.child = .writeFile [0] :=
    steps_of_exec _ (by decide +kernel)
  obtain ⟨s, hrun, hfull⟩ := hex
  have hblock := pipes_block hrun (by rw [List.length_replicate]; decide)
  exact ⟨_, s, hrun, hfull, hblock.2.1, hblock.2.2.1⟩

end Processes

end TiPI.Pipe
