import Mathlib.Data.List.Perm.Basic
import TiPI.Lsof.Listing

/-!
# What `lsof` prints

`lsof` prints the lines of all the processes it lists, in the order of their texts, or nothing.
-/

namespace TiPI.Lsof

variable {f : Filter} {head cmd user_name fname : Text} {d : Descriptor} {ds : List Descriptor}
  {p : Process} {dent : Dirent} {proc : List Dirent} {n errno errno' left : Nat}
  {res res' out : List Text}

lemma bind_ok_iff {α β : Type} {x : Except Failure α} {k : α → Except Failure β} {b : β} :
    (x >>= k) = .ok b ↔ ∃ a, x = .ok a ∧ k a = .ok b := by
  cases x with
  | error e => simp [bind, Except.bind]
  | ok a => simp [bind, Except.bind]

lemma pure_ok_iff {α : Type} {a b : α} : (pure a : Except Failure α) = .ok b ↔ a = b := by
  simp [pure, Except.pure]

lemma seen_eq_zero_iff : seen errno left = 0 ↔ errno = 0 ∧ left = 0 := by
  unfold seen
  split_ifs with h <;> simp [h]

lemma stoi_ok_iff {text : Text} {n : Nat} :
    stoi text = .ok n ↔ digitsVal 0 text ≤ INT_MAX ∧ digitsVal 0 text = n := by
  unfold stoi
  by_cases h : digitsVal 0 text ≤ INT_MAX
  · simp only [h, if_true, Except.ok.injEq, true_and]
  · simp only [h, if_false, false_and, reduceCtorEq]

lemma readlink_ok_iff : readlink d = .ok fname ↔ d.link = some fname ∧ fname.length < 1024 := by
  unfold readlink
  cases d.link with
  | none => simp
  | some target =>
    by_cases h : target.length < 1024
    · simp only [h, if_true, Except.ok.injEq, Option.some.injEq]
      constructor
      · intro heq
        exact ⟨heq, heq ▸ h⟩
      · exact And.left
    · simp only [h, if_false, Option.some.injEq, reduceCtorEq, false_iff]
      rintro ⟨rfl, hlt⟩
      exact h hlt

lemma sprintf_ok_iff {text buff : Text} :
    sprintf text = .ok buff ↔ text.length < 2048 ∧ text = buff := by
  unfold sprintf
  by_cases h : text.length < 2048
  · simp only [h, if_true, Except.ok.injEq, true_and]
  · simp only [h, if_false, false_and, reduceCtorEq]

/-! ### What is to be listed -/

/-- The line of a descriptor that the flag for files lets pass. -/
def Descriptor.row (f : Filter) (head : Text) (d : Descriptor) : Option Text :=
  d.link.bind fun fname =>
    if Digits d.d_name ∧ (f.file = [] ∨ f.file = fname) then
      some (line head (digitsVal 0 d.d_name) d fname)
    else none

/-- What is read of a descriptor fits into the variables it is read into. -/
structure Descriptor.Reads (f : Filter) (head : Text) (d : Descriptor) : Prop where
  fd_num : digitsVal 0 d.d_name ≤ INT_MAX
  link : ∃ fname, d.link = some fname ∧ fname.length < 1024
  buff : ∀ buff ∈ d.row f head, buff.length < 2048

def Process.rows (f : Filter) (pid : Nat) (p : Process) : List Text :=
  match p.user_name, p.fds with
  | some user_name, some ds =>
    if f.user = [] ∨ f.user = user_name then
      ds.filterMap (Descriptor.row f (lineHead p.cmd pid user_name))
    else []
  | _, _ => []

structure Process.Reads (f : Filter) (pid : Nat) (p : Process) : Prop where
  errno : p.errno = 0
  user : ∃ user_name, p.user_name = some user_name ∧
    (f.user = [] ∨ f.user = user_name → ∃ ds, p.fds = some ds ∧ p.endErrno = 0 ∧
      ∀ d ∈ ds, d.errno = 0 ∧ (Digits d.d_name → d.Reads f (lineHead p.cmd pid user_name)))

/-- An entry of `/proc` that is a process. -/
def Dirent.IsProcess (dent : Dirent) : Prop := dent.isDir ∧ Digits dent.d_name

instance : DecidablePred Dirent.IsProcess := fun dent =>
  inferInstanceAs (Decidable (dent.isDir ∧ Digits dent.d_name))

def Dirent.pid (dent : Dirent) : Nat := digitsVal 0 dent.d_name

/-- The processes that are listed. -/
def Dirent.Listed (f : Filter) (dent : Dirent) : Prop :=
  dent.IsProcess ∧ (f.pid = 0 ∨ f.pid = dent.pid)

instance (f : Filter) : DecidablePred (Dirent.Listed f) := fun dent =>
  inferInstanceAs (Decidable (dent.IsProcess ∧ (f.pid = 0 ∨ f.pid = dent.pid)))

def Dirent.rows (f : Filter) (dent : Dirent) : List Text :=
  if dent.Listed f then dent.process.rows f dent.pid else []

/-- Nothing that is read for the entry fails. -/
structure Dirent.Reads (f : Filter) (dent : Dirent) : Prop where
  pid : dent.IsProcess → dent.pid ≤ INT_MAX
  process : dent.Listed f → dent.process.Reads f dent.pid

/-! ### The lines that are read -/

lemma readFd_ok (h : Digits d.d_name → d.Reads f head) : readFd f head d = .ok (d.row f head) := by
  by_cases hd : Digits d.d_name
  · obtain ⟨hnum, ⟨fname, hlink, hlen⟩, hbuff⟩ := h hd
    rw [readFd, if_pos hd, bind_ok_iff]
    refine ⟨_, stoi_ok_iff.2 ⟨hnum, rfl⟩,
      bind_ok_iff.2 ⟨fname, readlink_ok_iff.2 ⟨hlink, hlen⟩, ?_⟩⟩
    by_cases hf : f.file ≠ [] ∧ f.file ≠ fname
    · rw [if_pos hf, pure_ok_iff]
      have hno : ¬ (f.file = [] ∨ f.file = fname) := not_or.2 hf
      simp [Descriptor.row, hlink, hno]
    · have hyes : f.file = [] ∨ f.file = fname := by
        by_contra hno
        exact hf (not_or.1 hno)
      have hrow : d.row f head = some (line head (digitsVal 0 d.d_name) d fname) := by
        simp [Descriptor.row, hlink, hd, hyes]
      rw [if_neg hf, hrow, bind_ok_iff]
      exact ⟨_, sprintf_ok_iff.2 ⟨hbuff _ (hrow ▸ rfl), rfl⟩, rfl⟩
  · have hrow : d.row f head = none := by
      cases hlink : d.link <;> simp [Descriptor.row, hlink, hd]
    rw [readFd, if_neg hd, hrow, pure_ok_iff]

lemma reads_of_readFd {r : Option Text} (h : readFd f head d = .ok r) (hd : Digits d.d_name) :
    d.Reads f head := by
  rw [readFd, if_pos hd, bind_ok_iff] at h
  obtain ⟨n, hn, h⟩ := h
  obtain ⟨fname, hfname, h⟩ := bind_ok_iff.1 h
  obtain ⟨hnum, rfl⟩ := stoi_ok_iff.1 hn
  obtain ⟨hlink, hlen⟩ := readlink_ok_iff.1 hfname
  refine ⟨hnum, ⟨fname, hlink, hlen⟩, ?_⟩
  intro buff hbuff
  simp only [Descriptor.row, hlink, Option.bind_some, Option.mem_def, Option.ite_none_right_eq_some,
    Option.some.injEq] at hbuff
  obtain ⟨⟨-, hyes⟩, rfl⟩ := hbuff
  rw [if_neg (by tauto), bind_ok_iff] at h
  obtain ⟨buff, hbuff, -⟩ := h
  exact (sprintf_ok_iff.1 hbuff).1

lemma readFds_ok (h : ∀ d ∈ ds, d.errno = 0 ∧ (Digits d.d_name → d.Reads f head)) :
    readFds f head ds 0 = .ok (ds.filterMap (Descriptor.row f head), 0) := by
  induction ds with
  | nil => rfl
  | cons d ds ih =>
    obtain ⟨herrno, hd⟩ := h d (List.mem_cons_self ..)
    have hds := ih fun d' hd' => h d' (List.mem_cons_of_mem d hd')
    rw [readFds, readFd_ok hd, herrno, show seen 0 0 = 0 from rfl, hds]
    cases hrow : d.row f head <;> simp [hrow, bind, Except.bind, pure, Except.pure]

lemma reads_of_readFds {r : List Text} (h : readFds f head ds errno = .ok (r, 0)) :
    errno = 0 ∧ ∀ d ∈ ds, d.errno = 0 ∧ (Digits d.d_name → d.Reads f head) := by
  induction ds generalizing errno r with
  | nil =>
    rw [readFds, pure_ok_iff] at h
    simpa using congrArg Prod.snd h
  | cons d ds ih =>
    rw [readFds, bind_ok_iff] at h
    obtain ⟨buff, hbuff, h⟩ := h
    obtain ⟨⟨res, errno'⟩, hres, h⟩ := bind_ok_iff.1 h
    obtain rfl : errno' = 0 := congrArg Prod.snd (pure_ok_iff.1 h)
    obtain ⟨hseen, hds⟩ := ih hres
    obtain ⟨rfl, hleft⟩ := seen_eq_zero_iff.1 hseen
    refine ⟨rfl, List.forall_mem_cons.2 ⟨⟨hleft, ?_⟩, hds⟩⟩
    exact reads_of_readFd hbuff

lemma pidRead_ok {spid : Text} (hpid : digitsVal 0 spid ≤ INT_MAX)
    (h : p.Reads f (digitsVal 0 spid)) :
    pidRead f spid p 0 = .ok (p.rows f (digitsVal 0 spid), 0) := by
  obtain ⟨herrno, user_name, huser, hds⟩ := h
  rw [pidRead, bind_ok_iff]
  refine ⟨_, stoi_ok_iff.2 ⟨hpid, rfl⟩, ?_⟩
  by_cases hf : f.user = [] ∨ f.user = user_name
  · obtain ⟨ds, hfds, hend, hreads⟩ := hds hf
    have hnot : ¬ (f.user ≠ [] ∧ f.user ≠ user_name) := by tauto
    simp only [huser, hnot, if_false, hfds, herrno, hend, show seen 0 0 = 0 from rfl,
      Process.rows, hf,
      if_true]
    rw [bind_ok_iff]
    exact ⟨_, readFds_ok hreads, rfl⟩
  · have hskip : f.user ≠ [] ∧ f.user ≠ user_name := not_or.1 hf
    have hrows : p.rows f (digitsVal 0 spid) = [] := by
      cases hfds : p.fds <;> simp [Process.rows, huser, hfds, hf]
    simp only [huser, herrno, hrows, show seen 0 0 = 0 from rfl]
    rw [if_pos hskip, pure_ok_iff]

lemma reads_of_pidRead {spid : Text} {r : List Text} (h : pidRead f spid p errno = .ok (r, 0)) :
    errno = 0 ∧ p.Reads f (digitsVal 0 spid) := by
  rw [pidRead, bind_ok_iff] at h
  obtain ⟨n, hn, h⟩ := h
  obtain ⟨-, rfl⟩ := stoi_ok_iff.1 hn
  cases huser : p.user_name with
  | none => simp [huser] at h
  | some user_name =>
    simp only [huser] at h
    by_cases hf : f.user = [] ∨ f.user = user_name
    · rw [if_neg (by tauto)] at h
      cases hfds : p.fds with
      | none => simp [hfds] at h
      | some ds =>
        simp only [hfds] at h
        obtain ⟨⟨res, errno'⟩, hres, h⟩ := bind_ok_iff.1 h
        obtain ⟨rfl, hend⟩ := seen_eq_zero_iff.1 (congrArg Prod.snd (pure_ok_iff.1 h))
        obtain ⟨hseen, hds⟩ := reads_of_readFds hres
        obtain ⟨rfl, hleft⟩ := seen_eq_zero_iff.1 hseen
        exact ⟨rfl, hleft, user_name, huser, fun _ => ⟨ds, hfds, hend, hds⟩⟩
    · rw [if_pos (not_or.1 hf), pure_ok_iff] at h
      obtain ⟨rfl, hleft⟩ := seen_eq_zero_iff.1 (congrArg Prod.snd h)
      exact ⟨rfl, hleft, user_name, huser, fun hyes => absurd hyes hf⟩

/-! ### The order of the lines -/

/-- The directory `fd` is read in the order of its numbers, and these fit into their column. -/
def InOrder (ds : List Descriptor) : Prop :=
  ds.Pairwise fun d d' => Digits d.d_name → Digits d'.d_name →
    digitsVal 0 d.d_name < digitsVal 0 d'.d_name ∧ digitsVal 0 d'.d_name < 10 ^ 5

lemma line_lt {m : Nat} {d' : Descriptor} {fname' : Text} (h : m < n) (hn : n < 10 ^ 5) :
    line head m d fname < line head n d' fname' := by
  refine List.append_left_lt (lt_append_of_length_eq ?_ (padLeft_decimal_lt h hn))
  rw [length_padLeft_decimal (h.trans hn), length_padLeft_decimal hn]

lemma row_eq_some_iff {buff : Text} : d.row f head = some buff ↔ ∃ fname, d.link = some fname ∧
    (Digits d.d_name ∧ (f.file = [] ∨ f.file = fname)) ∧
      line head (digitsVal 0 d.d_name) d fname = buff := by
  simp only [Descriptor.row, Option.bind_eq_some_iff, Option.ite_none_right_eq_some,
    Option.some.injEq]

lemma pairwise_rows (h : InOrder ds) :
    (ds.filterMap (Descriptor.row f head)).Pairwise (· ≤ ·) := by
  refine List.Pairwise.filterMap _ (fun d d' hlt buff hbuff buff' hbuff' => ?_) h
  obtain ⟨fname, -, ⟨hd, -⟩, rfl⟩ := row_eq_some_iff.1 hbuff
  obtain ⟨fname', -, ⟨hd', -⟩, rfl⟩ := row_eq_some_iff.1 hbuff'
  obtain ⟨hlt, hn⟩ := hlt hd hd'
  exact (line_lt hlt hn).le

/-- What is read of the processes that are listed is in order. -/
def Dirent.InOrder (f : Filter) (dent : Dirent) : Prop :=
  dent.Listed f → ∀ ds, dent.process.fds = some ds → Lsof.InOrder ds

lemma pairwise_dirent_rows (h : dent.InOrder f) : (dent.rows f).Pairwise (· ≤ ·) := by
  unfold Dirent.rows
  split_ifs with hlisted
  · unfold Process.rows
    cases huser : dent.process.user_name with
    | none => exact List.Pairwise.nil
    | some user_name =>
      cases hfds : dent.process.fds with
      | none => exact List.Pairwise.nil
      | some ds =>
        dsimp only
        split_ifs
        · exact pairwise_rows (h hlisted ds hfds)
        · exact List.Pairwise.nil
  · exact List.Pairwise.nil

/-! ### All processes -/

lemma merge_perm : (merge res res').Perm (res ++ res') := List.merge_perm_append _

lemma pairwise_merge (h : res.Pairwise (· ≤ ·)) (h' : res'.Pairwise (· ≤ ·)) :
    (merge res res').Pairwise (· ≤ ·) := by
  have hpw : (List.merge res res' fun a b => decide (a ≤ b)).Pairwise fun a b => decide (a ≤ b) =
      true := List.pairwise_merge
    (fun a b c hab hbc => by simpa using (of_decide_eq_true hab).trans (of_decide_eq_true hbc))
    (fun a b => by simpa using le_total a b) res res' (by simpa using h) (by simpa using h')
  simpa [merge] using hpw

lemma readProc_skip (h : ¬ dent.IsProcess) :
    readProc f (dent :: proc) res 0 = readProc f proc res 0 := by
  have hskip : ¬ dent.isDir ∨ ¬ Digits dent.d_name := not_and_or.1 h
  rw [readProc, if_neg (not_not.2 rfl), if_pos hskip]

lemma readProc_process (h : dent.IsProcess) : readProc f (dent :: proc) res 0 =
    stoi dent.d_name >>= fun pid =>
      if f.pid ≠ 0 ∧ f.pid ≠ pid then readProc f proc res 0
      else pidRead f dent.d_name dent.process 0 >>= fun r =>
        readProc f proc (merge res r.1) r.2 := by
  have hread : ¬ (¬ dent.isDir ∨ ¬ Digits dent.d_name) := fun hno => not_and_or.2 hno h
  rw [readProc, if_neg (not_not.2 rfl), if_neg hread]

lemma rows_of_not_listed (h : ¬ dent.Listed f) : dent.rows f = [] := if_neg h

lemma readProc_not_listed (h : dent.Reads f) (hno : ¬ dent.Listed f) :
    readProc f (dent :: proc) res 0 = readProc f proc res 0 := by
  by_cases hproc : dent.IsProcess
  · have hpid : f.pid ≠ 0 ∧ f.pid ≠ dent.pid := not_or.1 fun hyes => hno ⟨hproc, hyes⟩
    rw [readProc_process hproc, show stoi dent.d_name = .ok dent.pid from
      stoi_ok_iff.2 ⟨h.pid hproc, rfl⟩]
    exact if_pos hpid
  · exact readProc_skip hproc

lemma readProc_listed (h : dent.Reads f) (hyes : dent.Listed f) :
    readProc f (dent :: proc) res 0 = readProc f proc (merge res (dent.rows f)) 0 := by
  have hpid : ¬ (f.pid ≠ 0 ∧ f.pid ≠ dent.pid) := by
    rintro ⟨h0, hne⟩
    exact hyes.2.elim h0 hne
  have hlt : digitsVal 0 dent.d_name ≤ INT_MAX := h.pid hyes.1
  rw [readProc_process hyes.1, show stoi dent.d_name = .ok dent.pid from stoi_ok_iff.2 ⟨hlt, rfl⟩,
    pidRead_ok hlt (h.process hyes), Dirent.rows, if_pos hyes]
  exact if_neg hpid

lemma readProc_ok (res : List Text) (h : ∀ dent ∈ proc, dent.Reads f) :
    ∃ out, readProc f proc res 0 = .ok (out, 0) ∧
    out.Perm (res ++ proc.flatMap (Dirent.rows f)) ∧
    (res.Pairwise (· ≤ ·) → (∀ dent ∈ proc, dent.InOrder f) → out.Pairwise (· ≤ ·)) := by
  induction proc generalizing res with
  | nil => exact ⟨res, rfl, by simp, fun hres _ => hres⟩
  | cons dent proc ih =>
    obtain ⟨hdent, hproc⟩ := List.forall_mem_cons.1 h
    by_cases hlisted : dent.Listed f
    · obtain ⟨out, hout, hperm, hsorted⟩ := ih (merge res (dent.rows f)) hproc
      refine ⟨out, (readProc_listed hdent hlisted).trans hout, ?_, ?_⟩
      · rw [List.flatMap_cons, ← List.append_assoc]
        exact hperm.trans (merge_perm.append_right _)
      · intro hres horder
        obtain ⟨hhead, htail⟩ := List.forall_mem_cons.1 horder
        exact hsorted (pairwise_merge hres (pairwise_dirent_rows hhead)) htail
    · obtain ⟨out, hout, hperm, hsorted⟩ := ih res hproc
      refine ⟨out, (readProc_not_listed hdent hlisted).trans hout, ?_, ?_⟩
      · rwa [List.flatMap_cons, rows_of_not_listed hlisted, List.nil_append]
      · intro hres horder
        exact hsorted hres (List.forall_mem_cons.1 horder).2

lemma reads_of_readProc (h : readProc f proc res errno = .ok (out, 0)) :
    errno = 0 ∧ ∀ dent ∈ proc, dent.Reads f := by
  induction proc generalizing res errno with
  | nil =>
    rw [readProc, pure_ok_iff] at h
    simpa using congrArg Prod.snd h
  | cons dent proc ih =>
    by_cases herrno : errno = 0
    · subst herrno
      by_cases hproc : dent.IsProcess
      · rw [readProc_process hproc, bind_ok_iff] at h
        obtain ⟨n, hn, h⟩ := h
        obtain ⟨hlt, rfl⟩ := stoi_ok_iff.1 hn
        by_cases hpid : f.pid ≠ 0 ∧ f.pid ≠ digitsVal 0 dent.d_name
        · rw [if_pos hpid] at h
          have hno : ¬ dent.Listed f := fun hyes => not_or.2 hpid hyes.2
          exact ⟨rfl, List.forall_mem_cons.2
            ⟨⟨fun _ => hlt, fun hyes => absurd hyes hno⟩, (ih h).2⟩⟩
        · rw [if_neg hpid] at h
          obtain ⟨⟨other, errno'⟩, hother, h⟩ := bind_ok_iff.1 h
          obtain ⟨rfl, hrest⟩ := ih h
          obtain ⟨-, hreads⟩ := reads_of_pidRead hother
          exact ⟨rfl, List.forall_mem_cons.2 ⟨⟨fun _ => hlt, fun _ => hreads⟩, hrest⟩⟩
      · rw [readProc_skip hproc] at h
        have hdent : dent.Reads f :=
          ⟨fun hyes => absurd hyes hproc, fun hyes => absurd hyes.1 hproc⟩
        exact ⟨rfl, List.forall_mem_cons.2 ⟨hdent, (ih h).2⟩⟩
    · rw [readProc, if_pos herrno, pure_ok_iff] at h
      exact absurd (congrArg Prod.snd h) herrno

/-- `lsof` succeeds where nothing that it reads fails, and then prints the lines of all the
processes that it lists, each as often as it is there, in the order of their texts. -/
theorem main_lists (horder : ∀ dent ∈ proc, dent.InOrder f) :
    main f proc left errno = .exit 0 out ↔ errno = 0 ∧ left = 0 ∧ (∀ dent ∈ proc, dent.Reads f) ∧
      ∃ res, out = LABEL :: res ∧ res.Perm (proc.flatMap (Dirent.rows f)) ∧
        res.Pairwise (· ≤ ·) := by
  constructor
  · intro h
    cases hread : procRead f proc left errno with
    | error e => cases e <;> simp [main, hread] at h
    | ok res =>
      obtain rfl : LABEL :: res = out := by simpa [main, hread] using h
      obtain ⟨⟨res', errno'⟩, hres, hend⟩ := bind_ok_iff.1 hread
      dsimp only at hend
      split_ifs at hend with hseen
      obtain rfl := pure_ok_iff.1 hend
      obtain ⟨rfl, rfl⟩ := seen_eq_zero_iff.1 (not_not.1 hseen)
      obtain ⟨rfl, hreads⟩ := reads_of_readProc hres
      obtain ⟨out, hout, hperm, hsorted⟩ := readProc_ok [] hreads
      obtain ⟨rfl, -⟩ := Prod.mk.inj (Except.ok.inj (hres.symm.trans hout))
      exact ⟨rfl, rfl, hreads, res', rfl, hperm, hsorted List.Pairwise.nil horder⟩
  · rintro ⟨rfl, rfl, hreads, res, rfl, hperm, hsorted⟩
    obtain ⟨out, hout, hperm', hsorted'⟩ := readProc_ok [] hreads
    have heq : out = res := (hperm'.trans hperm.symm).eq_of_pairwise
      (fun a b _ _ hab hba => le_antisymm hab hba) (hsorted' List.Pairwise.nil horder) hsorted
    have hread : procRead f proc 0 0 = .ok res := by
      rw [procRead, hout, heq]
      rfl
    rw [main, hread]

/-- Two processes behind each other, and a file between them. -/
def twoProcs : List Dirent :=
  let tty : Descriptor := ⟨['0'], 0o020620, 0, 3, [], some "/dev/tty".toList, 0⟩
  let log : Descriptor := ⟨['1'], 0o100644, 512, 77, [], some "/tmp/log".toList, 0⟩
  let dots : Descriptor := ⟨['.'], 0o040555, 0, 5, [], none, 0⟩
  [⟨"7".toList, true, ⟨"sh".toList, some "root".toList, 0, some [dots, tty, log], 0⟩⟩,
    ⟨"stat".toList, false, ⟨[], none, 0, none, 0⟩⟩,
    ⟨"12".toList, true, ⟨"cat".toList, some "ann".toList, 0, some [dots, tty], 0⟩⟩]

lemma twoProcs_inOrder : ∀ dent ∈ twoProcs, dent.InOrder {} := by
  intro dent hdent hlisted ds hds
  have hall : ∀ dent ∈ twoProcs, ∀ ds ∈ dent.process.fds, InOrder ds := by
    unfold InOrder
    decide +kernel
  exact hall dent hdent ds hds

lemma twoProcs_reads : ∀ dent ∈ twoProcs, dent.Reads {} := by
  have hpid : ∀ dent ∈ twoProcs, dent.IsProcess → dent.pid ≤ INT_MAX := by decide +kernel
  have hread : ∀ dent ∈ twoProcs, dent.IsProcess →
      pidRead {} dent.d_name dent.process 0 = .ok (dent.rows {}, 0) := by decide +kernel
  intro dent hdent
  exact ⟨hpid dent hdent, fun hlisted => (reads_of_pidRead (hread dent hdent hlisted.1)).2⟩

theorem main_lists_two : main {} twoProcs 0 0 = .exit 0 [LABEL,
    "cat           12       ann     0     CHR          0        3 /dev/tty".toList,
    "sh             7      root     0     CHR          0        3 /dev/tty".toList,
    "sh             7      root     1     REG        512       77 /tmp/log".toList] :=
  (main_lists twoProcs_inOrder).2
    ⟨rfl, rfl, twoProcs_reads, _, rfl, by decide +kernel, by decide +kernel⟩

end TiPI.Lsof
