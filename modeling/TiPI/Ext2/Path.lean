import TiPI.Ext2.Lookup
import Mathlib.Tactic.SplitIfs

/-!
# Walking along a path

`Reader::inodeFromPath` against `Tree.resolve`.
-/

namespace TiPI.Ext2

/-! ### Splitting a path -/

lemma findIdx?_of_not_mem {delimiter : UInt8} {n : Name} (hn : delimiter ∉ n) :
    n.findIdx? (· == delimiter) = none := by
  rw [List.findIdx?_eq_none_iff]
  intro c hc
  simpa using fun h : c = delimiter => hn (h ▸ hc)

lemma splitLoop_names {delimiter : UInt8} {n : Name} (hn : delimiter ∉ n) {names : List Name}
    (hnames : ∀ m ∈ names, delimiter ∉ m) {fuel : Nat} {tokens : List Name}
    (hfuel : (n ++ names.flatMap (delimiter :: ·)).length ≤ fuel) :
    splitLoop delimiter fuel (n ++ names.flatMap (delimiter :: ·)) tokens =
      tokens ++ n :: names := by
  induction names generalizing n fuel tokens with
  | nil =>
    cases fuel with
    | zero => simp [splitLoop]
    | succ fuel => simp [splitLoop, findIdx?_of_not_mem hn]
  | cons m names ih =>
    obtain ⟨hm, hnames⟩ := List.forall_mem_cons.1 hnames
    cases fuel with
    | zero => simp at hfuel
    | succ fuel =>
      have hpos : (n ++ (m :: names).flatMap (delimiter :: ·)).findIdx? (· == delimiter) =
          some n.length := by
        simp [List.findIdx?_append, findIdx?_of_not_mem hn, List.findIdx?_cons]
      have hdrop : (n ++ (m :: names).flatMap (delimiter :: ·)).drop (n.length + 1) =
          m ++ names.flatMap (delimiter :: ·) := by
        simp [List.drop_append]
      have htake : (n ++ (m :: names).flatMap (delimiter :: ·)).take n.length = n := by
        simp
      rw [splitLoop, hpos]
      simp only [hdrop, htake]
      rw [ih hm hnames, List.append_assoc]
      · rfl
      · simp only [List.flatMap_cons, List.length_append, List.length_cons] at hfuel ⊢
        omega

/-- A path is split into its names behind the empty one before the first slash. -/
lemma split_path {names : List Name} (h : ∀ n ∈ names, Reader.slash ∉ n) :
    split (path names) Reader.slash = [] :: names :=
  splitLoop_names (n := []) List.not_mem_nil h Nat.le.refl

/-! ### Facts about trees -/

variable {image : Image} {g : Globals} {b : Nat} {record : Nat → List UInt8} {tree : Tree}
  {typed : Bool} {n : Name}

/-- Without file types no name is found. -/
lemma typed_of_scan {rs : List Record} {j : Nat} (hn : n ≠ [])
    (h : scan typed n rs = .found j) : typed = true := by
  induction rs with
  | nil => cases h
  | cons r rs ih =>
    unfold scan at h
    split_ifs at h with hlong hunused hname
    · by_contra htyped
      exact hn (by simpa [Record.readName, htyped] using hname.symm)
    · exact ih h

/-- What the reader finds is the first record that has the name. -/
lemma find?_of_scan {rs : List Record} {j : Nat} (hn : n ≠ [])
    (h : scan typed n rs = .found j) : ∃ r ∈ rs, r.inode = j ∧ j ≠ 0 ∧
      rs.find? (fun r => decide (r.inode ≠ 0 ∧ r.name = n)) = some r := by
  obtain rfl := typed_of_scan hn h
  induction rs with
  | nil => cases h
  | cons r rs ih =>
    unfold scan at h
    split_ifs at h with hlong hunused hname
    · cases h
      have htyped : r.name = n := hname
      exact ⟨r, List.mem_cons_self .., rfl, hunused,
        List.find?_cons_of_pos (by simp [hunused, htyped])⟩
    · obtain ⟨r', hmem, hj, hne, hfind⟩ := ih h
      have htyped : ¬ r.name = n := hname
      refine ⟨r', List.mem_cons_of_mem _ hmem, hj, hne, ?_⟩
      rw [List.find?_cons_of_neg (by simp [htyped]), hfind]

lemma lookup_of_scan {D : Dir} {j : Nat} (hn : n ≠ []) (h : scan typed n D.records = .found j) :
    D.lookup n = some j := by
  obtain ⟨r, -, hj, -, hfind⟩ := find?_of_scan hn h
  rw [Dir.lookup, hfind, Option.map_some, hj]

lemma used_of_scan {D : Dir} {i j : Nat} (hD : tree i = some D) (hn : n ≠ [])
    (h : scan typed n D.records = .found j) : tree.Used j := by
  obtain ⟨r, hmem, hj, hne, -⟩ := find?_of_scan hn h
  exact .inr ⟨hne, i, D, hD, r, hmem, hj⟩

lemma resolve_cons {D : Dir} {i : Nat} (hD : tree i = some D) (n : Name) (ns : List Name) :
    tree.resolve i (n :: ns) = (D.lookup n).bind fun j => tree.resolve j ns := by
  rw [Tree.resolve, hD, Option.bind_some]

lemma resolve_ne_zero {i j : Nat} {ns : List Name} (hne : ns ≠ [])
    (h : tree.resolve i ns = some j) : j ≠ 0 := by
  induction ns generalizing i with
  | nil => exact absurd rfl hne
  | cons n ns ih =>
    obtain ⟨D, hD, hmore⟩ := Option.bind_eq_some_iff.1 h
    obtain ⟨k, hk, hrest⟩ := Option.bind_eq_some_iff.1 hmore
    cases ns with
    | nil =>
      cases hrest
      obtain ⟨r, hfind, rfl⟩ := Option.map_eq_some_iff.1 hk
      have hprop := List.find?_some hfind
      simp only [decide_eq_true_eq] at hprop
      exact hprop.1
    | cons m ms => exact ih (List.cons_ne_nil m ms) hrest

/-- An inode that is no directory leads nowhere. -/
lemma resolve_of_none {i : Nat} {ns : List Name} (hi : tree i = none) (hne : ns ≠ []) :
    tree.resolve i ns = none := by
  cases ns with
  | nil => exact absurd rfl hne
  | cons n ns => rw [Tree.resolve, hi, Option.bind_none]

/-! ### What a walk returns -/

/-- The result for a path: an inode number or `-1`. -/
def number (o : Option Nat) : Int := o.elim (-1) Nat.cast

lemma number_eq_neg_one {o : Option Nat} : -1 = number o ↔ o = none := by
  cases o with
  | none => simp [number]
  | some j => simp [number]

/-- With enough fuel the call returns `v`, and only entries of directories were searched. -/
def Returns (tree : Tree) (x : Nat → Call Int) (w : World) (v : Int) : Prop :=
  ∃ m, ∀ fuel ≥ m, ∃ w', (x fuel).run w = .ok v w' ∧
    ∀ i ∈ w'.searched, ∃ d : Nat, i = d ∧ (tree d).isSome

section

variable {x y : Nat → Call Int} {w w' : World} {v u : Int} {m : Nat}

lemma returns_congr (h : ∀ fuel ≥ m, (x fuel).run w = (y fuel).run w') :
    Returns tree x w v ↔ Returns tree y w' v := by
  constructor <;> rintro ⟨k, hk⟩ <;> refine ⟨max m k, fun fuel hfuel => ?_⟩
  · rw [← h fuel (Nat.le_trans (Nat.le_max_left m k) hfuel)]
    exact hk fuel (Nat.le_trans (Nat.le_max_right m k) hfuel)
  · rw [h fuel (Nat.le_trans (Nat.le_max_left m k) hfuel)]
    exact hk fuel (Nat.le_trans (Nat.le_max_right m k) hfuel)

lemma returns_pure (hw : Searching tree w) :
    Returns tree (fun _ => pure u) w v ↔ u = v := by
  constructor
  · rintro ⟨m, hm⟩
    obtain ⟨w', hrun, -⟩ := hm m Nat.le.refl
    cases hrun
    rfl
  · rintro rfl
    exact ⟨0, fun _ _ => ⟨w, rfl, hw.searched⟩⟩

lemma not_returns_of_error (h : ∀ fuel ≥ m, ∃ fault w', (x fuel).run w = .error fault w') :
    ¬ Returns tree x w v := by
  rintro ⟨k, hk⟩
  obtain ⟨w₁, hrun, -⟩ := hk (max m k) (Nat.le_max_right m k)
  obtain ⟨fault, w', herror⟩ := h _ (Nat.le_max_left m k)
  rw [herror] at hrun
  cases hrun

end

/-- What is done with the entry that ends a search for `n`. -/
def afterEntry (image : Image) (g : Globals) (fuel : Nat) (back n : Name) (ns : List Name)
    (dir : DirEntry) : Call Int :=
  if dir.2 ≠ n then pure (-1)
  else do
    let ino ← Inode.fill image g dir.1
    if n ≠ back ∧ ino.t ≠ Reader.DIR then return -1
    else Reader.nameListLoop image g fuel back ns ino dir

lemma run_nameListLoop {w w' : World} {fuel : Nat} {back : Name} {ns : List Name}
    {ino ino' : Inode} {dir found : DirEntry}
    (h : (Reader.entryLoop image g n fuel ino).run w = .ok (found, ino') w') :
    (Reader.nameListLoop image g fuel back (n :: ns) ino dir).run w =
      (afterEntry image g fuel back n ns found).run w' := by
  rw [Reader.nameListLoop, EStateM.run_bind, h]
  rfl

lemma afterEntry_name (fuel : Nat) (back n : Name) (ns : List Name) (j : Int) :
    afterEntry image g fuel back n ns (j, n) = (Inode.fill image g j >>= fun ino =>
      if n ≠ back ∧ ino.t ≠ Reader.DIR then pure (-1)
      else Reader.nameListLoop image g fuel back ns ino (j, n)) :=
  if_neg (not_not.2 rfl)

lemma t_parse (inode : Int) (buff : List UInt8) : (Inode.parse inode buff).t = typeOf buff := by
  have h0 := (buff.getD 0 0).toNat_lt
  have h1 := (buff.getD (0 + 1) 0).toNat_lt
  have hhalf : half buff 0 < 2 ^ 16 := by
    unfold half
    omega
  have hwrap : ((half buff 0 : Int).bmod (2 ^ 16) % 2 ^ 16).toNat = half buff 0 := by
    rw [Int.bmod_eq_emod]
    split <;> omega
  simp only [Inode.t, Inode.parse, typeOf, int16, hwrap]

namespace WellFormed

lemma run_fill (h : WellFormed image g b record tree) {i : Nat} (hi : tree.Used i) {w : World}
    (hw : w.errno = 0) : (Inode.fill image g i).run w = .ok (Inode.parse i (record i)) w := by
  have hrec := (Steady.reads.record image g i _ _ _ rfl (h.inode i hi)).2 w hw
  have hlen := (Inode.record_ok hrec).2
  have hsize := h.inodeSize
  exact Inode.run_fill hrec (by omega)

section

variable {back : Name} {ns : List Name} {ino ino' : Inode} {dir : DirEntry} {w w' : World} {m : Nat}
  {v : Int}

/-- The search for `n` ended at an entry of another name. -/
lemma returns_of_ne {found : DirEntry}
    (hrun : ∀ fuel ≥ m, (Reader.entryLoop image g n fuel ino).run w = .ok (found, ino') w')
    (hw' : Searching tree w') (hne : found.2 ≠ n) :
    Returns tree (fun fuel => Reader.nameListLoop image g fuel back (n :: ns) ino dir) w v ↔
      -1 = v := by
  rw [← returns_pure hw']
  refine returns_congr (m := m) fun fuel hfuel => ?_
  rw [run_nameListLoop (hrun fuel hfuel), afterEntry, if_pos hne]

/-- The search for the last name ended at an unused record of this name. -/
lemma not_returns_of_stale_last
    (hrun : ∀ fuel ≥ m, (Reader.entryLoop image g n fuel ino).run w = .ok ((0, n), ino') w')
    (hv : v ≠ 0) :
    ¬ Returns tree (fun fuel => Reader.nameListLoop image g fuel n [n] ino dir) w v := by
  rintro ⟨k, hk⟩
  obtain ⟨w₁, hret, -⟩ := hk (max m k) (Nat.le_max_right m k)
  rw [run_nameListLoop (hrun _ (Nat.le_max_left m k)), afterEntry_name] at hret
  obtain ⟨zero, u, -, hret⟩ := bind_ok hret
  rw [if_neg fun hc => hc.1 rfl] at hret
  cases hret
  exact hv rfl

/-- What is searched for more names is a directory. -/
lemma isSome_of_returned {fuel j : Nat} (hns : ns ≠ []) (hino : ino.inode = j)
    (hret : (Reader.nameListLoop image g fuel back ns ino dir).run w = .ok v w')
    (hsearched : ∀ i ∈ w'.searched, ∃ d : Nat, i = d ∧ (tree d).isSome) : (tree j).isSome := by
  obtain ⟨p, ps, rfl⟩ := List.exists_cons_of_ne_nil hns
  obtain ⟨d, hd, hsome⟩ := hsearched _ (mem_searched_of_nameListLoop hret)
  rw [hino] at hd
  obtain rfl : j = d := Int.natCast_inj.1 hd
  exact hsome

/-- The search for a name before the last ended at an unused record of this name. -/
lemma returns_of_stale (hzero : tree 0 = none) (hns : ns ≠ [])
    (hrun : ∀ fuel ≥ m, (Reader.entryLoop image g n fuel ino).run w = .ok ((0, n), ino') w')
    (hw' : Searching tree w') :
    Returns tree (fun fuel => Reader.nameListLoop image g fuel back (n :: ns) ino dir) w v ↔
      -1 = v ∧ n ≠ back ∧ ZeroPasses image g := by
  have hstep : ∀ fuel ≥ m, (Reader.nameListLoop image g fuel back (n :: ns) ino dir).run w =
      (afterEntry image g fuel back n ns (0, n)).run w' := fun fuel hfuel =>
    run_nameListLoop (hrun fuel hfuel)
  constructor
  · rintro ⟨k, hk⟩
    obtain ⟨w₁, hret, hsearched⟩ := hk (max m k) (Nat.le_max_right m k)
    rw [hstep _ (Nat.le_max_left m k), afterEntry_name] at hret
    obtain ⟨zero, u, hfill, hmore⟩ := bind_ok hret
    obtain ⟨-, hfill'⟩ := Steady.reads.fill image g 0 _ _ _ hw'.errno hfill
    split at hmore
    · next hpass =>
      cases hmore
      exact ⟨rfl, hpass.1, zero, hfill' {} rfl, hpass.2⟩
    · -- the reader goes on in inode `0`
      have hsome := isSome_of_returned (j := 0) hns (Inode.inode_of_fill hfill) hmore hsearched
      rw [hzero] at hsome
      cases hsome
  · rintro ⟨rfl, hback, zero, hfill, htype⟩
    have hfill' := (Steady.reads.fill image g 0 _ _ _ rfl hfill).2 w' hw'.errno
    refine ⟨m, fun fuel hfuel => ⟨w', ?_, hw'.searched⟩⟩
    rw [hstep fuel hfuel, afterEntry_name, EStateM.run_bind, hfill']
    simp only [if_pos (⟨hback, htype⟩ : n ≠ back ∧ zero.t ≠ Reader.DIR)]
    rfl

/-- The search for a name ended at an unused record. -/
lemma returns_of_unused (hzero : tree 0 = none) {i : Nat} {name : Name}
    (hback : (n :: ns).getLastD [] = back)
    (hrun : ∀ fuel ≥ m, (Reader.entryLoop image g n fuel ino).run w = .ok ((0, name), ino') w')
    (hw' : Searching tree w') :
    Returns tree (fun fuel => Reader.nameListLoop image g fuel back (n :: ns) ino dir) w
        (number (tree.resolve i (n :: ns))) ↔
      tree.resolve i (n :: ns) = none ∧ (name = n → ns ≠ [] ∧ n ≠ back ∧ ZeroPasses image g) := by
  by_cases hname : name = n
  · subst hname
    by_cases hns : ns = []
    · subst hns
      obtain rfl : name = back := hback
      refine iff_of_false (not_returns_of_stale_last hrun ?_) fun hfinds => (hfinds.2 rfl).1 rfl
      cases hres : tree.resolve i [name] with
      | none => simp [number]
      | some j => simpa [number] using resolve_ne_zero (List.cons_ne_nil name []) hres
    · rw [returns_of_stale hzero hns hrun hw', number_eq_neg_one]
      exact ⟨fun hr => ⟨hr.1, fun _ => ⟨hns, hr.2⟩⟩, fun hf => ⟨hf.1, (hf.2 rfl).2⟩⟩
  · rw [returns_of_ne hrun hw' hname, number_eq_neg_one]
    exact ⟨fun hr => ⟨hr, fun hn => absurd hn hname⟩, fun hf => hf.1⟩

/-- The search for a name before the last found something that is no directory. -/
lemma returns_of_other (h : WellFormed image g b record tree) {j : Nat} (hj : tree j = none)
    (hused : tree.Used j) (hns : ns ≠ []) (hw : Searching tree w) :
    Returns tree (fun fuel =>
        if n ≠ back ∧ typeOf (record j) ≠ Reader.DIR then pure (-1)
        else Reader.nameListLoop image g fuel back ns (Inode.parse j (record j)) dir) w
        (number (tree.resolve j ns)) ↔ n ≠ back := by
  have hother : typeOf (record j) ≠ Reader.DIR := by
    intro hdir
    have hsome := (h.type j hused).1 hdir
    rw [hj] at hsome
    cases hsome
  by_cases hback : n = back
  · -- the reader searches it nevertheless
    simp only [hback, ne_eq, not_true_eq_false, false_and, if_false, iff_false]
    rintro ⟨k, hk⟩
    obtain ⟨w₁, hret, hsearched⟩ := hk k Nat.le.refl
    have hsome := isSome_of_returned hns rfl hret hsearched
    rw [hj] at hsome
    cases hsome
  · simp only [hback, hother, ne_eq, not_false_eq_true, and_self, if_true, iff_true]
    rw [returns_pure hw, number_eq_neg_one]
    exact resolve_of_none hj hns

end

/-- The search along a path returns what the path means exactly when it finds it. -/
lemma returns_iff (h : WellFormed image g b record tree) {back : Name} (names : List Name) :
    ∀ (i : Nat) (D : Dir) (ino : Inode) (dir : DirEntry) (w : World), names ≠ [] →
      (∀ n ∈ names, n ≠ []) → names.getLastD [] = back → tree i = some D → tree.Used i →
      ino = Inode.parse i (record i) → Searching tree w → Legible image g b record tree i names →
      (Returns tree (fun fuel => Reader.nameListLoop image g fuel back names ino dir) w
        (number (tree.resolve i names)) ↔ Finds image g tree back i names) := by
  induction names with
  | nil => exact fun _ _ _ _ _ hne => absurd rfl hne
  | cons n ns ih =>
    intro i D ino dir w _ hnonempty hback hD hused hino hw hlegible
    obtain ⟨hn, hnonempty⟩ := List.forall_mem_cons.1 hnonempty
    obtain ⟨hsize, hlegible, hrest⟩ := hlegible D hD
    have hdir := h.dir i D hused hD
    have hmapped : Mapped image g b (record i) ino :=
      hino ▸ .parse i h.blckSize h.isBlockSize hsize
    have hstart : ino.inode = i ∧ ino.ind = 0 ∧ ino.direI = 0 := by
      rw [hino]
      simp only [Inode.parse, and_self]
    obtain ⟨result, hends, hrun⟩ := run_entryLoop hdir (by rw [hD]; rfl) D.records ino w hmapped
      hstart.1 hw (by rw [hstart.2.1, hstart.2.2]; exact hdir.tiled)
      (by rw [hstart.2.1, hstart.2.2]; exact hlegible)
    simp only [Finds, hD, Option.mem_def, Option.some.injEq, forall_eq']
    cases hscan : scan g.dirEntryType n D.records with
    | long =>
      rw [hscan] at hends
      obtain ⟨fault, w', rfl⟩ := hends
      refine iff_of_false ?_ not_false
      refine not_returns_of_error (m := D.records.length + 1) fun fuel hfuel => ⟨fault, w', ?_⟩
      rw [Reader.nameListLoop, EStateM.run_bind, hrun fuel hfuel]
    | nothing =>
      rw [hscan] at hends
      obtain ⟨ino', w', rfl, hw'⟩ := hends
      have hne : (Hit.entry n .nothing).2 ≠ n := fun hnil => hn hnil.symm
      rw [returns_of_ne (m := D.records.length + 1) hrun hw' hne, number_eq_neg_one]
    | unused name =>
      rw [hscan] at hends
      obtain ⟨ino', w', rfl, hw'⟩ := hends
      exact returns_of_unused (m := D.records.length + 1) h.zero hback hrun hw'
    | found j =>
      rw [hscan] at hends
      obtain ⟨ino', w', rfl, hw'⟩ := hends
      have hlookup := lookup_of_scan hn hscan
      have husedj := used_of_scan hD hn hscan
      have hresolve : tree.resolve i (n :: ns) = tree.resolve j ns := by
        rw [resolve_cons hD, hlookup, Option.bind_some]
      have hfill := h.run_fill husedj hw'.errno
      have htype := h.type j husedj
      have hstep : ∀ fuel ≥ D.records.length + 1,
          (Reader.nameListLoop image g fuel back (n :: ns) ino dir).run w =
            (if n ≠ back ∧ (Inode.parse j (record j)).t ≠ Reader.DIR then pure (-1)
              else Reader.nameListLoop image g fuel back ns (Inode.parse j (record j)) (j, n) :
              Call Int).run w' := fun fuel hfuel => by
        rw [run_nameListLoop (hrun fuel hfuel), Hit.entry, afterEntry_name, EStateM.run_bind, hfill]
      rw [hresolve, returns_congr hstep, t_parse]
      by_cases hns : ns = []
      · subst hns
        obtain rfl : n = back := hback
        simp only [ne_eq, not_true_eq_false, false_and, if_false, Reader.nameListLoop, true_or,
          iff_true]
        exact (returns_pure hw').2 rfl
      have hlast : ns.getLastD [] = back := by
        obtain ⟨m, ms, rfl⟩ := List.exists_cons_of_ne_nil hns
        exact hback
      simp only [hns, false_or]
      cases hj : tree j with
      | some D' =>
        have hdirj : typeOf (record j) = Reader.DIR := htype.2 (by rw [hj]; rfl)
        simp only [hdirj, ne_eq, not_true_eq_false, and_false, if_false, Option.isSome_some,
          if_true]
        exact ih j D' _ _ w' hns hnonempty hlast hj husedj rfl hw' (hrest j hscan)
      | none =>
        simp only [Option.isSome_none, Bool.false_eq_true, if_false]
        exact h.returns_of_other hj husedj hns hw'

lemma run_inodeFromPath (h : WellFormed image g b record tree) {names : List Name}
    (hnames : ∀ n ∈ names, Reader.slash ∉ n) {w : World} (hw : w.errno = 0) (fuel : Nat) :
    (Reader.inodeFromPath image g fuel (path names)).run w =
      (Reader.nameListLoop image g fuel (names.getLastD []) names
        (Inode.parse (2 : Nat) (record 2)) (0, [])).run w := by
  rw [Reader.inodeFromPath, split_path hnames]
  simp only [List.headD_cons, if_true, List.tail_cons]
  rw [EStateM.run_bind]
  have hfill := h.run_fill (i := 2) (.inl rfl) hw
  rw [show Reader.ROOT_INODE = ((2 : Nat) : Int) from rfl, hfill]

lemma inodeFromPath_iff (h : WellFormed image g b record tree) {names : List Name}
    (hne : names ≠ []) (hnames : ∀ n ∈ names, n ≠ [] ∧ Reader.slash ∉ n)
    (hlegible : Legible image g b record tree 2 names) {w : World} (hw : Searching tree w) :
    Returns tree (fun fuel => Reader.inodeFromPath image g fuel (path names)) w
        (number (tree.resolve 2 names)) ↔
      Finds image g tree (names.getLastD []) 2 names := by
  obtain ⟨D, hD⟩ := Option.isSome_iff_exists.1 h.root
  rw [← h.returns_iff names 2 D _ (0, []) w hne (fun n hn => (hnames n hn).1) rfl hD (.inl rfl) rfl
    hw hlegible]
  exact returns_congr (m := 0) fun fuel _ =>
    h.run_inodeFromPath (fun n hn => (hnames n hn).2) hw.errno fuel

end WellFormed

/-- `Reader::inodeFromPath` returns what the path means, and searches directories only, exactly when
the search finds it. -/
theorem inodeFromPath_resolves_iff (h : WellFormed image g b record tree) {names : List Name}
    (hne : names ≠ []) (hnames : ∀ n ∈ names, n ≠ [] ∧ Reader.slash ∉ n)
    (hlegible : Legible image g b record tree 2 names) {w : World} (hw : Searching tree w) :
    Returns tree (fun fuel => Reader.inodeFromPath image g fuel (path names)) w
        (number (tree.resolve 2 names)) ↔
      Finds image g tree (names.getLastD []) 2 names :=
  h.inodeFromPath_iff hne hnames hlegible hw

/-- The search for `n` where every record is used and has a short name. -/
lemma scan_of_used {rs : List Record} (h : ∀ r ∈ rs, r.inode ≠ 0 ∧ r.name.length < 128) :
    scan true n rs = ((rs.find? fun r => r.inode ≠ 0 ∧ r.name = n).map Record.inode).elim
      .nothing .found := by
  induction rs with
  | nil => rfl
  | cons r rs ih =>
    obtain ⟨⟨hused, hshort⟩, hrs⟩ := List.forall_mem_cons.1 h
    have hread : r.readName true = r.name := rfl
    rw [scan, if_neg (Nat.not_le.2 hshort), if_neg hused, hread]
    by_cases hname : r.name = n
    · rw [if_pos hname, List.find?_cons_of_pos (by simp [hused, hname])]
      rfl
    · rw [if_neg hname, List.find?_cons_of_neg (by simp [hname]), ih hrs]

/-- Where file types are stored, every record is used and has a short name, and the last name of the
path stands nowhere else in it, the search finds the path. -/
theorem finds_of_used (htyped : g.dirEntryType = true)
    (hrecords : ∀ i D, tree i = some D → ∀ r ∈ D.records, r.inode ≠ 0 ∧ r.name.length < 128)
    {back : Name} (names : List Name) (hback : ∀ n ∈ names.dropLast, n ≠ back) (i : Nat) :
    Finds image g tree back i names := by
  induction names generalizing i with
  | nil => trivial
  | cons n ns ih =>
    intro D hD
    have hscan := scan_of_used (n := n) (hrecords i D hD)
    rw [← Dir.lookup, ← htyped] at hscan
    cases hlookup : D.lookup n with
    | none =>
      rw [hlookup] at hscan
      rw [hscan]
      exact (resolve_cons hD n ns).trans (by rw [hlookup, Option.bind_none])
    | some j =>
      rw [hlookup] at hscan
      rw [hscan]
      cases ns with
      | nil => exact .inl rfl
      | cons m ms =>
        rw [List.dropLast_cons_cons] at hback
        obtain ⟨hn, hms⟩ := List.forall_mem_cons.1 hback
        refine .inr ?_
        split
        · exact ih hms j
        · exact hn

/-! ### Two small trees -/

/-- The bytes of a record at `o`. -/
def recordCells (o : Nat) (r : Record) (type : UInt8) : List (Nat × UInt8) :=
  [(o, .ofNat r.inode), (o + 4, .ofNat r.recLen), (o + 5, .ofNat (r.recLen / 256)),
    (o + 6, .ofNat r.name.length), (o + 7, type)] ++
    r.name.zipIdx.map fun p => (o + 8 + p.2, p.1)

/-- The inode `2` of a root directory in block `5`, and the inode `12` of a file. -/
def rootCells : List (Nat × UInt8) :=
  [(2056, 3), (3200, 0xED), (3201, 0x41), (3205, 4), (3240, 5), (4480, 0xA4), (4481, 0x81)]

def dot : Record := ⟨2, 12, [46]⟩

def dotDot : Record := ⟨2, 12, [46, 46]⟩

/-- A root directory with a file `a`. -/
def withFile : List Record := [dot, dotDot, ⟨12, 1000, [97]⟩]

/-- The same after a file `x` was deleted. -/
def withDeleted : List Record := [dot, dotDot, ⟨0, 12, [120]⟩, ⟨12, 988, [97]⟩]

/-- The records one behind the other. -/
def cellsOf : Nat → List Record → List (Nat × UInt8)
  | _, [] => []
  | o, r :: rs => recordCells o r 1 ++ cellsOf (o + r.recLen) rs

def rootImage (rs : List Record) : Image := imageOf (rootCells ++ cellsOf 5120 rs)

def rootDir (rs : List Record) : Dir := ⟨1, fun _ => 5, rs⟩

def rootTree (rs : List Record) : Tree := fun i => if i = 2 then some (rootDir rs) else none

def rootRecord (rs : List Record) (i : Nat) : List UInt8 :=
  (rootImage rs).bytes (3072 + (i - 1) * 128) 128

lemma used_rootTree {rs : List Record} (hrs : ∀ r ∈ rs, r.inode = 0 ∨ r.inode = 2 ∨ r.inode = 12)
    {i : Nat} (h : (rootTree rs).Used i) : i = 2 ∨ i = 12 := by
  obtain rfl | ⟨hne, d, D, hD, r, hr, rfl⟩ := h
  · exact .inl rfl
  · unfold rootTree at hD
    split at hD
    · cases hD
      exact (hrs r hr).resolve_left hne
    · cases hD

/-- The facts about the bytes of such an image. -/
structure RootFacts (rs : List Record) : Prop where
  inodes : ∀ r ∈ rs, r.inode = 0 ∨ r.inode = 2 ∨ r.inode = 12
  table : word ((rootImage rs).bytes 2048 32) 8 = 3
  root : typeOf (rootRecord rs 2) = Reader.DIR
  file : typeOf (rootRecord rs 12) ≠ Reader.DIR
  size : fileSize (rootRecord rs 2) = 1 * 1024
  address : address (rootImage rs) 1024 (rootRecord rs 2) 0 = 5
  behind : pointer (rootImage rs) 1024 (rootRecord rs 2) 1 = 0
  tiled : (rootDir rs).Tiled (rootImage rs) true 1024 0 0 rs

lemma RootFacts.wellFormed {rs : List Record} (h : RootFacts rs) :
    WellFormed (rootImage rs) oneGroup 1024 (rootRecord rs) (rootTree rs) where
  blckSize := rfl
  isBlockSize := ⟨0, by decide, rfl⟩
  inodeSize := by decide
  root := rfl
  zero := rfl
  inode i hi := by
    rcases used_rootTree h.inodes hi with rfl | rfl
    · exact Inode.run_record_oneGroup (k := 1) h.table (by decide)
    · exact Inode.run_record_oneGroup (k := 11) h.table (by decide)
  type i hi := by
    rcases used_rootTree h.inodes hi with rfl | rfl
    · exact iff_of_true h.root rfl
    · exact iff_of_false h.file Bool.false_ne_true
  dir i D hi hD := by
    unfold rootTree at hD
    split at hD
    · next h2 =>
      cases hD
      subst h2
      have hone : ∀ j < 1, j = 0 := by decide
      refine ⟨h.size, fun _ _ => (by decide : 5 ≠ 0), fun j hj _ => ?_,
        fun _ _ => (by decide : 5 * 1024 + 1024 ≤ 65536), fun h12 => ?_, h.tiled⟩
      · rw [hone j hj, h.address]
        rfl
      · exact absurd h12 (by decide : ¬ 12 < 1)
    · cases hD

lemma withFile_facts : RootFacts withFile := by
  constructor <;> decide +kernel

lemma withDeleted_facts : RootFacts withDeleted := by
  constructor <;> decide +kernel

lemma rootFile_legible {rs : List Record} (h : RootFacts rs)
    (hdir : (rootDir rs).Legible (rootImage rs) true 1024 (rootRecord rs 2) [97] 0 0 rs) :
    Legible (rootImage rs) oneGroup 1024 (rootRecord rs) (rootTree rs) 2 [[97]] := by
  intro D hD
  obtain rfl : rootDir rs = D := Option.some.inj hD
  refine ⟨?_, hdir, fun _ _ => trivial⟩
  rw [h.size]
  decide

/-- An entry in the first block of such a directory. -/
lemma legible_cons {rs tail : List Record} {r : Record} {off : Nat}
    (hrec : r.recLen < 2 ^ 15) (hinode : r.inode < 2 ^ 31)
    (htail : r.inode ≠ 0 → r.name ≠ [97] → (rootDir rs).Legible (rootImage rs) true 1024
      (rootRecord rs 2) [97] (if off + r.recLen = 1024 then 0 + 1 else 0)
        (if off + r.recLen = 1024 then 0 else off + r.recLen) tail) :
    (rootDir rs).Legible (rootImage rs) true 1024 (rootRecord rs 2) [97] 0 off (r :: tail) :=
  ⟨by decide, (by decide : 5 * 1024 + 1024 ≤ 2 ^ 31), fun h12 => absurd h12 (by decide),
    fun _ => ⟨hrec, hinode, htail⟩⟩

lemma searching_init (tree : Tree) : Searching tree {} :=
  ⟨rfl, fun _ => rfl, fun _ hi => absurd hi List.not_mem_nil⟩

theorem inodeFromPath_finds_file :
    Returns (rootTree withFile)
      (fun fuel => Reader.inodeFromPath (rootImage withFile) oneGroup fuel (path [[97]])) {}
        12 := by
  have hlegible : Legible (rootImage withFile) oneGroup 1024 (rootRecord withFile)
      (rootTree withFile) 2 [[97]] :=
    rootFile_legible withFile_facts <|
      legible_cons (by decide) (by decide) fun _ _ =>
      legible_cons (by decide) (by decide) fun _ _ =>
      legible_cons (by decide) (by decide) fun _ hne => absurd rfl hne
  refine (inodeFromPath_resolves_iff withFile_facts.wellFormed (by decide) (by decide) hlegible
    (searching_init _)).2 ?_
  rintro D hD
  obtain rfl : rootDir withFile = D := Option.some.inj hD
  exact .inl rfl

/-- The deleted entry ends the search: `/a` exists and is not found. -/
theorem deleted_entry_hides :
    WellFormed (rootImage withDeleted) oneGroup 1024 (rootRecord withDeleted)
        (rootTree withDeleted) ∧
      (rootTree withDeleted).resolve 2 [[97]] = some 12 ∧
      Searching (rootTree withDeleted) {} ∧
      ¬ Returns (rootTree withDeleted)
        (fun fuel => Reader.inodeFromPath (rootImage withDeleted) oneGroup fuel (path [[97]])) {}
          12 := by
  have hlegible : Legible (rootImage withDeleted) oneGroup 1024 (rootRecord withDeleted)
      (rootTree withDeleted) 2 [[97]] :=
    rootFile_legible withDeleted_facts <|
      legible_cons (by decide) (by decide) fun _ _ =>
      legible_cons (by decide) (by decide) fun _ _ =>
      legible_cons (by decide) (by decide) fun h0 _ => absurd rfl h0
  refine ⟨withDeleted_facts.wellFormed, rfl, searching_init _, fun hret => ?_⟩
  have hfinds := (withDeleted_facts.wellFormed.inodeFromPath_iff (by decide) (by decide) hlegible
    (searching_init _)).1 hret (rootDir withDeleted) rfl
  exact absurd hfinds.1 (by decide)

end TiPI.Ext2
