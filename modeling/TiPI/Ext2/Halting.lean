import TiPI.Ext2.Listing
import TiPI.Ext2.Walk

/-!
# Whether the loops over a directory end

The loops of `Reader::printDir` and `Reader::inodeFromPath` follow the record lengths in the image.
-/

namespace TiPI.Ext2

variable {α β : Type}

/-- A loop ends: with enough rounds it is not cut short. -/
def Halts (x : Nat → Call α) (w : World) : Prop :=
  ∃ m, ∀ fuel ≥ m, ∀ w', (x fuel).run w ≠ .error .unfinished w'

/-- The part of `nextDirEntry` that reads a record in `block`. -/
def Inode.readRecord (image : Image) (g : Globals) (ino : Inode) (block : Int) : Call Reading := do
  let (buff, ino) ← entryHead image g ino block
  let len := nameLength g buff
  newArray len
  let (name, ino) ← nameLoop image g (len.toNat + 1) ino true len.toNat []
  if g.blckSize = 0 then throw .undefined
  return ⟨buff, name, ino.behind g (int16 (half buff 4))⟩

section

variable {image : Image} {g : Globals} {ino ino' : Inode} {w w' : World} {r : Reading}

/-! ### One entry -/

lemma Shows.finishes {x : Call α} {y : Look α} (h : Shows x y) (herrno : w.errno = 0) :
    x.run w ≠ .error .unfinished w' := by
  intro hrun
  cases y with
  | ok a => cases (h w herrno).symm.trans hrun
  | error gap =>
    cases gap with
    | missing =>
      obtain ⟨what, hfail⟩ := h w herrno
      cases hfail.symm.trans hrun
    | before =>
      obtain ⟨what, hfail⟩ := h w herrno
      cases hfail.symm.trans hrun
    | outside => cases (h w herrno).symm.trans hrun

/-- Where there is nothing, the call throws. -/
lemma Shows.throws {x : Call α} {y : Look α} (h : Shows x y) (herrno : w.errno = 0)
    (hy : ∀ a, y ≠ .ok a) : ∃ fault w', fault ≠ .unfinished ∧ x.run w = .error fault w' := by
  cases hrun : x.run w with
  | ok a v =>
    cases y with
    | ok b => exact absurd rfl (hy b)
    | error gap =>
      cases gap with
      | missing =>
        obtain ⟨what, hfail⟩ := h w herrno
        cases hfail.symm.trans hrun
      | before =>
        obtain ⟨what, hfail⟩ := h w herrno
        cases hfail.symm.trans hrun
      | outside => cases (h w herrno).symm.trans hrun
  | error fault v =>
    refine ⟨fault, v, ?_, rfl⟩
    rintro rfl
    exact h.finishes herrno hrun

lemma Shows.readRecord (image : Image) (hpos : 0 < g.blckSize) (hlt : g.blckSize < 2 ^ 31)
    (ino : Inode) (block : Int) :
    Shows (ino.readRecord image g block) (ino.recordAt image g block) := by
  have hne : ¬ g.blckSize = 0 := by omega
  unfold Inode.readRecord Inode.recordAt
  refine bind (entryHead image g ino block) fun p => bind (newArray _) fun _ => ?_
  refine bind (nameLoop image g hpos hlt (Nat.le_succ _) Nat.le.refl) fun q => ?_
  simp only [if_neg hne]
  exact pure _

lemma nextDirEntry_eq (ino : Inode) : ino.nextDirEntry image g = (do
    modify (World.search · ino.inode)
    let block ← catching (ino.nextBlock image g) 0
    if block = 0 then
      return ((0, []), ino)
    let r ← ino.readRecord image g block
    let name ← stringOf r.name
    return ((r.number, name), r.next) : Call (DirEntry × Inode)) := by
  simp only [Inode.nextDirEntry, Inode.readRecord, Reading.number, bind_assoc]
  refine bind_congr fun _ => bind_congr fun block => if_congr Iff.rfl rfl ?_
  refine bind_congr fun p => bind_congr fun _ => bind_congr fun q => ?_
  split
  · rfl
  · rfl

lemma run_catching_failure {x : Call α} {a : α} {what : String}
    (h : x.run w = .error (.failure what) w') : (catching x a).run w = .ok a w' := by
  simp only [EStateM.run, catching, tryCatch, tryCatchThe, MonadExceptOf.tryCatch,
    EStateM.tryCatch] at h ⊢
  rw [h]
  rfl

lemma run_catching_undefined {x : Call α} {a : α} (h : x.run w = .error .undefined w') :
    (catching x a).run w = .error .undefined w' := by
  simp only [EStateM.run, catching, tryCatch, tryCatchThe, MonadExceptOf.tryCatch,
    EStateM.tryCatch] at h ⊢
  rw [h]
  rfl

/-- Without a block to go on in, `nextDirEntry` gives the default entry. -/
lemma run_nextDirEntry_stops (herrno : w.errno = 0) (h : ino.Stops image g) :
    (ino.nextDirEntry image g).run w = .ok ((0, []), ino) (w.search ino.inode) := by
  have hsearch : (w.search ino.inode).errno = 0 := herrno
  have hshows := Shows.nextBlock image g ino
  have hblock : (catching (ino.nextBlock image g) 0).run (w.search ino.inode) =
      .ok 0 (w.search ino.inode) := by
    rcases h with haddress | haddress
    · rw [haddress] at hshows
      exact run_catching (hshows _ hsearch)
    · rw [haddress] at hshows
      obtain ⟨what, hrun⟩ := hshows _ hsearch
      exact run_catching_failure hrun
  rw [nextDirEntry_eq]
  simp only [EStateM.run_bind, EStateM.run_modify, hblock, if_true]
  rfl

section

variable (hpos : 0 < g.blckSize) (hlt : g.blckSize < 2 ^ 31)

include hpos hlt

/-- `nextDirEntry` gives the record at which the inode stands. -/
lemma run_nextDirEntry_standing (herrno : w.errno = 0) (h : ino.standing image g = some r) :
    (ino.nextDirEntry image g).run w =
      .ok ((r.number, cString (r.name ++ w.behind 0)), r.next) (w.enter ino.inode) := by
  obtain ⟨block, hne, haddress, hrecord⟩ := standing_eq_some.1 h
  have hsearch : (w.search ino.inode).errno = 0 := herrno
  have hblock := Shows.nextBlock image g ino
  rw [haddress] at hblock
  have hread := Shows.readRecord image hpos hlt ino block
  rw [hrecord] at hread
  have hstring : (stringOf r.name).run (w.search ino.inode) =
      .ok (cString (r.name ++ w.behind 0)) (w.enter ino.inode) := rfl
  rw [nextDirEntry_eq]
  simp only [EStateM.run_bind, EStateM.run_modify, run_catching (hblock _ hsearch), if_neg hne,
    hread _ hsearch, hstring]
  rfl

/-- Otherwise it throws, or gives the default entry with an error. -/
lemma run_nextDirEntry_none (herrno : w.errno = 0) (h : ino.standing image g = none)
    (hstops : ¬ ino.Stops image g) :
    (∃ w', w'.errno ≠ 0 ∧ (ino.nextDirEntry image g).run w = .ok ((0, []), ino) w') ∨
      ∃ fault w', fault ≠ .unfinished ∧ (ino.nextDirEntry image g).run w = .error fault w' := by
  have hsearch : (w.search ino.inode).errno = 0 := herrno
  have hshows := Shows.nextBlock image g ino
  rw [nextDirEntry_eq]
  simp only [EStateM.run_bind, EStateM.run_modify]
  cases haddress : ino.address image g with
  | ok block =>
    have hne : block ≠ 0 := by
      rintro rfl
      exact hstops (.inl haddress)
    rw [haddress] at hshows
    obtain ⟨fault, v, hfault, hrun⟩ := (Shows.readRecord image hpos hlt ino block).throws
      hsearch fun r hr => by
        rw [standing_eq_some.2 ⟨block, hne, haddress, hr⟩] at h
        cases h
    simp only [run_catching (hshows _ hsearch), if_neg hne, EStateM.run_bind, hrun]
    exact .inr ⟨fault, v, hfault, rfl⟩
  | error gap =>
    rw [haddress] at hshows
    cases gap with
    | missing => exact absurd (.inr haddress) hstops
    | before =>
      obtain ⟨what, hrun⟩ := hshows _ hsearch
      simp only [run_catching_failure hrun, if_true]
      exact .inl ⟨_, show EINVAL ≠ 0 by decide, rfl⟩
    | outside =>
      simp only [run_catching_undefined (hshows _ hsearch)]
      exact .inr ⟨.undefined, _, by decide, rfl⟩

end

lemma run_fill_of_numbered (herrno : w.errno = 0) {i : Int}
    (h : Inode.numbered image g i = .ok ino) : (Inode.fill image g i).run w = .ok ino w := by
  have hshows := Shows.fill image g i
  rw [h] at hshows
  exact hshows w herrno

/-- Where there is an error already, no inode can be read. -/
lemma fill_throws_of_errno (herrno : w.errno ≠ 0) (i : Int) :
    ∃ fault w', fault ≠ .unfinished ∧ (Inode.fill image g i).run w = .error fault w' := by
  have hread : ∀ what count offset, ∃ fault w', fault ≠ .unfinished ∧
      (preadAll image what count offset).run w = .error fault w' := by
    intro what count offset
    by_cases hneg : offset < 0
    · refine ⟨.failure ("Something went wrong with " ++ what),
        { w with errno := EINVAL }, by simp, ?_⟩
      simp only [preadAll, pread, hneg, if_true, EStateM.run_bind, EStateM.run_modify,
        EStateM.run_pure, EStateM.run_get]
      rw [if_pos (.inr (by decide))]
      rfl
    · refine ⟨.failure ("Something went wrong with " ++ what), w, by simp, ?_⟩
      simp only [preadAll, pread, hneg, if_false, EStateM.run_bind, EStateM.run_pure,
        EStateM.run_get]
      rw [if_pos (.inr herrno)]
      rfl
  unfold Inode.fill Inode.record
  by_cases hper : g.inodePerGroup = 0
  · simp only [if_pos hper]
    exact ⟨.undefined, w, by decide, rfl⟩
  · by_cases hneg : g.bgdtSize < 0
    · simp only [if_neg hper, newArray, if_pos hneg]
      exact ⟨.failure "std::bad_array_new_length", w, by simp, rfl⟩
    · obtain ⟨fault, v, hfault, hrun⟩ := hread "first Inode::fill::pread() : " g.bgdtSize 2048
      refine ⟨fault, v, hfault, ?_⟩
      have hnew : (newArray g.bgdtSize).run w = .ok () w := run_newArray (by omega)
      simp only [if_neg hper, EStateM.run_bind, hnew, hrun]

lemma fill_throws {i : Int} (h : ¬ (w.errno = 0 ∧ ∃ ino, Inode.numbered image g i = .ok ino)) :
    ∃ fault w', fault ≠ .unfinished ∧ (Inode.fill image g i).run w = .error fault w' := by
  by_cases herrno : w.errno = 0
  · exact (Shows.fill image g i).throws herrno fun ino hino => h ⟨herrno, ino, hino⟩
  · exact fill_throws_of_errno herrno i

/-! ### The loop of `printDir` -/

/-- The loop of `printDir` stops where the inode of a record cannot be read. -/
def Inode.opens (image : Image) (g : Globals) (inode : Int) : Bool :=
  (Inode.numbered image g inode).isOk

/-- The walk of `printDir`. -/
abbrev Inode.listing (image : Image) (g : Globals) : Inode → Option Inode :=
  Inode.onward image g (Inode.opens image g)

/-- The walk of a search, which opens no inode. -/
abbrev Inode.searching (image : Image) (g : Globals) : Inode → Option Inode :=
  Inode.onward image g fun _ => true

lemma onward_eq_none {goesOn : Int → Bool} (h : ino.standing image g = none) :
    ino.onward image g goesOn = none := by
  rw [Inode.onward, h, Option.bind_none]

section

variable (hpos : 0 < g.blckSize) (hlt : g.blckSize < 2 ^ 31)

include hpos hlt

/-- `printDirEntry` goes on exactly where the walk does. -/
lemma run_printDirEntry (herrno : w.errno = 0) :
    (∃ y w', ino.listing image g = some y ∧ w'.errno = 0 ∧ ∃ i ≠ 0,
      (ino.printDirEntry image g).run w = .ok (i, y) w') ∨
    (ino.listing image g = none ∧
      ((∃ y w', (ino.printDirEntry image g).run w = .ok (0, y) w') ∨
        ∃ fault w', fault ≠ .unfinished ∧
        (ino.printDirEntry image g).run w = .error fault w')) := by
  simp only [Inode.printDirEntry, EStateM.run_bind]
  cases hstanding : ino.standing image g with
  | none =>
    refine .inr ⟨onward_eq_none hstanding, ?_⟩
    by_cases hstops : ino.Stops image g
    · rw [run_nextDirEntry_stops herrno hstops]
      exact .inl ⟨ino, _, rfl⟩
    · rcases run_nextDirEntry_none hpos hlt herrno hstanding hstops with
        ⟨v, -, hnext⟩ | ⟨fault, v, hne, hnext⟩
      · rw [hnext]
        exact .inl ⟨ino, v, rfl⟩
      · rw [hnext]
        exact .inr ⟨fault, v, hne, rfl⟩
  | some r =>
    have henter : (w.enter ino.inode).errno = 0 := herrno
    rw [run_nextDirEntry_standing hpos hlt herrno hstanding]
    by_cases hzero : r.number = 0
    · have hnone : ino.listing image g = none := by
        rw [Inode.listing, Inode.onward, hstanding, Option.bind_some,
          if_neg fun hgo => hgo.1 hzero]
      refine .inr ⟨hnone, .inl ⟨r.next, w.enter ino.inode, ?_⟩⟩
      simp only [if_pos hzero]
      rfl
    · simp only [if_neg hzero, EStateM.run_bind]
      cases hnumbered : Inode.numbered image g r.number with
      | ok e =>
        have hopens : Inode.opens image g r.number = true := by
          rw [Inode.opens, hnumbered]
          rfl
        rw [run_fill_of_numbered henter hnumbered]
        refine .inl ⟨r.next, _, onward_eq_some.2 ⟨r, hstanding, hzero, hopens, rfl⟩, ?_, r.number,
          hzero, rfl⟩
        exact herrno
      | error gap =>
        have hopens : ¬ Inode.opens image g r.number = true := by
          rw [Inode.opens, hnumbered]
          exact Bool.false_ne_true
        have hnone : ino.listing image g = none := by
          rw [Inode.listing, Inode.onward, hstanding, Option.bind_some,
            if_neg fun hgo => hopens hgo.2]
        obtain ⟨fault, v, hne, hfill⟩ := (Shows.fill image g r.number).throws henter fun a ha => by
          cases hnumbered.symm.trans ha
        rw [hfill]
        exact .inr ⟨hnone, .inr ⟨fault, v, hne, rfl⟩⟩

/-- The loop is cut short exactly as long as the walk goes on. -/
lemma dirLoop_unfinished_iff (n : Nat) (ino : Inode) {w : World} (herrno : w.errno = 0) :
    (∃ w', (Reader.dirLoop image g n ino).run w = .error .unfinished w') ↔
      orbit (Inode.listing image g) n ino ≠ none := by
  induction n generalizing ino w with
  | zero => exact iff_of_true ⟨w, rfl⟩ (Option.some_ne_none _)
  | succ n ih =>
    rw [orbit, Reader.dirLoop]
    simp only [EStateM.run_bind]
    rcases run_printDirEntry hpos hlt herrno with ⟨y, v, hnext, hv, i, hne, hentry⟩ |
      ⟨hnone, ⟨y, v, hentry⟩ | ⟨fault, v, hne, hentry⟩⟩
    · rw [hentry, hnext, Option.bind_some]
      simp only [if_pos hne]
      exact ih y hv
    · rw [hentry, hnone, Option.bind_none]
      refine iff_of_false ?_ (fun h => h rfl)
      rintro ⟨w', h⟩
      cases h
    · rw [hentry, hnone, Option.bind_none]
      refine iff_of_false ?_ (fun h => h rfl)
      rintro ⟨w', h⟩
      cases h
      exact hne rfl

end

/-! ### The loops of `inodeFromPath` -/

/-- More rounds than are needed do not change the result. -/
lemma entryLoop_mono {name : Name} {m n : Nat} {p : DirEntry × Inode} (hle : m ≤ n)
    (h : (Reader.entryLoop image g name m ino).run w = .ok p w') :
    (Reader.entryLoop image g name n ino).run w = .ok p w' := by
  induction m generalizing n ino w with
  | zero => cases h
  | succ m ih =>
    obtain ⟨n, rfl⟩ := Nat.exists_eq_add_of_le' (Nat.le_trans (Nat.succ_pos m) hle)
    obtain ⟨⟨dir, ino'⟩, v, hnext, hrest⟩ := bind_ok h
    rw [Reader.entryLoop, EStateM.run_bind, hnext]
    by_cases hgo : dir.1 ≠ 0 ∧ dir.2 ≠ name
    · simp only [if_pos hgo] at hrest ⊢
      exact ih (Nat.le_of_succ_le_succ hle) hrest
    · simp only [if_neg hgo] at hrest ⊢
      exact hrest

section

variable (hpos : 0 < g.blckSize) (hlt : g.blckSize < 2 ^ 31) {name : Name}

include hpos hlt

/-- One round of a search. -/
lemma run_entryLoop_standing (herrno : w.errno = 0) (h : ino.standing image g = some r) (n : Nat) :
    (Reader.entryLoop image g name (n + 1) ino).run w =
      if r.number ≠ 0 ∧ cString (r.name ++ w.behind 0) ≠ name then
        (Reader.entryLoop image g name n r.next).run (w.enter ino.inode)
      else .ok ((r.number, cString (r.name ++ w.behind 0)), r.next) (w.enter ino.inode) := by
  rw [Reader.entryLoop, EStateM.run_bind, run_nextDirEntry_standing hpos hlt herrno h]
  dsimp only
  split
  · rfl
  · rfl

/-- A search that meets the name ends. -/
lemma Meets.run {k : Nat} {number : Int} {memory : Nat → Name}
    (h : Meets image g name memory ino k number) (hmemory : w.behind = memory)
    (herrno : w.errno = 0) :
    ∃ ino' v, (Reader.entryLoop image g name (k + 1) ino).run w = .ok ((number, name), ino') v ∧
      v.errno = 0 ∧ v.behind = fun j => w.behind (k + j) := by
  induction h generalizing w with
  | @stops memory ino stops empty =>
    subst empty
    refine ⟨ino, w.search ino.inode, ?_, herrno, by simp [World.search]⟩
    rw [Reader.entryLoop, EStateM.run_bind, run_nextDirEntry_stops herrno stops]
    rfl
  | @here memory ino r standing met =>
    subst hmemory
    refine ⟨r.next, w.enter ino.inode, ?_, herrno, ?_⟩
    · rw [run_entryLoop_standing hpos hlt herrno standing, if_neg fun h => h.2 met, met]
    · funext j
      rw [Nat.add_comm]
      rfl
  | @later memory ino r k number standing used other _ ih =>
    subst hmemory
    obtain ⟨ino', v, hrun, hv, hbehind⟩ := ih (w := w.enter ino.inode) rfl herrno
    refine ⟨ino', v, ?_, hv, ?_⟩
    · rw [run_entryLoop_standing hpos hlt herrno standing, if_pos ⟨used, other⟩, hrun]
    · rw [hbehind]
      funext j
      rw [Nat.succ_add]
      rfl

/-- A search that returns the name without an error has met it. -/
lemma meets_of_ok {fuel : Nat} {dir : DirEntry}
    (h : (Reader.entryLoop image g name fuel ino).run w = .ok (dir, ino') w') (hname : dir.2 = name)
    (herrno : w.errno = 0) : w'.errno ≠ 0 ∨ ∃ k, Meets image g name w.behind ino k dir.1 ∧
      w'.errno = 0 ∧ w'.behind = fun j => w.behind (k + j) := by
  induction fuel generalizing ino w with
  | zero => cases h
  | succ fuel ih =>
    cases hstanding : ino.standing image g with
    | none =>
      rw [Reader.entryLoop, EStateM.run_bind] at h
      by_cases hstops : ino.Stops image g
      · rw [run_nextDirEntry_stops herrno hstops] at h
        cases h
        exact .inr ⟨0, .stops hstops hname.symm, herrno, by simp [World.search]⟩
      · rcases run_nextDirEntry_none hpos hlt herrno hstanding hstops with
          ⟨v, hv, hnext⟩ | ⟨fault, v, -, hnext⟩
        · rw [hnext] at h
          cases h
          exact .inl hv
        · rw [hnext] at h
          cases h
    | some r =>
      rw [run_entryLoop_standing hpos hlt herrno hstanding] at h
      split at h
      · next hgo =>
        refine (ih h herrno).imp_right ?_
        rintro ⟨k, hmeets, hv, hbehind⟩
        refine ⟨k + 1, .later hstanding hgo.1 hgo.2 hmeets, hv, ?_⟩
        rw [hbehind]
        funext j
        rw [Nat.succ_add]
        rfl
      · obtain ⟨hp, rfl⟩ := EStateM.Result.ok.inj h
        obtain ⟨number, found⟩ := dir
        obtain ⟨hnumber, hfound⟩ := Prod.mk.inj (Prod.mk.inj hp).1
        dsimp only at hname ⊢
        rw [← hnumber]
        refine .inr ⟨1, .here hstanding (hfound.trans hname), herrno, ?_⟩
        funext j
        rw [Nat.add_comm]
        rfl

/-- As long as the walk goes on and the name is not met, so does the search. -/
lemma entryLoop_unfinished {n : Nat} (herrno : w.errno = 0)
    (hgoes : orbit (Inode.searching image g) n ino ≠ none)
    (hno : ∀ k number, ¬ Meets image g name w.behind ino k number) :
    ∃ w', (Reader.entryLoop image g name n ino).run w = .error .unfinished w' := by
  induction n generalizing ino w with
  | zero => exact ⟨w, rfl⟩
  | succ n ih =>
    rw [orbit] at hgoes
    obtain ⟨y, hy⟩ : ∃ y, ino.searching image g = some y := by
      refine Option.ne_none_iff_exists'.1 fun hnone => hgoes ?_
      rw [hnone, Option.bind_none]
    rw [hy, Option.bind_some] at hgoes
    obtain ⟨r, standing, used, -, rfl⟩ := onward_eq_some.1 hy
    have hother : cString (r.name ++ w.behind 0) ≠ name := fun hmet =>
      hno 1 r.number (.here standing hmet)
    rw [run_entryLoop_standing hpos hlt herrno standing, if_pos ⟨used, hother⟩]
    exact ih (w := w.enter ino.inode) herrno hgoes fun k number hmeets =>
      hno (k + 1) number (.later standing used hother hmeets)

/-- Where the walk ends, the search does. -/
lemma entryLoop_ends {n fuel : Nat} (herrno : w.errno = 0)
    (hends : orbit (Inode.searching image g) n ino = none) (hle : n ≤ fuel) :
    (Reader.entryLoop image g name fuel ino).run w ≠ .error .unfinished w' := by
  induction n generalizing ino w fuel with
  | zero => cases hends
  | succ n ih =>
    obtain ⟨fuel, rfl⟩ := Nat.exists_eq_add_of_le' (Nat.le_trans (Nat.succ_pos n) hle)
    intro h
    cases hstanding : ino.standing image g with
    | none =>
      rw [Reader.entryLoop, EStateM.run_bind] at h
      by_cases hstops : ino.Stops image g
      · rw [run_nextDirEntry_stops herrno hstops] at h
        cases h
      · rcases run_nextDirEntry_none hpos hlt herrno hstanding hstops with
          ⟨v, -, hnext⟩ | ⟨fault, v, hne, hnext⟩
        · rw [hnext] at h
          cases h
        · rw [hnext] at h
          cases h
          exact hne rfl
    | some r =>
      rw [run_entryLoop_standing hpos hlt herrno hstanding] at h
      split at h
      · next hgo =>
        have hnext : ino.searching image g = some r.next :=
          onward_eq_some.2 ⟨r, hstanding, hgo.1, rfl, rfl⟩
        rw [orbit, hnext, Option.bind_some] at hends
        exact ih (w := w.enter ino.inode) herrno hends (Nat.le_of_succ_le_succ hle) h
      · cases h

/-- A search ends exactly when its walk does not turn back, or meets the name. -/
lemma halts_entryLoop_iff (herrno : w.errno = 0) (hstart : ino.direI = 0) :
    Halts (fun fuel => Reader.entryLoop image g name fuel ino) w ↔
      ¬ TurnsBack image g (fun _ => true) ino ∨
        ∃ k number, Meets image g name w.behind ino k number := by
  rw [← ends_iff_not_turnsBack hpos hlt hstart]
  constructor
  · rintro ⟨m, hm⟩
    by_contra hno
    obtain ⟨hgoes, hmet⟩ := not_or.1 hno
    obtain ⟨w', hcut⟩ := entryLoop_unfinished hpos hlt herrno (fun h => hgoes ⟨m, h⟩)
      fun k number h => hmet ⟨k, number, h⟩
    exact hm m Nat.le.refl w' hcut
  · rintro (⟨m, hm⟩ | ⟨k, number, hmeets⟩)
    · exact ⟨m, fun fuel hfuel w' => entryLoop_ends hpos hlt herrno hm hfuel⟩
    · obtain ⟨ino', v, hrun, -, -⟩ := hmeets.run hpos hlt rfl herrno
      refine ⟨k + 1, fun fuel hfuel w' hcut => ?_⟩
      cases (entryLoop_mono hfuel hrun).symm.trans hcut

end

/-- The search goes on in the inode that it has found. -/
lemma run_nameListLoop_found {back n : Name} {ns : List Name} {dir found : DirEntry}
    {ino' e : Inode} {v u : World} {fuel : Nat}
    (hloop : (Reader.entryLoop image g n fuel ino).run w = .ok (found, ino') v)
    (hname : found.2 = n) (hfill : (Inode.fill image g found.1).run v = .ok e u) :
    (Reader.nameListLoop image g fuel back (n :: ns) ino dir).run w =
      if n ≠ back ∧ e.t ≠ Reader.DIR then .ok (-1) u
      else (Reader.nameListLoop image g fuel back ns e found).run u := by
  simp only [Reader.nameListLoop, EStateM.run_bind, hloop, if_neg (not_not.2 hname), hfill]
  split <;> rfl

section

variable (hpos : 0 < g.blckSize) (hlt : g.blckSize < 2 ^ 31) {back : Name}

include hpos hlt

/-- A search that returns throws, fails or goes on with the inode that it has found. -/
lemma halts_nameListLoop_iff (names : List Name) (ino : Inode) (dir : DirEntry) {w : World}
    (herrno : w.errno = 0) (hstart : ino.direI = 0) :
    Halts (fun fuel => Reader.nameListLoop image g fuel back names ino dir) w ↔
      SearchesEnd image g back names ino w.behind := by
  induction names generalizing ino dir w with
  | nil =>
    refine iff_of_true ⟨0, fun fuel _ w' h => ?_⟩ trivial
    cases h
  | cons n ns ih =>
    rw [SearchesEnd, ← halts_entryLoop_iff hpos hlt herrno hstart]
    constructor
    · rintro ⟨m, hm⟩
      refine ⟨⟨m, fun fuel hfuel w' hcut => hm fuel hfuel w' ?_⟩, ?_⟩
      · simp only [Reader.nameListLoop, EStateM.run_bind, hcut]
      · intro k number e hmeets he hgo
        obtain ⟨ino', v, hloop, hv, hbehind⟩ := hmeets.run hpos hlt rfl herrno
        have hfill := run_fill_of_numbered hv he
        rw [← hbehind]
        refine (ih e (number, n) hv (direI_of_numbered he)).1
          ⟨max m (k + 1), fun fuel hle w' hcut => ?_⟩
        refine hm fuel (Nat.le_trans (Nat.le_max_left ..) hle) w' ?_
        have hloop' := entryLoop_mono (Nat.le_trans (Nat.le_max_right ..) hle) hloop
        rwa [run_nameListLoop_found hloop' rfl hfill,
          if_neg fun hno => hgo.elim hno.1 hno.2]
    · rintro ⟨⟨m, hm⟩, hrest⟩
      by_cases hreturns : ∃ k p v, (Reader.entryLoop image g n k ino).run w = .ok p v
      · obtain ⟨k, ⟨found, ino'⟩, v, hloop⟩ := hreturns
        have hsame : ∀ fuel ≥ k, (Reader.entryLoop image g n fuel ino).run w =
            .ok (found, ino') v := fun fuel hfuel => entryLoop_mono hfuel hloop
        by_cases hname : found.2 = n
        · by_cases hopens : v.errno = 0 ∧ ∃ e, Inode.numbered image g found.1 = .ok e
          · obtain ⟨hv, e, he⟩ := hopens
            have hfill := run_fill_of_numbered hv he
            obtain ⟨j, hmeets, -, hbehind⟩ :=
              (meets_of_ok hpos hlt hloop hname herrno).resolve_left (not_not.2 hv)
            by_cases hstay : n ≠ back ∧ e.t ≠ Reader.DIR
            · refine ⟨k, fun fuel hfuel w' h => ?_⟩
              rw [run_nameListLoop_found (hsame fuel hfuel) hname hfill, if_pos hstay] at h
              cases h
            · have hgo : n = back ∨ e.t = Reader.DIR :=
                (not_and_or.1 hstay).imp not_not.1 not_not.1
              have hend := hrest j found.1 e hmeets he hgo
              rw [← hbehind] at hend
              obtain ⟨l, hl⟩ := (ih e found hv (direI_of_numbered he)).2 hend
              refine ⟨max k l, fun fuel hfuel w' h => ?_⟩
              have hloop' := hsame fuel (Nat.le_trans (Nat.le_max_left ..) hfuel)
              rw [run_nameListLoop_found hloop' hname hfill, if_neg hstay] at h
              exact hl fuel (Nat.le_trans (Nat.le_max_right ..) hfuel) w' h
          · obtain ⟨fault, u, hne, hfill⟩ := fill_throws hopens
            refine ⟨k, fun fuel hfuel w' h => ?_⟩
            simp only [Reader.nameListLoop, EStateM.run_bind, hsame fuel hfuel,
              if_neg (not_not.2 hname), hfill] at h
            cases h
            exact hne rfl
        · refine ⟨k, fun fuel hfuel w' h => ?_⟩
          simp only [Reader.nameListLoop, EStateM.run_bind, hsame fuel hfuel, ne_eq, hname,
            not_false_eq_true, if_true] at h
          cases h
      · -- the search throws
        refine ⟨m, fun fuel hfuel w' h => ?_⟩
        cases hloop : (Reader.entryLoop image g n fuel ino).run w with
        | ok p v => exact hreturns ⟨fuel, p, v, hloop⟩
        | error fault v =>
          simp only [Reader.nameListLoop, EStateM.run_bind, hloop] at h
          cases h
          exact hm fuel hfuel _ hloop

/-! ### Both loops -/

/-- The names of a path. -/
def nameList (path : List UInt8) : List Name :=
  let tokens := split path Reader.slash
  if tokens.headD [] = [] then tokens.tail else tokens

lemma halts_printDir_iff (i : Int) (w : World) :
    Halts (fun fuel => Reader.printDir image g fuel i) w ↔
      (w.errno = 0 → ∀ ino, Inode.numbered image g i = .ok ino → ino.t = Reader.DIR →
        ¬ TurnsBack image g (Inode.opens image g) ino) := by
  by_cases hopens : w.errno = 0 ∧ ∃ ino, Inode.numbered image g i = .ok ino
  · obtain ⟨herrno, ino, hino⟩ := hopens
    have hfill := run_fill_of_numbered herrno hino
    by_cases htype : ino.t = Reader.DIR
    · have hcut (fuel : Nat) := @dirLoop_unfinished_iff image g hpos hlt fuel ino w herrno
      have hsame : Halts (fun fuel => Reader.printDir image g fuel i) w ↔
          ∃ n, orbit (Inode.listing image g) n ino = none := by
        simp only [Halts, Reader.printDir, EStateM.run_bind, hfill, if_neg (not_not.2 htype)]
        constructor
        · rintro ⟨m, hm⟩
          by_contra hno
          obtain ⟨w', h⟩ := (hcut m).2 fun h => hno ⟨m, h⟩
          exact hm m Nat.le.refl w' h
        · rintro ⟨m, hm⟩
          exact ⟨m, fun fuel hfuel w' h => (hcut fuel).1 ⟨w', h⟩ (orbit_none_of_le hm hfuel)⟩
      rw [hsame, ends_iff_not_turnsBack hpos hlt (direI_of_numbered hino)]
      constructor
      · intro h _ e he _
        cases hino.symm.trans he
        exact h
      · exact fun h => h herrno ino hino htype
    · refine iff_of_true ⟨0, fun fuel _ w' hcut => ?_⟩ fun _ e he hdir => ?_
      · simp only [Reader.printDir, EStateM.run_bind, hfill, if_pos htype] at hcut
        cases hcut
      · cases hino.symm.trans he
        exact absurd hdir htype
  · obtain ⟨fault, v, hne, hfill⟩ := fill_throws hopens
    refine iff_of_true ⟨0, fun fuel _ w' hcut => ?_⟩
      fun herrno ino hino => absurd ⟨herrno, ino, hino⟩ hopens
    simp only [Reader.printDir, EStateM.run_bind, hfill] at hcut
    cases hcut
    exact hne rfl

lemma halts_inodeFromPath_iff (path : List UInt8) (w : World) :
    Halts (fun fuel => Reader.inodeFromPath image g fuel path) w ↔
      (w.errno = 0 → ∀ ino, Inode.numbered image g Reader.ROOT_INODE = .ok ino →
        SearchesEnd image g ((nameList path).getLastD []) (nameList path) ino w.behind) := by
  have hrun : ∀ fuel, (Reader.inodeFromPath image g fuel path).run w =
      (Inode.fill image g Reader.ROOT_INODE >>= fun ino => Reader.nameListLoop image g fuel
        ((nameList path).getLastD []) (nameList path) ino (0, [])).run w := fun fuel => rfl
  by_cases hopens : w.errno = 0 ∧ ∃ ino, Inode.numbered image g Reader.ROOT_INODE = .ok ino
  · obtain ⟨herrno, ino, hino⟩ := hopens
    have hsame : Halts (fun fuel => Reader.inodeFromPath image g fuel path) w ↔
        Halts (fun fuel => Reader.nameListLoop image g fuel ((nameList path).getLastD [])
          (nameList path) ino (0, [])) w := by
      simp only [Halts, hrun, EStateM.run_bind, run_fill_of_numbered herrno hino]
    rw [hsame, halts_nameListLoop_iff hpos hlt _ ino (0, []) herrno (direI_of_numbered hino)]
    constructor
    · intro h _ e he
      cases hino.symm.trans he
      exact h
    · exact fun h => h herrno ino hino
  · obtain ⟨fault, v, hne, hfill⟩ := fill_throws hopens
    refine iff_of_true ⟨0, fun fuel _ w' hcut => ?_⟩
      fun herrno ino hino => absurd ⟨herrno, ino, hino⟩ hopens
    simp only [hrun, EStateM.run_bind, hfill] at hcut
    cases hcut
    exact hne rfl

/-- Where all records have positive lengths, the loops end. -/
theorem halts_of_forward (h : ∀ i e, Inode.numbered image g i = .ok e → Forward image g e)
    (i : Int) (path : List UInt8) (w : World) :
    Halts (fun fuel => Reader.printDir image g fuel i) w ∧
      Halts (fun fuel => Reader.inodeFromPath image g fuel path) w := by
  constructor
  · exact (halts_printDir_iff hpos hlt i w).2 fun _ ino hino _ => (h i ino hino).not_turnsBack
  · exact (halts_inodeFromPath_iff hpos hlt path w).2 fun _ ino hino =>
      searchesEnd_of_forward h _ (h _ ino hino)

end

end

/-- A record of length `0`. -/
def stuck : List Record := [⟨2, 0, [46]⟩]

end TiPI.Ext2
