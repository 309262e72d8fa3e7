import TiPI.Ext2.Directory

/-!
# What calls leave alone

`Steady` calls leave the world as it is and do not depend on it; every call keeps the list of the
inodes that were searched. Both go from the parts of a call to the whole.
-/

namespace TiPI.Ext2

variable {α β : Type}

/-! ### Properties of calls -/

lemma holds_ite {P : Call α → Prop} {c : Prop} [Decidable c] {x y : Call α} (hx : P x) (hy : P y) :
    P (if c then x else y) :=
  iteInduction (fun _ => hx) fun _ => hy

/-- A property that goes from the parts of a call to the whole, but for a loop that is cut short. -/
structure Composes (P : ∀ {α : Type}, Call α → Prop) : Prop where
  pure : ∀ {α : Type} (a : α), P (pure a : Call α)
  throw : ∀ {α : Type} {fault : Fault}, fault ≠ .unfinished → P (throw fault : Call α)
  bind : ∀ {α β : Type} {x : Call α} {f : α → Call β}, P x → (∀ a, P (f a)) → P (x >>= f)

/-- `preadAll` has it, too. -/
structure Reads (P : ∀ {α : Type}, Call α → Prop) : Prop extends Composes @P where
  preadAll : ∀ image what count offset, P (preadAll image what count offset)

section

variable {P : ∀ {α : Type}, Call α → Prop}

namespace Composes

variable (h : Composes @P)

include h

/-- A test that throws, before the rest. -/
lemma guard {c : Prop} [Decidable c] {fault : Fault} {rest : Unit → Call α}
    (hne : fault ≠ .unfinished) (hrest : ∀ u, P (rest u)) :
    P (if c then MonadExcept.throw fault >>= rest else rest ()) :=
  holds_ite (h.bind (h.throw hne) hrest) (hrest ())

lemma newArray (n : Int) : P (newArray n) := holds_ite (h.throw (by simp)) (h.pure _)

lemma load32 (buff : List UInt8) (i : Nat) : P (load32 buff i) :=
  holds_ite (h.pure _) (h.throw (by simp))

end Composes

namespace Reads

variable (h : Reads @P) (image : Image) (g : Globals)

include h

lemma record (inode : Int) : P (Inode.record image g inode) := by
  unfold Inode.record
  refine h.guard (by simp) fun _ => ?_
  refine h.bind (h.newArray _) fun _ => h.bind (h.preadAll _ _ _ _) fun _ => ?_
  exact h.bind (h.load32 _ _) fun _ => h.bind (h.newArray _) fun _ => h.preadAll _ _ _ _

lemma fill (inode : Int) : P (Inode.fill image g inode) :=
  h.bind (h.record image g inode) fun _ => h.guard (by simp) fun _ => h.pure _

lemma layer (what : String) (block : Int) : P (Inode.layer image g what block) :=
  h.bind (h.newArray _) fun _ => h.preadAll _ _ _ _

lemma nextBlock (ino : Inode) : P (ino.nextBlock image g) := by
  unfold Inode.nextBlock
  refine holds_ite (h.pure _) ?_
  split
  · exact h.pure _
  · refine holds_ite (h.bind (h.layer image g _ _) fun _ => h.load32 _ _) (holds_ite ?_ (h.pure _))
    refine h.bind (h.layer image g _ _) fun _ => h.bind (h.load32 _ _) fun _ => ?_
    exact h.bind (h.layer image g _ _) fun _ => h.load32 _ _

lemma entryHead (ino : Inode) (block : Int) : P (ino.entryHead image g block) := by
  unfold Inode.entryHead
  refine holds_ite ?_ (h.bind (h.preadAll _ _ _ _) fun _ => h.pure _)
  refine h.bind (h.preadAll _ _ _ _) fun _ => h.bind (h.nextBlock image g _) fun _ => ?_
  exact h.guard (by simp) fun _ => h.bind (h.preadAll _ _ _ _) fun _ => h.pure _

/-- The loop over a name, however many rounds it is given. -/
lemma nameLoop (hcut : ∀ {α : Type}, P (MonadExcept.throw .unfinished : Call α)) (fuel : Nat)
    (ino : Inode) (first : Bool) (toRead : Nat) (name : Name) :
    P (ino.nameLoop image g fuel first toRead name) := by
  induction fuel generalizing ino first toRead name with
  | zero =>
    cases toRead with
    | zero => exact h.pure _
    | succ n => exact hcut
  | succ fuel ih =>
    cases toRead with
    | zero => exact h.pure _
    | succ n =>
      refine h.bind (h.nextBlock image g ino) fun _ => h.guard (by simp) fun _ => ?_
      exact h.bind (h.preadAll _ _ _ _) fun _ => ih _ _ _ _

end Reads

end

/-! ### Calls that only read the image -/

/-- As long as `errno` is zero, a result does not depend on the world and leaves it alone. -/
def Steady (x : Call α) : Prop :=
  ∀ w a w', w.errno = 0 → x.run w = .ok a w' →
    w' = w ∧ ∀ v : World, v.errno = 0 → x.run v = .ok a v

namespace Steady

lemma pure (a : α) : Steady (pure a : Call α) := by
  intro w b w' _ h
  cases h
  exact ⟨rfl, fun _ _ => rfl⟩

lemma throw (fault : Fault) : Steady (throw fault : Call α) := by
  intro w b w' _ h
  cases h

lemma bind {x : Call α} {f : α → Call β} (hx : Steady x) (hf : ∀ a, Steady (f a)) :
    Steady (x >>= f) := by
  intro w b w' hw h
  obtain ⟨a, u, hxa, hfb⟩ := bind_ok h
  obtain ⟨rfl, hx'⟩ := hx _ _ _ hw hxa
  obtain ⟨rfl, hf'⟩ := hf a _ _ _ hw hfb
  refine ⟨rfl, fun v hv => ?_⟩
  rw [EStateM.run_bind, hx' v hv]
  exact hf' v hv

lemma run_preadAll_of_errno {w : World} (image : Image) (what : String) (count offset : Int)
    (herrno : w.errno = 0) :
    (Ext2.preadAll image what count offset).run w =
      if offset < 0 then
        .error (.failure ("Something went wrong with " ++ what)) { w with errno := EINVAL }
      else if ((min (sizeT count) (image.length - offset.toNat) : Nat) : Int) = count then
        .ok (image.bytes offset.toNat (min (sizeT count) (image.length - offset.toNat))) w
      else .error (.failure ("Something went wrong with " ++ what)) w := by
  by_cases hneg : offset < 0
  · simp only [Ext2.preadAll, pread, hneg, if_true, EStateM.run_bind, EStateM.run_modify,
      EStateM.run_pure, EStateM.run_get]
    rw [if_pos (.inr (by decide))]
    rfl
  · simp only [Ext2.preadAll, pread, hneg, if_false, EStateM.run_bind, EStateM.run_pure,
      EStateM.run_get, Image.length_bytes, herrno]
    by_cases hcount : ((min (sizeT count) (image.length - offset.toNat) : Nat) : Int) = count
    · rw [if_pos hcount, if_neg (not_or.2 ⟨not_not.2 hcount, not_not.2 rfl⟩)]
      rfl
    · rw [if_neg hcount, if_pos (.inl hcount)]
      rfl

lemma preadAll (image : Image) (what : String) (count offset : Int) :
    Steady (preadAll image what count offset) := by
  intro w buff w' hw h
  rw [run_preadAll_of_errno _ _ _ _ hw] at h
  split at h
  · cases h
  · next hneg =>
    split at h
    · next hcount =>
      cases h
      refine ⟨rfl, fun v hv => ?_⟩
      rw [run_preadAll_of_errno _ _ _ _ hv, if_neg hneg, if_pos hcount]
    · cases h

lemma reads : Reads @Steady := ⟨⟨pure, fun _ => throw _, bind⟩, preadAll⟩

end Steady

/-! ### The inodes that were searched -/

/-- The world that a call leaves, also when it throws. -/
def endWorld : EStateM.Result Fault World α → World
  | .ok _ w => w
  | .error _ w => w

def Keeps (x : Call α) : Prop := ∀ w, w.searched ⊆ (endWorld (x.run w)).searched

namespace Keeps

lemma pure (a : α) : Keeps (pure a : Call α) := fun _ => List.Subset.refl _

lemma throw (fault : Fault) : Keeps (throw fault : Call α) := fun _ => List.Subset.refl _

lemma bind {x : Call α} {f : α → Call β} (hx : Keeps x) (hf : ∀ a, Keeps (f a)) :
    Keeps (x >>= f) := by
  intro w
  have hw := hx w
  rw [EStateM.run_bind]
  cases hrun : x.run w with
  | ok a v =>
    rw [hrun] at hw
    exact List.Subset.trans hw (hf a v)
  | error fault v =>
    rw [hrun] at hw
    exact hw

lemma composes : Composes @Keeps := ⟨pure, fun _ => throw _, bind⟩

lemma modify {f : World → World} (hf : ∀ w, w.searched ⊆ (f w).searched) :
    Keeps (modify f : Call Unit) := hf

lemma get : Keeps (get : Call World) := fun _ => List.Subset.refl _

lemma pread (image : Image) (count offset : Int) : Keeps (pread image count offset) := by
  unfold Ext2.pread
  refine holds_ite (bind (modify fun w => ?_) fun _ => pure _) (pure _)
  exact List.Subset.refl w.searched

lemma preadAll (image : Image) (what : String) (count offset : Int) :
    Keeps (preadAll image what count offset) :=
  (pread image count offset).bind fun _ => get.bind fun _ =>
    composes.guard (by simp) fun _ => pure _

lemma reads : Reads @Keeps := ⟨composes, preadAll⟩

lemma catching {x : Call α} (hx : Keeps x) (a : α) : Keeps (catching x a) := by
  intro w
  have hw := hx w
  simp only [EStateM.run] at hw
  simp only [EStateM.run, Ext2.catching, tryCatch, tryCatchThe, MonadExceptOf.tryCatch,
    EStateM.tryCatch]
  cases hrun : x w with
  | ok b v =>
    rw [hrun] at hw
    exact hw
  | error fault v =>
    rw [hrun] at hw
    cases fault <;> exact hw

lemma stringOf (name : Name) : Keeps (stringOf name) := fun _ => List.Subset.refl _

variable (image : Image) (g : Globals)

/-- The searched inode is noted first. -/
lemma nextDirEntry_eq (ino : Inode) : ∃ rest, Keeps rest ∧
    ino.nextDirEntry image g = (modifyThe World (World.search · ino.inode) >>= fun _ => rest) := by
  refine ⟨_, ?_, rfl⟩
  refine ((reads.nextBlock image g ino).catching 0).bind fun _ => holds_ite (pure _) ?_
  refine (reads.entryHead image g ino _).bind fun _ => (composes.newArray _).bind fun _ => ?_
  refine (reads.nameLoop image g (throw _) _ _ _ _ _).bind fun _ => ?_
  exact composes.guard (by simp) fun _ => (stringOf _).bind fun _ => pure _

lemma nextDirEntry (ino : Inode) : Keeps (ino.nextDirEntry image g) := by
  obtain ⟨rest, hrest, heq⟩ := nextDirEntry_eq image g ino
  rw [heq]
  exact (modify fun w => List.subset_cons_self _ w.searched).bind fun _ => hrest

lemma entryLoop (name : Name) (fuel : Nat) (ino : Inode) :
    Keeps (Reader.entryLoop image g name fuel ino) := by
  induction fuel generalizing ino with
  | zero => exact throw _
  | succ fuel ih => exact (nextDirEntry image g ino).bind fun _ => holds_ite (ih _) (pure _)

lemma nameListLoop (fuel : Nat) (back : Name) (names : List Name) (ino : Inode) (dir : DirEntry) :
    Keeps (Reader.nameListLoop image g fuel back names ino dir) := by
  induction names generalizing ino dir with
  | nil => exact pure _
  | cons name names ih =>
    exact (entryLoop image g name fuel ino).bind fun _ =>
      holds_ite (pure _) ((reads.fill image g _).bind fun _ => holds_ite (pure _) (ih _ _))

end Keeps

lemma Keeps.of_ok {x : Call α} {a : α} {w w' : World} (hx : Keeps x) (h : x.run w = .ok a w') :
    w.searched ⊆ w'.searched := by
  have hw := hx w
  rw [h] at hw
  exact hw

/-- A loop over names that returns has searched the inode it began with. -/
lemma mem_searched_of_nameListLoop {image : Image} {g : Globals} {fuel : Nat} {back name : Name}
    {names : List Name} {ino : Inode} {dir : DirEntry} {v : Int} {w w' : World}
    (h : (Reader.nameListLoop image g fuel back (name :: names) ino dir).run w = .ok v w') :
    ino.inode ∈ w'.searched := by
  obtain ⟨⟨found, ino'⟩, u, hloop, hrest⟩ := bind_ok h
  have hmem : ino.inode ∈ u.searched := by
    cases fuel with
    | zero => cases hloop
    | succ fuel =>
      obtain ⟨⟨entry, ino''⟩, u', hentry, hmore⟩ := bind_ok hloop
      obtain ⟨rest, hkeeps, heq⟩ := Keeps.nextDirEntry_eq image g ino
      rw [heq] at hentry
      obtain ⟨_, u'', hmodify, hread⟩ := bind_ok hentry
      cases hmodify
      have hfirst : ino.inode ∈ u'.searched := hkeeps.of_ok hread (List.mem_cons_self ..)
      refine Keeps.of_ok (holds_ite ?_ (.pure _)) hmore hfirst
      exact Keeps.entryLoop image g name fuel ino''
  refine Keeps.of_ok (holds_ite (.pure _) ?_) hrest hmem
  refine (Keeps.reads.fill image g _).bind fun _ => holds_ite (.pure _) ?_
  exact Keeps.nameListLoop image g fuel back names _ _

end TiPI.Ext2
