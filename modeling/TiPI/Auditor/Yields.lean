import TiPI.Auditor.Draws

/-!
# The values of a schema

What the generator takes a schema for: below the fifth level it answers with a text, and a `default`
is answered as it is. Where neither comes up, that is what matches the schema.
-/

namespace TiPI.Auditor

variable {keys : Keywords} {properties : List (String × Schema)} {items : Option Schema} {t : Ty}

/-! ### Values of one type -/

lemma Keywords.allows_of_has {v : Json} (ht : t ∈ keys.types) (hv : t.Has v) :
    keys.type.Allows v := by
  cases htype : keys.type with
  | absent => trivial
  | one t' =>
    rw [types, htype, List.mem_singleton] at ht
    rwa [ht] at hv
  | many ts =>
    rw [types, htype] at ht
    exact ⟨t, ht, hv⟩

/-- The length is one of those that are asked for. -/
def Keywords.InCounts (keys : Keywords) (n : Nat) : Prop :=
  (∀ k ∈ keys.minItems, k ≤ n) ∧ ∀ k ∈ keys.maxItems, n ≤ k

lemma Keywords.allows_iff {v : Json} (henum : keys.enum = none) (ht : t ∈ keys.types)
    (hv : t.Has v) :
    keys.Allows v ↔
      (∀ n, v = .num n → keys.InBounds n.val) ∧
      (∀ l, v = .arr l → keys.InCounts l.length) ∧
      ∀ fields, v = .obj fields → ∀ name ∈ keys.required, ∃ w, (name, w) ∈ fields := by
  constructor
  · intro h
    refine ⟨fun n hn => ⟨fun m hm => ?_, fun m hm => ?_⟩,
      fun l hl => ⟨fun k hk => ?_, fun k hk => ?_⟩, h.required⟩
    · exact h.minimum m n hm hn
    · exact h.maximum m n hm hn
    · exact h.minItems k l hk hl
    · exact h.maxItems k l hk hl
  · rintro ⟨hbounds, hcounts, hrequired⟩
    exact {
      type := keys.allows_of_has ht hv
      enum := by simp [henum]
      minimum := fun m n hm hn => (hbounds n hn).1 m hm
      maximum := fun m n hm hn => (hbounds n hn).2 m hm
      minItems := fun k l hk hl => (hcounts l hl).1 k hk
      maxItems := fun k l hk hl => (hcounts l hl).2 k hk
      required := hrequired }

/-- The keywords allow the value, and `R` holds of what is in it and the schemas for that. -/
def Keywords.Describes (keys : Keywords) (R : Schema → Json → Prop)
    (properties : List (String × Schema)) (items : Option Schema) (v : Json) : Prop :=
  keys.Allows v ∧ (∀ p ∈ properties, ∀ w, v.HasField p.1 w → R p.2 w) ∧
    ∀ s ∈ items, ∀ w, v.HasItem w → R s w

variable {R : Schema → Json → Prop}

lemma describes_obj {fields : List (String × Json)} (henum : keys.enum = none)
    (ht : .object ∈ keys.types) :
    keys.Describes R properties items (.obj fields) ↔
      (∀ name ∈ keys.required, ∃ w, (name, w) ∈ fields) ∧
        ∀ p ∈ properties, ∀ w, (p.1, w) ∈ fields → R p.2 w := by
  have hallows := keys.allows_iff (v := .obj fields) henum ht trivial
  simp [Keywords.Describes, Json.HasField, Json.HasItem, hallows]

lemma describes_arr {l : List Json} (henum : keys.enum = none) (ht : .array ∈ keys.types) :
    keys.Describes R properties items (.arr l) ↔
      keys.InCounts l.length ∧ ∀ w ∈ l, ∀ s ∈ items, R s w := by
  have hallows := keys.allows_iff (v := .arr l) henum ht trivial
  simp only [Keywords.Describes, hallows, Json.HasField, Json.HasItem, reduceCtorEq, Json.arr.injEq,
    exists_eq_left', false_and, exists_false, IsEmpty.forall_iff, implies_true,
    forall_eq', true_and,
    and_true]
  exact and_congr_right fun _ => ⟨fun h w hw s hs => h s hs w hw, fun h s hs w hw => h w hw s hs⟩

lemma describes_num {n : Num} (henum : keys.enum = none) (ht : t ∈ keys.types)
    (hn : t.Has (.num n)) :
    keys.Describes R properties items (.num n) ↔ keys.InBounds n.val := by
  have hallows := keys.allows_iff henum ht hn
  simp [Keywords.Describes, Json.HasField, Json.HasItem, hallows]

/-- Nothing but the type is asked of the other values. -/
lemma describes_of_has {v : Json} (henum : keys.enum = none) (ht : t ∈ keys.types) (hv : t.Has v)
    (hplain : t = .string ∨ t = .boolean ∨ t = .null) :
    keys.Describes R properties items v := by
  have hallows := keys.allows_iff henum ht hv
  have hshape : (∀ n, v ≠ .num n) ∧ (∀ l, v ≠ .arr l) ∧ ∀ fields, v ≠ .obj fields := by
    rcases hplain with rfl | rfl | rfl <;> cases v <;> simp_all [Ty.Has]
  simp [Keywords.Describes, Json.HasField, Json.HasItem, hallows, hshape]

/-! ### What the generator goes by -/

/-- Where the values for a schema come from. -/
inductive Origin
  | cutOff
  | enum (values : List Json)
  | default (v : Json)
  | types

def Keywords.origin (keys : Keywords) (depth : Nat) : Origin :=
  if 5 < depth then .cutOff
  else
    match keys.enum, keys.default with
    | some (v :: values), _ => .enum (v :: values)
    | _, none | _, some .null => .types
    | _, some v => .default v

/-- The value that `enum` and the rest of the schema ask for, by where it comes from. -/
def Origin.Yields (Matches Describes : Json → Prop) (v : Json) : Origin → Prop
  | .cutOff => v = .str "MAX_DEPTH_REACHED"
  | .enum _ => Matches v
  | .default w => v = w
  | .types => Describes v

mutual

/-- The value matches down to the fifth level, with texts below it, but where there is a `default`
and no `enum` it is that. -/
def Schema.Yields : Schema → (depth : Nat) → Json → Prop
  | .mk keys properties items, depth, v =>
    (keys.origin depth).Yields (Schema.mk keys properties items).Matches (fun v =>
      keys.Allows v ∧ PropertiesYield properties (depth + 1) v ∧ ItemsYield items (depth + 1) v) v
termination_by structural s => s

def PropertiesYield : List (String × Schema) → (depth : Nat) → Json → Prop
  | [], _, _ => True
  | (name, s) :: properties, depth, v =>
    (∀ w, v.HasField name w → s.Yields depth w) ∧ PropertiesYield properties depth v
termination_by structural properties => properties

def ItemsYield : Option Schema → (depth : Nat) → Json → Prop
  | none, _, _ => True
  | some s, depth, v => ∀ w, v.HasItem w → s.Yields depth w
termination_by structural items => items

end

def Origin.Shallow (Matches : Json → Prop) (below : Prop) : Origin → Prop
  | .cutOff => False
  | .enum _ => True
  | .default v => Matches v
  | .types => below

mutual

/-- There is nothing below the fifth level, and each `default` that counts matches. -/
def Schema.Shallow : Schema → (depth : Nat) → Prop
  | .mk keys properties items, depth =>
    (keys.origin depth).Shallow (Schema.mk keys properties items).Matches
      (PropertiesShallow properties (depth + 1) ∧ ItemsShallow items (depth + 1))
termination_by structural s => s

def PropertiesShallow : List (String × Schema) → (depth : Nat) → Prop
  | [], _ => True
  | (_, s) :: properties, depth => s.Shallow depth ∧ PropertiesShallow properties depth
termination_by structural properties => properties

def ItemsShallow : Option Schema → (depth : Nat) → Prop
  | none, _ => True
  | some s, depth => s.Shallow depth
termination_by structural items => items

end

mutual

/-- Then the value matches all the way down. -/
lemma Schema.Yields.matches : ∀ (s : Schema) (depth : Nat) (v : Json), s.Shallow depth →
    s.Yields depth v → s.Matches v
  | .mk keys properties items, depth, v, hshallow, hyields => by
    rw [Schema.Shallow] at hshallow
    rw [Schema.Yields] at hyields
    cases horigin : keys.origin depth with
    | cutOff =>
      rw [horigin] at hshallow
      exact hshallow.elim
    | enum values =>
      rw [horigin] at hyields
      exact hyields
    | default w =>
      rw [horigin] at hshallow hyields
      rw [Origin.Yields] at hyields
      rw [hyields]
      exact hshallow
    | types =>
      rw [horigin] at hshallow hyields
      obtain ⟨hallows, hproperties, hitems⟩ := hyields
      exact ⟨hallows, PropertiesYield.matches properties (depth + 1) v hshallow.1 hproperties,
        ItemsYield.matches items (depth + 1) v hshallow.2 hitems⟩

lemma PropertiesYield.matches : ∀ (properties : List (String × Schema)) (depth : Nat) (v : Json),
    PropertiesShallow properties depth → PropertiesYield properties depth v →
      PropertiesMatch properties v
  | [], _, _, _, _ => trivial
  | (_, s) :: properties, depth, v, hshallow, hyields =>
    ⟨fun w hw => Schema.Yields.matches s depth w hshallow.1 (hyields.1 w hw),
      PropertiesYield.matches properties depth v hshallow.2 hyields.2⟩

lemma ItemsYield.matches : ∀ (items : Option Schema) (depth : Nat) (v : Json),
    ItemsShallow items depth → ItemsYield items depth v → ItemsMatch items v
  | none, _, _, _, _ => trivial
  | some s, depth, _, hshallow, hyields =>
    fun w hw => Schema.Yields.matches s depth w hshallow (hyields w hw)

end

lemma propertiesYield_iff {depth : Nat} {v : Json} :
    PropertiesYield properties depth v ↔
      ∀ p ∈ properties, ∀ w, v.HasField p.1 w → p.2.Yields depth w := by
  induction properties with
  | nil => simp [PropertiesYield]
  | cons p properties ih => rw [PropertiesYield, ih, List.forall_mem_cons]

lemma itemsYield_iff {depth : Nat} {v : Json} :
    ItemsYield items depth v ↔ ∀ s ∈ items, ∀ w, v.HasItem w → s.Yields depth w := by
  cases items <;> simp [ItemsYield]

/-! ### Bounds that survive -/

/-- Over what it means for the properties and for the items. -/
def Keywords.TypeFits (keys : Keywords) (propertiesFit itemsFit : Prop) : Ty → Prop
  | .object => propertiesFit
  | .array => 0 < keys.maxItems' → itemsFit
  | .integer => keys.IntegersFit
  | .number => keys.NumbersFit
  | .string => True
  | .boolean => True
  | .null => True

def Origin.Fits (typesFit : Prop) : Origin → Prop
  | .types => typesFit
  | _ => True

mutual

/-- Wherever numbers are drawn, the ends of their range are within the bounds. -/
def Schema.Fits : Schema → (depth : Nat) → Prop
  | .mk keys properties items, depth =>
    (keys.origin depth).Fits (∀ t ∈ keys.types, keys.TypeFits (PropertiesFit properties (depth + 1))
      (ItemsFit items (depth + 1)) t)
termination_by structural s => s

def PropertiesFit : List (String × Schema) → (depth : Nat) → Prop
  | [], _ => True
  | (_, s) :: properties, depth => s.Fits depth ∧ PropertiesFit properties depth
termination_by structural properties => properties

def ItemsFit : Option Schema → (depth : Nat) → Prop
  | none, _ => True
  | some s, depth => s.Fits depth
termination_by structural items => items

end

end TiPI.Auditor
