import TiPI.Auditor.Yields
import Mathlib.Data.List.Dedup

/-!
# The outcomes of the generator

Whatever is chosen, the generator ends with a value that the schema yields, wherever the bounds of
numbers survive that `int` is taken of them, or that the draw is rounded to two decimals.
-/

namespace TiPI.Auditor

variable {lower : String → String} {keys : Keywords} {properties : List (String × Schema)}
  {items : Option Schema} {R : Schema → Json → Prop}

/-! ### Objects and arrays -/

variable {generators : List (String × GeneratorFunction)}

/-- There is a function for the property, and `R` holds of all its values. -/
def PropertyFits (R : Schema → Json → Prop) (generators : List (String × GeneratorFunction))
    (p : String × Schema) : Prop :=
  ∃ generator ∈ generators.lookup p.1, generator.Always (R p.2)

/-- `R` holds of the value of a field and the schema of its property. -/
def FieldMatches (R : Schema → Json → Prop) (properties : List (String × Schema))
    (f : String × Json) : Prop :=
  ∀ p ∈ properties, p.1 = f.1 → R p.2 f.2

lemma always_property {p : String × Schema} (hnodup : (properties.map Prod.fst).Nodup)
    (hp : p ∈ properties) :
    (property generators p.1).Always (FieldMatches R properties) ↔ PropertyFits R generators p := by
  have hfield : ∀ w, FieldMatches R properties (p.1, w) ↔ R p.2 w := by
    intro w
    constructor
    · intro h
      exact h p hp rfl
    · intro h q hq hqp
      rwa [List.inj_on_of_nodup_map hnodup hq hp hqp]
  rw [property, PropertyFits, Choice.always_bind]
  cases generators.lookup p.1 <;> simp [hfield]

lemma always_property_fst {name : String} (h : (property generators name).Safe) :
    (property generators name).Always fun f => f.1 = name := by
  rw [Choice.Safe, property, Choice.always_bind] at h
  rw [property, Choice.always_bind]
  exact h.imp fun _ _ => rfl

/-- The fields for some of the properties, all the required ones among them. -/
lemma always_fields {included : List String} (henum : keys.enum = none)
    (ht : .object ∈ keys.types) (hnodup : (properties.map Prod.fst).Nodup)
    (hrequired : keys.required ⊆ included) (hincluded : included ⊆ properties.map Prod.fst) :
    ((Choice.sequence (included.map (property generators))).Always fun fields =>
        keys.Describes R properties items (.obj fields)) ↔
      ∀ p ∈ properties, p.1 ∈ included → PropertyFits R generators p := by
  have hproperty :
    (∀ m ∈ included.map (property generators), m.Always (FieldMatches R properties)) ↔
      ∀ p ∈ properties, p.1 ∈ included → PropertyFits R generators p := by
    rw [List.forall_mem_map]
    constructor
    · intro h p hp hpi
      exact (always_property hnodup hp).1 (h p.1 hpi)
    · intro h name hname
      obtain ⟨p, hp, rfl⟩ := List.mem_map.1 (hincluded hname)
      exact (always_property hnodup hp).2 (h p hp hname)
  rw [← hproperty]
  constructor
  · intro h
    rw [← Choice.always_sequence_forall_mem]
    apply h.imp
    intro fields hfields f hf p hp hpf
    refine ((describes_obj henum ht).1 hfields).2 p hp f.2 ?_
    rwa [hpf]
  · intro h
    have hnames : (Choice.sequence (included.map (property generators))).Always
        fun fields => fields.map Prod.fst = included := by
      apply Choice.always_map_sequence
      intro name hname
      exact always_property_fst (h _ (List.mem_map_of_mem hname)).safe
    apply (Choice.always_and.2 ⟨hnames, Choice.always_sequence_forall_mem.2 h⟩).imp
    rintro fields ⟨hnames, hfields⟩
    refine (describes_obj henum ht).2 ⟨?_, fun p hp w hw => hfields (p.1, w) hw p hp rfl⟩
    intro name hname
    rw [← hnames] at hrequired
    obtain ⟨f, hf, rfl⟩ := List.mem_map.1 (hrequired hname)
    exact ⟨f.2, hf⟩

/-- Each optional property is drawn by itself some time. -/
lemma always_objectGenerator (henum : keys.enum = none) (ht : .object ∈ keys.types)
    (hvalid : keys.Valid (properties.map Prod.fst))
    (hnames : generators.map Prod.fst = properties.map Prod.fst) :
    (objectGenerator keys.required generators).Always (keys.Describes R properties items) ↔
      ∀ p ∈ properties, PropertyFits R generators p := by
  have hrequired : ∀ chosen, keys.required ⊆ (keys.required ++ chosen).dedup := by
    intro chosen name hname
    simp [hname]
  simp only [objectGenerator, Choice.always_bind', Choice.always_pure, hnames,
    always_randint (show (0 : ℤ) ≤ 2 by decide)]
  generalize hoptional : (properties.map Prod.fst).filter
    (fun name => decide (name ∉ keys.required)) =
    optional
  have hincluded : ∀ chosen, chosen ⊆ optional →
      (keys.required ++ chosen).dedup ⊆ properties.map Prod.fst := by
    intro chosen hchosen name hname
    simp only [List.mem_dedup, List.mem_append] at hname
    rcases hname with hname | hname
    · exact hvalid.required name hname
    · have hmem := hchosen hname
      rw [← hoptional] at hmem
      exact List.mem_of_mem_filter hmem
  constructor
  · intro h p hp
    by_cases hpr : p.1 ∈ keys.required
    · have hnone := h 0 le_rfl (by decide)
      simp only [Int.toNat_zero, Nat.min_zero, sample, Choice.always_ret] at hnone
      rw [always_fields henum ht hvalid.nodup (hrequired []) (hincluded [] (by simp))] at hnone
      exact hnone p hp (by simp [hpr])
    · have hpo : p.1 ∈ optional := by
        rw [← hoptional]
        simp [hpr, List.mem_map_of_mem hp]
      have hone := h 1 (by decide) (by decide)
      rw [show min optional.length (1 : ℤ).toNat = 1 from
        min_eq_right (List.length_pos_of_mem hpo),
        always_sample_one (List.ne_nil_of_mem hpo)] at hone
      have hfields := hone p.1 hpo
      rw [always_fields henum ht hvalid.nodup (hrequired _)
        (hincluded _ (by simp [hpo]))] at hfields
      exact hfields p hp (by simp)
  · intro h n _ _
    apply (always_sample_subset (Nat.min_le_left optional.length n.toNat)).imp
    intro chosen hchosen
    rw [always_fields henum ht hvalid.nodup (hrequired _) (hincluded _ hchosen)]
    intro p hp _
    exact h p hp

lemma always_arrayGenerator {item : GeneratorFunction} (henum : keys.enum = none)
    (ht : .array ∈ keys.types) (hcounts : keys.minItems' ≤ keys.maxItems') :
    (arrayGenerator item keys.minItems' keys.maxItems').Always
        (keys.Describes R properties items) ↔
      (0 < keys.maxItems' → item.Always fun w => ∀ s ∈ items, R s w) := by
  have hle : (keys.minItems' : ℤ) ≤ keys.maxItems' := Int.ofNat_le.2 hcounts
  have hitems : ∀ n, ((Choice.sequence (List.replicate n item)).Always fun l =>
      ∀ w ∈ l, ∀ s ∈ items, R s w) ↔ (0 < n → item.Always fun w => ∀ s ∈ items, R s w) := by
    intro n
    rw [Choice.always_sequence_forall_mem]
    simp [List.mem_replicate, Nat.pos_iff_ne_zero]
  simp only [arrayGenerator, Choice.always_bind', Choice.always_pure, always_randint hle,
    describes_arr henum ht]
  constructor
  · intro h hpos
    have hmax := h keys.maxItems' hle le_rfl
    rw [Int.toNat_natCast] at hmax
    exact (hitems _).1 (hmax.imp fun _ => And.right) hpos
  · intro h n hn hn'
    have hmatch := (hitems n.toNat).2 fun hpos => h (by omega)
    have hlength := Choice.always_length_sequence (Choice.safe_sequence.1 hmatch.safe)
    apply (Choice.always_and.2 ⟨hlength, hmatch⟩).imp
    rintro l ⟨hl, hw⟩
    rw [List.length_replicate] at hl
    refine ⟨⟨fun k hk => ?_, fun k hk => ?_⟩, hw⟩
    · have hk' : keys.minItems' = k := by rw [Keywords.minItems', hk, Option.getD_some]
      omega
    · have hk' : keys.maxItems' = k := by rw [Keywords.maxItems', hk, Option.getD_some]
      omega

/-! ### One schema over its subschemas -/

variable {properties' : Choice (List (String × GeneratorFunction))}
  {items' : Choice GeneratorFunction} {depth : Nat}

/-- What the schema compiles to, by where the values come from. -/
def Origin.compile (types : Choice GeneratorFunction) : Origin → Choice GeneratorFunction
  | .cutOff => .ret (.ret (.str "MAX_DEPTH_REACHED"))
  | .enum values => .ret (choice values)
  | .default v => .ret (.ret v)
  | .types => types

lemma compileKeywords_eq : compileKeywords lower depth keys properties' items' =
    (keys.origin depth).compile
      ((choice keys.types).bind (compileType lower keys properties' items')) := by
  unfold compileKeywords Keywords.origin
  split
  · rfl
  · rcases keys.enum with _ | _ | ⟨v, values⟩ <;>
      rcases keys.default with _ | _ | _ | _ | _ | _ | _ <;> rfl

lemma enum_of_origin {values : List Json} (h : keys.origin depth = .enum values) :
    values ≠ [] ∧ keys.enum = some values := by
  unfold Keywords.origin at h
  split at h
  · cases h
  · split at h <;> cases h
    next henum => exact ⟨by simp, henum⟩

lemma enum_of_types (h : keys.origin depth = .types) (hne : keys.enum ≠ some []) :
    keys.enum = none := by
  unfold Keywords.origin at h
  cases henum : keys.enum with
  | none => rfl
  | some values =>
    cases values with
    | nil => exact absurd henum hne
    | cons v values =>
      rw [henum] at h
      split at h <;> cases h

lemma safe_generateRandomEmail : generateRandomEmail.Safe := by
  simp only [Choice.Safe, generateRandomEmail, Choice.always_bind', Choice.always_pure,
    always_randint (show (2 : ℤ) ≤ 7 by decide)]
  intro n _ _
  exact (always_sample_subset (Nat.min_le_right _ _)).safe

lemma safe_mockDatetime : mockDatetime.Safe := by
  simp only [Choice.Safe, mockDatetime, Choice.always_bind',
    always_randint (show (1 : ℤ) ≤ 12 by decide)]
  intro month _ _
  split_ifs <;>
    simp [always_randint (show (1 : ℤ) ≤ 28 by decide),
      always_randint (show (1 : ℤ) ≤ 30 by decide),
      always_randint (show (1 : ℤ) ≤ 31 by decide), always_randint (show (0 : ℤ) ≤ 23 by decide),
      always_randint (show (0 : ℤ) ≤ 59 by decide)]

lemma safe_mockDatetimeExpanded : mockDatetimeExpanded.Safe := by
  simp only [Choice.Safe, mockDatetimeExpanded, Choice.always_bind', Choice.always_pure,
    always_randint (show (0 : ℤ) ≤ 99999 by decide)]
  exact safe_mockDatetime.imp fun _ _ _ _ _ => trivial

lemma safe_stringGenerator : (stringGenerator lower keys).Always Choice.Safe := by
  unfold stringGenerator
  split
  · simp [Choice.Safe, uuid4]
  · exact safe_generateRandomEmail
  · simp only [Choice.always_bind, Choice.always_ret, always_randint (show (0 : ℤ) ≤ 1 by decide)]
    intro i _ _
    split
    · exact safe_mockDatetimeExpanded
    · exact safe_mockDatetime
  · trivial
  · trivial
  · trivial

lemma safe_compileType {t : Ty} (hproperties : properties'.Safe)
    (hitems : t = .array → items'.Safe) :
    (compileType lower keys properties' items' t).Safe := by
  cases t with
  | object => simpa [Choice.Safe, compileType] using hproperties
  | array => simpa [Choice.Safe, compileType] using hitems rfl
  | string =>
    rw [Choice.Safe, compileType, Choice.always_bind]
    exact safe_stringGenerator.safe
  | number => trivial
  | integer => trivial
  | boolean => trivial
  | null => trivial

lemma safe_compileKeywords (htypes : keys.types ≠ []) (hproperties : properties'.Safe)
    (hitems : .array ∈ keys.types → items'.Safe) :
    (compileKeywords lower depth keys properties' items').Safe := by
  rw [compileKeywords_eq]
  cases keys.origin depth with
  | cutOff => trivial
  | enum values => trivial
  | default v => trivial
  | types =>
    rw [Choice.Safe, Origin.compile, Choice.always_bind, always_choice htypes]
    intro t ht
    apply safe_compileType hproperties
    rintro rfl
    exact hitems ht

lemma always_compileType {t : Ty} (hvalid : keys.Valid (properties.map Prod.fst))
    (henum : keys.enum = none) (ht : t ∈ keys.types)
    (hproperties : properties'.Always fun generators =>
      generators.map Prod.fst = properties.map Prod.fst)
    (hitems : t = .array → items'.Safe) :
    ((compileType lower keys properties' items' t).Always fun generator =>
        generator.Always (keys.Describes R properties items)) ↔
      keys.TypeFits
        (properties'.Always fun generators => ∀ p ∈ properties, PropertyFits R generators p)
        (items'.Always fun item => item.Always fun w => ∀ s ∈ items, R s w) t := by
  cases t with
  | object =>
    simp only [compileType, Choice.always_bind, Choice.always_ret, Keywords.TypeFits]
    constructor
    · intro h
      apply (Choice.always_and.2 ⟨hproperties, h⟩).imp
      rintro generators ⟨hnames, hmatch⟩
      exact (always_objectGenerator henum ht hvalid hnames).1 hmatch
    · intro h
      apply (Choice.always_and.2 ⟨hproperties, h⟩).imp
      rintro generators ⟨hnames, hfits⟩
      exact (always_objectGenerator henum ht hvalid hnames).2 hfits
  | array =>
    simp only [compileType, Choice.always_bind, Choice.always_ret, Keywords.TypeFits,
      always_arrayGenerator henum ht (hvalid.counts ht)]
    by_cases hpos : 0 < keys.maxItems'
    · simp [hpos]
    · simpa [hpos, Choice.Safe] using hitems rfl
  | string =>
    simp only [compileType, Choice.always_bind, Choice.always_ret, Keywords.TypeFits, iff_true]
    apply safe_stringGenerator.imp
    intro text htext
    exact htext.imp fun s _ => describes_of_has henum ht trivial (.inl rfl)
  | number =>
    simp only [compileType, Choice.always_ret, Keywords.TypeFits]
    exact always_numberGenerator fun x => describes_num henum ht trivial
  | integer =>
    simp only [compileType, Choice.always_ret, Keywords.TypeFits]
    apply always_integerGenerator (hvalid.bounds (.inl ht))
    intro n
    exact describes_num (n := .int n) henum ht (Rat.den_intCast n)
  | boolean =>
    simp only [compileType, Choice.always_ret, Keywords.TypeFits, iff_true]
    rw [always_choice (by simp)]
    intro v hv
    simp only [List.mem_cons, List.not_mem_nil, or_false] at hv
    rcases hv with rfl | rfl <;> exact describes_of_has henum ht trivial (.inr (.inl rfl))
  | null =>
    simp only [compileType, Choice.always_ret, Keywords.TypeFits, iff_true]
    exact describes_of_has henum ht trivial (.inr (.inr rfl))

lemma always_compileKeywords {Matches : Json → Prop} (hvalid : keys.Valid (properties.map Prod.fst))
    (henum : ∀ values, keys.enum = some values → values ≠ [] ∧ ∀ v ∈ values, Matches v)
    (hproperties : properties'.Always fun generators =>
      generators.map Prod.fst = properties.map Prod.fst)
    (hitems : .array ∈ keys.types → items'.Safe) :
    ((compileKeywords lower depth keys properties' items').Always fun generator =>
        generator.Always fun v =>
          (keys.origin depth).Yields Matches (keys.Describes R properties items) v) ↔
      (keys.origin depth).Fits (∀ t ∈ keys.types, keys.TypeFits
        (properties'.Always fun generators => ∀ p ∈ properties, PropertyFits R generators p)
        (items'.Always fun item => item.Always fun w => ∀ s ∈ items, R s w) t) := by
  rw [compileKeywords_eq]
  cases horigin : keys.origin depth with
  | cutOff => simp [Origin.compile, Origin.Yields, Origin.Fits]
  | enum values =>
    obtain ⟨hne, hvalues⟩ := enum_of_origin horigin
    simp only [Origin.compile, Choice.always_ret, Origin.Yields, Origin.Fits, iff_true]
    exact (always_choice hne).2 (henum values hvalues).2
  | default v => simp [Origin.compile, Origin.Yields, Origin.Fits]
  | types =>
    have hnone := enum_of_types horigin fun hnil => (henum [] hnil).1 rfl
    simp only [Origin.compile, Choice.always_bind, always_choice hvalid.types, Origin.Yields,
      Origin.Fits]
    refine forall_congr' fun t => forall_congr' fun ht => ?_
    apply always_compileType hvalid hnone ht hproperties
    rintro rfl
    exact hitems ht

/-! ### `compile_schema` -/

lemma valid_empty : Keywords.empty.Valid [] where
  types := by decide
  nodup := List.nodup_nil
  required := by simp [Keywords.empty]
  bounds := by simp [Keywords.empty, Keywords.types]
  counts := by simp [Keywords.empty, Keywords.types]

mutual

/-- The schema compiles, whatever is chosen. -/
lemma safe_compileSchema :
    ∀ (s : Schema) (depth : Nat), s.Valid → (compileSchema lower s depth).Safe
  | .mk keys properties items, depth, h => by
    rw [Schema.Valid] at h
    obtain ⟨hkeys, -, hproperties, hitems⟩ := h
    rw [compileSchema]
    apply safe_compileKeywords hkeys.types
    · exact (always_compileProperties_fst properties (depth + 1) hproperties).safe
    · exact fun _ => safe_compileItems items (depth + 1) hitems

lemma always_compileProperties_fst :
    ∀ (properties : List (String × Schema)) (depth : Nat), PropertiesValid properties →
      (compileProperties lower properties depth).Always fun generators =>
        generators.map Prod.fst = properties.map Prod.fst
  | [], depth, h => rfl
  | (name, s) :: properties, depth, h => by
    rw [PropertiesValid] at h
    simp only [compileProperties, Choice.always_bind, Choice.always_ret, List.map_cons]
    apply (safe_compileSchema s depth h.1).imp
    intro generator _
    apply (always_compileProperties_fst properties depth h.2).imp
    intro generators hnames
    rw [hnames]

lemma safe_compileItems : ∀ (items : Option Schema) (depth : Nat), ItemsValid items →
    (compileItems lower items depth).Safe
  | none, depth, h => by
    rw [compileItems]
    apply safe_compileKeywords valid_empty.types
    · trivial
    · simp [Keywords.empty, Keywords.types]
  | some s, depth, h => by
    rw [compileItems]
    exact safe_compileSchema s depth h

end

lemma always_empty : (compileKeywords lower depth .empty (.ret []) .fail).Always Choice.Safe := by
  have hiff : ((compileKeywords lower depth .empty (.ret []) .fail).Always fun generator =>
      generator.Always fun v => (Keywords.empty.origin depth).Yields (fun _ => True)
        (Keywords.empty.Describes (fun _ _ => True) [] none) v) ↔ _ :=
    always_compileKeywords valid_empty (by simp [Keywords.empty]) rfl
      (by simp [Keywords.empty, Keywords.types])
  have hempty := hiff.2 (by
    cases Keywords.empty.origin depth <;>
      simp [Origin.Fits, Keywords.empty, Keywords.types, Keywords.TypeFits])
  exact hempty.imp fun generator hgenerator => hgenerator.safe

mutual

/-- All values are what the generator goes by, precisely if the bounds survive. -/
lemma always_compileSchema : ∀ (s : Schema) (depth : Nat), s.Valid →
    (((compileSchema lower s depth).Always fun generator => generator.Always (s.Yields depth)) ↔
      s.Fits depth)
  | .mk keys properties items, depth, h => by
    rw [Schema.Valid] at h
    obtain ⟨hkeys, henum, hproperties, hitems⟩ := h
    have hdescribes : (fun v => keys.Allows v ∧ PropertiesYield properties (depth + 1) v ∧
        ItemsYield items (depth + 1) v) =
        keys.Describes (fun s => s.Yields (depth + 1)) properties items := by
      funext v
      rw [propertiesYield_iff, itemsYield_iff]
      rfl
    have hyields : (Schema.mk keys properties items).Yields depth = fun v =>
        (keys.origin depth).Yields (Schema.mk keys properties items).Matches
          (keys.Describes (fun s => s.Yields (depth + 1)) properties items) v := by
      funext v
      rw [Schema.Yields, hdescribes]
    rw [compileSchema, Schema.Fits,
      ← always_compileProperties properties (depth + 1) hproperties hkeys.nodup,
      ← always_compileItems items (depth + 1) hitems, hyields]
    apply always_compileKeywords hkeys henum
    · exact always_compileProperties_fst properties (depth + 1) hproperties
    · exact fun _ => safe_compileItems items (depth + 1) hitems

lemma always_compileProperties :
    ∀ (properties : List (String × Schema)) (depth : Nat), PropertiesValid properties →
      (properties.map Prod.fst).Nodup →
      (((compileProperties lower properties depth).Always fun generators =>
        ∀ p ∈ properties, PropertyFits (fun s => s.Yields depth) generators p) ↔
          PropertiesFit properties depth)
  | [], depth, h, hnodup => by simp [compileProperties, PropertiesFit]
  | (name, s) :: properties, depth, h, hnodup => by
    rw [PropertiesValid] at h
    rw [List.map_cons, List.nodup_cons] at hnodup
    have hcons : ∀ generator generators,
        (∀ p ∈ (name, s) :: properties,
          PropertyFits (fun s => s.Yields depth) ((name, generator) :: generators) p) ↔
        generator.Always (s.Yields depth) ∧
          ∀ p ∈ properties, PropertyFits (fun s => s.Yields depth) generators p := by
      intro generator generators
      rw [List.forall_mem_cons]
      refine and_congr (by simp [PropertyFits]) (forall_congr' fun p => forall_congr' fun hp => ?_)
      have hne : p.1 ≠ name := by
        rintro rfl
        exact hnodup.1 (List.mem_map.2 ⟨p, hp, rfl⟩)
      rw [PropertyFits, PropertyFits, List.lookup_cons, beq_false_of_ne hne]
    simp only [compileProperties, Choice.always_bind, Choice.always_ret, hcons,
      Choice.always_const_and, Choice.always_and_const, PropertiesFit]
    rw [always_compileSchema s depth h.1, always_compileProperties properties depth h.2 hnodup.2]

lemma always_compileItems : ∀ (items : Option Schema) (depth : Nat), ItemsValid items →
    (((compileItems lower items depth).Always fun item =>
      item.Always fun w => ∀ s ∈ items, s.Yields depth w) ↔ ItemsFit items depth)
  | none, depth, h => by
    rw [compileItems, ItemsFit, iff_true]
    apply always_empty.imp
    intro item hitem
    exact hitem.imp fun w _ => by simp
  | some s, depth, h => by
    rw [compileItems, ItemsFit, ← always_compileSchema s depth h]
    simp

end

/-- Every outcome of `compile_schema(schema)()` is a value: one that matches the schema down to the
fifth level, and altogether where there is nothing below that and the defaults match. -/
theorem compileSchema_yields (lower : String → String) (s : Schema) (hvalid : s.Valid)
    (hfits : s.Fits 0) :
    (compileSchema lower s 0).Always fun generator => generator.Always fun v =>
      s.Yields 0 v ∧ (s.Shallow 0 → s.Matches v) := by
  apply ((always_compileSchema s 0 hvalid).2 hfits).imp
  intro generator hgenerator
  apply hgenerator.imp
  intro v hv
  exact ⟨hv, fun hshallow => Schema.Yields.matches s 0 v hshallow hv⟩

/-- The schema `{"type": t}`. -/
def Schema.ofType (t : Ty) : Schema := .mk { Keywords.empty with type := .one t } [] none

/-- Arrays of arrays, and so on, with values of a schema in the last ones. -/
def Schema.nested (s : Schema) : Nat → Schema
  | 0 => s
  | n + 1 => .mk { Keywords.empty with type := .one .array } [] (some (s.nested n))

/-- `{"type": ["object", "null"], "properties": {"ratio": {"type": "number", "maximum": 1},
"tags": {"type": "array"}}, "required": ["ratio"]}` with four levels of arrays around strings. -/
def measurement : Schema :=
  .mk { Keywords.empty with type := .many [.object, .null], required := ["ratio"] }
    [("ratio", .mk { Keywords.empty with type := .one .number, maximum := some (.int 1) } [] none),
      ("tags", (Schema.ofType .string).nested 4)] none

lemma valid_ofType (t : Ty) : (Schema.ofType t).Valid := by
  refine ⟨⟨?_, ?_, ?_, ?_, ?_⟩, ?_, trivial, trivial⟩ <;>
    simp [Keywords.empty, Keywords.types, Keywords.minimum', Keywords.maximum', Keywords.minItems',
      Keywords.maxItems', Num.val]

lemma valid_nested {s : Schema} (h : s.Valid) (n : Nat) : (s.nested n).Valid := by
  induction n with
  | zero => exact h
  | succ n ih =>
    refine ⟨⟨?_, ?_, ?_, ?_, ?_⟩, ?_, trivial, ih⟩ <;>
      simp [Keywords.empty, Keywords.types, Keywords.minItems', Keywords.maxItems']

lemma valid_measurement : measurement.Valid := by
  refine ⟨⟨?_, ?_, ?_, ?_, ?_⟩, ?_, ⟨⟨⟨?_, ?_, ?_, ?_, ?_⟩, ?_, trivial, trivial⟩,
    valid_nested (valid_ofType .string) 4, trivial⟩, trivial⟩ <;>
    simp [Keywords.empty, Keywords.types, Keywords.minimum', Keywords.maximum', Num.val]

/-- The first draw is `0.0`, the last one is rounded to `1.0`. -/
lemma fits_measurement : measurement.Fits 0 := by
  have hratio : ({ Keywords.empty with type := .one .number, maximum := some (.int 1) } :
      Keywords).NumbersFit := by
    intro u hu
    simp only [List.mem_cons, List.not_mem_nil, or_false] at hu
    rcases hu with rfl | rfl
    · exact ⟨0, by decide +kernel, by simp [Keywords.InBounds, Keywords.empty, Num.val]⟩
    · exact ⟨1, by decide +kernel, by simp [Keywords.InBounds, Keywords.empty, Num.val]⟩
  simpa [measurement, Schema.Fits, PropertiesFit, ItemsFit, Origin.Fits, Keywords.origin,
    Keywords.empty, Keywords.types, Keywords.TypeFits, Schema.nested, Schema.ofType] using hratio

theorem measurement_yields :
    measurement.Valid ∧ measurement.Fits 0 ∧
      (compileSchema String.toLower measurement 0).Always fun generator => generator.Always fun v =>
        measurement.Yields 0 v ∧ (measurement.Shallow 0 → measurement.Matches v) :=
  ⟨valid_measurement, fits_measurement,
    compileSchema_yields String.toLower measurement valid_measurement fits_measurement⟩

def Json.nested (v : Json) : Nat → Json
  | 0 => v
  | n + 1 => .arr [v.nested n]

lemma matches_of_nested {s : Schema} {v : Json} {n : Nat} (h : (s.nested n).Matches (v.nested n)) :
    s.Matches v := by
  induction n with
  | zero => exact h
  | succ n ih =>
    obtain ⟨-, -, hitems⟩ := h
    exact ih (hitems (v.nested n) ⟨[v.nested n], rfl, List.mem_singleton_self _⟩)

/-- Six levels of arrays around `null`: with the first choice each time there is a text in the last
array. -/
theorem nested_null_not_matches :
    ((Schema.ofType .null).nested 6).Valid ∧
      ((compileSchema String.toLower ((Schema.ofType .null).nested 6) 0).run
        [0, 0, 0, 0, 0, 0]).bind
          (·.run [0, 0, 0, 0, 0, 0]) = some ((Json.str "MAX_DEPTH_REACHED").nested 6) ∧
      ¬ (compileSchema String.toLower ((Schema.ofType .null).nested 6) 0).Always fun generator =>
        generator.Always ((Schema.ofType .null).nested 6).Matches := by
  have hrun : ((compileSchema String.toLower ((Schema.ofType .null).nested 6) 0).run
      [0, 0, 0, 0, 0, 0]).bind (·.run [0, 0, 0, 0, 0, 0]) =
      some ((Json.str "MAX_DEPTH_REACHED").nested 6) := rfl
  refine ⟨valid_nested (valid_ofType .null) 6, hrun, ?_⟩
  intro h
  obtain ⟨generator, hgenerator, hv⟩ := Option.bind_eq_some_iff.1 hrun
  have hmatch := matches_of_nested ((h.of_run hgenerator).of_run hv)
  exact hmatch.1.type

end TiPI.Auditor
