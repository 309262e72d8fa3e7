import Mathlib.Data.Rat.Defs
import Mathlib.Data.List.Nodup
import Mathlib.Algebra.Order.Ring.Unbundled.Rat

/-!
# Schemas and the values that match them

JSON values, the keywords of a schema that the generator reads, and what it means that a value
matches a schema. `format` and `title` say nothing about that.
-/

namespace TiPI.Auditor

/-- A number of Python: an `int` or a `float`, the latter by its value. -/
inductive Num
  | int (n : ℤ)
  | float (x : ℚ)
  deriving DecidableEq

def Num.val : Num → ℚ
  | .int n => n
  | .float x => x

inductive Json
  | null
  | bool (b : Bool)
  | num (n : Num)
  | str (s : String)
  | arr (items : List Json)
  | obj (fields : List (String × Json))

inductive Ty
  | object
  | array
  | string
  | number
  | integer
  | boolean
  | null
  deriving DecidableEq, Repr

/-- The keyword `type`. -/
inductive TypeKeyword
  | absent
  | one (t : Ty)
  | many (ts : List Ty)

/-- The keywords of a schema but for its subschemas. -/
structure Keywords where
  type : TypeKeyword
  default : Option Json
  enum : Option (List Json)
  required : List String
  minItems : Option Nat
  maxItems : Option Nat
  format : Option String
  title : Option String
  minimum : Option Num
  maximum : Option Num

inductive Schema
  | mk (keys : Keywords) (properties : List (String × Schema)) (items : Option Schema)

/-- The keywords of `{}`. -/
def Keywords.empty : Keywords := ⟨.absent, none, none, [], none, none, none, none, none, none⟩

/-- The values of a type. A number without a fraction is an integer. -/
def Ty.Has : Ty → Json → Prop
  | .object, .obj _ => True
  | .array, .arr _ => True
  | .string, .str _ => True
  | .number, .num _ => True
  | .integer, .num n => n.val.den = 1
  | .boolean, .bool _ => True
  | .null, .null => True
  | _, _ => False

def TypeKeyword.Allows : TypeKeyword → Json → Prop
  | .absent, _ => True
  | .one t, v => t.Has v
  | .many ts, v => ∃ t ∈ ts, t.Has v

/-- The property `name` of `v` is `w`. -/
def Json.HasField (v : Json) (name : String) (w : Json) : Prop :=
  ∃ fields, v = .obj fields ∧ (name, w) ∈ fields

def Json.HasItem (v w : Json) : Prop := ∃ items, v = .arr items ∧ w ∈ items

/-- What the keywords ask of a value. -/
structure Keywords.Allows (keys : Keywords) (v : Json) : Prop where
  type : keys.type.Allows v
  enum : ∀ values, keys.enum = some values → v ∈ values
  minimum : ∀ m n, keys.minimum = some m → v = .num n → m.val ≤ n.val
  maximum : ∀ m n, keys.maximum = some m → v = .num n → n.val ≤ m.val
  minItems : ∀ k items, keys.minItems = some k → v = .arr items → k ≤ items.length
  maxItems : ∀ k items, keys.maxItems = some k → v = .arr items → items.length ≤ k
  required : ∀ fields, v = .obj fields → ∀ name ∈ keys.required, ∃ w, (name, w) ∈ fields

mutual

def Schema.Matches : Schema → Json → Prop
  | .mk keys properties items, v =>
    keys.Allows v ∧ PropertiesMatch properties v ∧ ItemsMatch items v
termination_by structural s => s

def PropertiesMatch : List (String × Schema) → Json → Prop
  | [], _ => True
  | (name, s) :: properties, v =>
    (∀ w, v.HasField name w → s.Matches w) ∧ PropertiesMatch properties v
termination_by structural properties => properties

def ItemsMatch : Option Schema → Json → Prop
  | none, _ => True
  | some s, v => ∀ w, v.HasItem w → s.Matches w
termination_by structural items => items

end

/-! ### Schemas to generate from -/

namespace Keywords

variable (keys : Keywords)

/-- The types that values are generated of. -/
def types : List Ty :=
  match keys.type with
  | .absent => [.object]
  | .one t => [t]
  | .many ts => ts

def minimum' : Num := keys.minimum.getD (.int 0)

def maximum' : Num := keys.maximum.getD (.int 100)

def minItems' : Nat := keys.minItems.getD 1

def maxItems' : Nat := keys.maxItems.getD (keys.minItems' + 2)

/-- Some type is given, the required properties are among the properties, and the bounds and the
counts that matter are in order. -/
structure Valid (names : List String) : Prop where
  types : keys.types ≠ []
  nodup : names.Nodup
  required : ∀ name ∈ keys.required, name ∈ names
  bounds : .integer ∈ keys.types ∨ .number ∈ keys.types → keys.minimum'.val ≤ keys.maximum'.val
  counts : .array ∈ keys.types → keys.minItems' ≤ keys.maxItems'

end Keywords

mutual

/-- A schema of objects, arrays and the primitive types whose enums are not empty and match it. -/
def Schema.Valid : Schema → Prop
  | .mk keys properties items =>
    keys.Valid (properties.map Prod.fst) ∧
    (∀ values, keys.enum = some values →
      values ≠ [] ∧ ∀ v ∈ values, (Schema.mk keys properties items).Matches v) ∧
    PropertiesValid properties ∧ ItemsValid items
termination_by structural s => s

def PropertiesValid : List (String × Schema) → Prop
  | [] => True
  | (_, s) :: properties => s.Valid ∧ PropertiesValid properties
termination_by structural properties => properties

def ItemsValid : Option Schema → Prop
  | none => True
  | some s => s.Valid
termination_by structural items => items

end

end TiPI.Auditor
