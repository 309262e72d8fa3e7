import TiPI.Auditor.Schema
import TiPI.Lib.Binary64
import TiPI.Lib.Choice

/-!
# The generator of JSON values

`compile_schema` turns a schema into a function that makes values. Random choices are made while the
schema is compiled, and again each time the function is called; exceptions are failures.
-/

namespace TiPI.Auditor

/-- The closures that `compile_schema` returns. -/
abbrev GeneratorFunction := Choice Json

/-! ### `random` -/

def randint (lo hi : ℤ) : Choice ℤ :=
  if lo ≤ hi then (Choice.upTo (hi - lo).toNat).bind fun (i : Nat) => .ret (lo + i) else .fail

def choice {α : Type} (l : List α) : Choice α :=
  (Choice.upTo (l.length - 1)).bind fun i => (l[i]?).elim .fail .ret

/-- `n` elements of `l` at different places, in any order. -/
def sample {α : Type} : List α → Nat → Choice (List α)
  | _, 0 => .ret []
  | l, n + 1 =>
    (Choice.upTo (l.length - 1)).bind fun i =>
      (l[i]?).elim .fail fun a => (sample (l.eraseIdx i) n).bind fun as => .ret (a :: as)

/-- `random()`. -/
def random : Choice ℚ := (Choice.upTo (2 ^ 53 - 1)).bind fun i => .ret (i / 2 ^ 53)

/-- `float(x)`. -/
def Num.toFloat : Num → Option ℚ
  | .int n => binary64 n
  | .float x => some x

/-- `b - a` where it meets a `float` next: the difference of two `int`s is exact. -/
def difference : Num → Num → Option ℚ
  | .int b, .int a => binary64 (b - a)
  | b, a => do binary64 ((← b.toFloat) - (← a.toFloat))

/-- `a + (b - a) * u`; `none` is a result that is not finite, or the `OverflowError` of an `int`. -/
def uniform (a b : Num) (u : ℚ) : Option ℚ := do
  let product ← binary64 ((← difference b a) * u)
  binary64 ((← a.toFloat) + product)

/-- `round(x, 2)`. -/
def round2 (x : ℚ) : Option ℚ := binary64 (halfEven (x * 100) / 100)

/-- `int(x)`. -/
def Num.toInt : Num → ℤ
  | .int n => n
  | .float x => if 0 ≤ x then ⌊x⌋ else ⌈x⌉

/-! ### Strings -/

def MOCK_WORDS : List String := [
  "alpha", "beta", "gama", "delta", "eps", "zeta", "eta", "thta", "iota", "kapp",
  "lambd", "mu", "nu", "xi", "omcr", "pi", "rho", "sgma", "tau", "ups",
  "phi", "chi", "psi", "omeg", "data", "test", "mock", "temp", "user", "log",
  "app", "sys", "proc", "rec", "idx", "key", "val", "run", "dev", "prod",
  "auth", "sec", "cfg", "meta", "blob", "root", "admin", "main", "core", "node"]

def generateRandomEmail : Choice String := do
  let numParts ← randint 2 7
  let parts ← sample MOCK_WORDS (min numParts.toNat MOCK_WORDS.length)
  return String.join parts ++ "@google.com"

/-- A number with leading zeros up to `width` digits. -/
def padded (width : Nat) (n : ℤ) : String :=
  let digits := toString n.toNat
  String.ofList (List.replicate (width - digits.length) '0') ++ digits

def mockDatetime : Choice String := do
  let month ← randint 1 12
  let day ← if month = 2 then randint 1 28
    else if month = 4 ∨ month = 7 ∨ month = 9 ∨ month = 11 then randint 1 30
    else randint 1 31
  let hour ← randint 0 23
  let minute ← randint 0 59
  let second ← randint 0 59
  return "2025-" ++ padded 2 month ++ "-" ++ padded 2 day ++ "T" ++ padded 2 hour ++ ":" ++
    padded 2 minute ++ ":" ++ padded 2 second

def mockDatetimeExpanded : Choice String := do
  let datetime ← mockDatetime
  let micros ← randint 0 99999
  return datetime ++ ":" ++ padded 5 micros

/-- `str(uuid.uuid4())`: 32 digits to the base 16, two of them set by version and variant. -/
def uuid4 : Choice String := do
  let bits ← Choice.upTo (2 ^ 128 - 1)
  let digit (i : Nat) : Nat := bits / 16 ^ (31 - i) % 16
  let digits := (List.range 32).map fun i =>
    Nat.digitChar (if i = 12 then 4 else if i = 16 then 8 + digit i % 4 else digit i)
  let part (lo hi : Nat) := String.ofList ((digits.take hi).drop lo)
  return part 0 8 ++ "-" ++ part 8 12 ++ "-" ++ part 12 16 ++ "-" ++ part 16 20 ++ "-" ++ part 20 32

variable (lower : String → String)

/-- The functions for strings; `lower` is `str.lower`. -/
def stringGenerator (keys : Keywords) : Choice (Choice String) :=
  match keys.format with
  | some "uuid" => .ret uuid4
  | some "email" => .ret generateRandomEmail
  | some "date-time" => (randint 0 1).bind fun i =>
    .ret (if i = 0 then mockDatetimeExpanded else mockDatetime)
  | some "date" => .ret (.ret "2024-05-20")
  | some "uri" => .ret (.ret "https://api.example.com/resource/123")
  | _ => .ret (.ret (lower ((keys.title.getD "string_placeholder").replace " " "_")))

/-! ### Objects and arrays -/

/-- `prop_generators[prop_name]()`; a `KeyError` is a failure. -/
def property (generators : List (String × GeneratorFunction)) (name : String) :
    Choice (String × Json) :=
  ((generators.lookup name).getD .fail).bind fun v => .ret (name, v)

/-- The order in which a set yields its elements is left open, as is the order of the fields. -/
def objectGenerator (required : List String) (generators : List (String × GeneratorFunction)) :
    GeneratorFunction := do
  let optionalKeys := (generators.map Prod.fst).filter (· ∉ required)
  let numOptional ← randint 0 2
  let chosen ← sample optionalKeys (min optionalKeys.length numOptional.toNat)
  let keysToInclude := (required ++ chosen).dedup
  let fields ← Choice.sequence (keysToInclude.map (property generators))
  return .obj fields

def arrayGenerator (item : GeneratorFunction) (minItems maxItems : Nat) : GeneratorFunction := do
  let numItems ← randint minItems maxItems
  let items ← Choice.sequence (List.replicate numItems.toNat item)
  return .arr items

def integerGenerator (minimum maximum : Num) : GeneratorFunction :=
  (randint minimum.toInt maximum.toInt).bind fun n => .ret (.num (.int n))

def numberGenerator (minimum maximum : Num) : GeneratorFunction :=
  random.bind fun u =>
    ((uniform minimum maximum u).bind round2).elim .fail fun x => .ret (.num (.float x))

/-! ### `compile_schema` -/

/-- Part 2 and 3 of `compile_schema` for one type, over what the subschemas compile to. -/
def compileType (keys : Keywords) (properties : Choice (List (String × GeneratorFunction)))
    (items : Choice GeneratorFunction) : Ty → Choice GeneratorFunction
  | .object => properties.bind fun generators => .ret (objectGenerator keys.required generators)
  | .array => items.bind fun item => .ret (arrayGenerator item keys.minItems' keys.maxItems')
  | .string => (stringGenerator lower keys).bind fun text =>
    .ret (text.bind fun s => .ret (.str s))
  | .integer => .ret (integerGenerator keys.minimum' keys.maximum')
  | .number => .ret (numberGenerator keys.minimum' keys.maximum')
  | .boolean => .ret (choice [.bool true, .bool false])
  | .null => .ret (.ret .null)

/-- The cut-off, then `enum` unless it is empty, then `default` unless it is `null`, then the type;
of a list of types one is chosen now. -/
def compileKeywords (depth : Nat) (keys : Keywords)
    (properties : Choice (List (String × GeneratorFunction)))
    (items : Choice GeneratorFunction) : Choice GeneratorFunction :=
  if 5 < depth then .ret (.ret (.str "MAX_DEPTH_REACHED"))
  else
    match keys.enum, keys.default with
    | some (v :: values), _ => .ret (choice (v :: values))
    | _, none | _, some .null => (choice keys.types).bind (compileType lower keys properties items)
    | _, some v => .ret (.ret v)

mutual

def compileSchema : Schema → (depth : Nat) → Choice GeneratorFunction
  | .mk keys properties items, depth =>
    compileKeywords lower depth keys (compileProperties properties (depth + 1))
      (compileItems items (depth + 1))
termination_by structural s => s

def compileProperties :
    List (String × Schema) → (depth : Nat) → Choice (List (String × GeneratorFunction))
  | [], _ => .ret []
  | (name, s) :: properties, depth =>
    (compileSchema s depth).bind fun generator =>
      (compileProperties properties depth).bind fun generators =>
        .ret ((name, generator) :: generators)
termination_by structural properties => properties

/-- Without `items` it is the schema `{}`, which has no properties. -/
def compileItems : Option Schema → (depth : Nat) → Choice GeneratorFunction
  | none, depth => compileKeywords lower depth .empty (.ret []) .fail
  | some s, depth => compileSchema s depth
termination_by structural items => items

end

end TiPI.Auditor
