import TiPI.Lib.TimeLayout
import Mathlib.Data.List.Forall2

/-!
# The query of GET

`parseQuery` and the rules that the API gives for the common keys. Texts are lists of bytes.
-/

namespace TiPI.Auditor

abbrev Text := List Char

/-- `url.Values`: the values of each key, in order. -/
abbrev Values := String → List Text

/-- The first value, or the empty one. -/
def Values.get (query : Values) (key : String) : Text := (query key).headD []

structure GetEventsQueryRequest where
  Ts_start : Time
  Ts_end : Time
  Ts : Time
  Component : List Text
  User : List Text
  Op : List Text
  Session_id : List ℤ
  Req_id : List ℤ
  deriving DecidableEq, Repr

inductive QueryError
  | parseError (msg : Text)
  | numError (e : NumError)
  deriving DecidableEq, Repr

/-- An error comes with the request as it is then. -/
abbrev QueryResult := Except (GetEventsQueryRequest × QueryError) GetEventsQueryRequest

/-! ### Layouts -/

/-- `2006-01-02`. -/
def dateLayout : Layout := [([], .longYear), (['-'], .zeroMonth), (['-'], .zeroDay)]

/-- `15:04:05` behind a separator. -/
def clockLayout (separator : Char) : Layout :=
  [([separator], .hour), ([':'], .zeroMinute), ([':'], .zeroSecond)]

def RFC3339 : Layout := dateLayout ++ clockLayout 'T' ++ [([], .iso8601ColonTZ)]

def RFC3339Nano : Layout :=
  dateLayout ++ clockLayout 'T' ++ [([], .fracSecond9), ([], .iso8601ColonTZ)]

def formats : List Layout := [
  RFC3339,
  RFC3339Nano,
  dateLayout ++ clockLayout 'T',
  dateLayout ++ clockLayout 'T' ++ [([], .fracSecond0 6)],
  dateLayout ++ clockLayout ' ']

def parseTimestamp (s : Text) : Except QueryError Time :=
  match formats.findSome? (·.parse s) with
  | some t => .ok t
  | none => .error (.parseError ("invalid timestamp format: ".toList ++ s))

/-! ### `parseQuery` -/

/-- `if v := query.Get(key); v != ""` around a timestamp. -/
def queryTime (query : Values) (key : String) (set : Time → GetEventsQueryRequest)
    (req : GetEventsQueryRequest) : QueryResult :=
  if query.get key = [] then .ok req
  else
    match parseTimestamp (query.get key) with
    | .ok t => .ok (set t)
    | .error e => .error (req, e)

/-- The same around `strings.Split`. -/
def queryList (query : Values) (key : String) (set : List Text → GetEventsQueryRequest)
    (req : GetEventsQueryRequest) : GetEventsQueryRequest :=
  if query.get key = [] then req else set ((query.get key).splitOn ',')

/-- The loop that appends the numbers; `set` is the request with what is appended so far. -/
def appendInts (set : List ℤ → GetEventsQueryRequest) : List Text → List ℤ → QueryResult
  | [], rs => .ok (set rs)
  | s :: ss, rs =>
    match parseInt 1 s with
    | .ok r => appendInts set ss (rs ++ [r])
    | .error e => .error (set rs, .numError e)

def queryInts (query : Values) (key : String) (set : List ℤ → GetEventsQueryRequest)
    (req : GetEventsQueryRequest) : QueryResult :=
  if query.get key = [] then .ok req else appendInts set ((query.get key).splitOn ',') []

def parseQuery (query : Values) : QueryResult := do
  let req : GetEventsQueryRequest := ⟨.zero, .zero, .zero, [], [], [], [], []⟩
  let req ← queryTime query "ev_ts_start" (fun t => { req with Ts_start := t }) req
  let req ← queryTime query "ev_ts_end" (fun t => { req with Ts_end := t }) req
  let req ← queryTime query "ev_ts" (fun t => { req with Ts := t }) req
  let req := queryList query "ev_op" (fun l => { req with Op := l }) req
  let req := queryList query "ev_user" (fun l => { req with User := l }) req
  let req := queryList query "ev_component" (fun l => { req with Component := l }) req
  let req ← queryInts query "ev_session_id" (fun rs => { req with Session_id := rs }) req
  queryInts query "ev_req_id" (fun rs => { req with Req_id := rs }) req

/-! ### The rules -/

/-- A day of the calendar and a time of the day. -/
structure Moment where
  year : Nat
  month : Nat
  day : Nat
  hour : Nat
  min : Nat
  sec : Nat
  year_lt : year < 10000
  month_mem : 1 ≤ month ∧ month ≤ 12
  day_mem : 1 ≤ day ∧ day ≤ daysIn month year
  hour_lt : hour < 24
  min_lt : min < 60
  sec_lt : sec < 60

namespace Moment

variable (m : Moment)

def date : Text :=
  fixedDigits 4 m.year ++ '-' :: (fixedDigits 2 m.month ++ '-' :: fixedDigits 2 m.day)

def clock : Text :=
  fixedDigits 2 m.hour ++ ':' :: (fixedDigits 2 m.min ++ ':' :: fixedDigits 2 m.sec)

/-- `YYYY-MM-DDThh:mm:ss`. -/
def text : Text := m.date ++ 'T' :: m.clock

/-- `YYYY-MM-DDThh:mm:ss:micros`. -/
def textMicros (micros : Nat) : Text := m.text ++ ':' :: fixedDigits 6 micros

def time (nsec : Nat) : Time := ⟨m.year, m.month, m.day, m.hour, m.min, m.sec, nsec, 0⟩

end Moment

/-- The timestamp in one of the two documented formats. -/
def IsTimestamp (text : Text) (t : Time) : Prop :=
  (∃ m : Moment, text = m.text ∧ t = m.time 0) ∨
    ∃ (m : Moment) (micros : Nat), micros < 10 ^ 6 ∧ text = m.textMicros micros ∧
      t = m.time (micros * 1000)

/-- The strings with commas between them. -/
def IsList (text : Text) (l : List Text) : Prop :=
  l ≠ [] ∧ (∀ s ∈ l, s ≠ [] ∧ ',' ∉ s) ∧ text = [','].intercalate l

def IsInt64 (text : Text) (n : ℤ) : Prop := IsNumeral text n ∧ -2 ^ 63 ≤ n ∧ n < 2 ^ 63

def IsInts (text : Text) (ns : List ℤ) : Prop := ∃ l, IsList text l ∧ List.Forall₂ IsInt64 l ns

/-- The key is left out, or it is there once. -/
def Given {α : Type} (R : Text → α → Prop) (absent : α) (values : List Text) (x : α) : Prop :=
  values = [] ∧ x = absent ∨ ∃ text, values = [text] ∧ R text x

/-- The query keeps the rules, and the request is what it stands for. -/
structure Keeps (query : Values) (req : GetEventsQueryRequest) : Prop where
  ts_start : Given IsTimestamp .zero (query "ev_ts_start") req.Ts_start
  ts_end : Given IsTimestamp .zero (query "ev_ts_end") req.Ts_end
  ts : Given IsTimestamp .zero (query "ev_ts") req.Ts
  exclusive : query "ev_ts" ≠ [] → query "ev_ts_start" = [] ∧ query "ev_ts_end" = []
  component : Given IsList [] (query "ev_component") req.Component
  user : Given IsList [] (query "ev_user") req.User
  op : Given IsList [] (query "ev_op") req.Op
  session_id : Given IsInts [] (query "ev_session_id") req.Session_id
  req_id : Given IsInts [] (query "ev_req_id") req.Req_id

end TiPI.Auditor
