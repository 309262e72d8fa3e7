import TiPI.Lib.ParseInt
import Mathlib.Data.List.TakeWhile

/-!
# Times in texts

`time.Parse` for layouts of dates and clock times with numbers only. A layout is given as the chunks
that `nextStdChunk` cuts it into: a text and the element behind it.
-/

namespace TiPI

inductive Std
  | longYear
  | zeroMonth
  | zeroDay
  | hour
  | zeroMinute
  | zeroSecond
  | fracSecond0 (digits : Nat)
  | fracSecond9
  | iso8601ColonTZ

abbrev Layout := List (List Char × Std)

/-- Date and clock time in a zone that is `offset` seconds east of UTC. -/
structure Time where
  year : Nat
  month : Nat
  day : Nat
  hour : Nat
  min : Nat
  sec : Nat
  nsec : Nat
  offset : ℤ
  deriving DecidableEq, Repr

/-- `Time{}`. -/
def Time.zero : Time := ⟨1, 1, 1, 0, 0, 0, 0, 0⟩

def isLeap (year : Nat) : Bool := year % 4 = 0 ∧ (year % 100 ≠ 0 ∨ year % 400 = 0)

def daysIn (month year : Nat) : Nat :=
  if month = 2 then if isLeap year then 29 else 28 else 30 + (month + month / 8) % 2

/-- A text between the elements. A space stands for any number, in the text as in the value. -/
def skip : (pre : List Char) → (cut : Bool) → (value : List Char) → Option (List Char)
  | [], _, value => some value
  | ' ' :: pre, true, value => skip pre true value
  | ' ' :: pre, false, value =>
    match value with
    | [] => skip pre true []
    | c :: value => if c = ' ' then skip pre true (value.dropWhile (· = ' ')) else none
  | _ :: _, _, [] => none
  | p :: pre, _, c :: value => if c = p then skip pre false value else none

/-- One digit or two, but two if they are `fixed`. -/
def getnum (value : List Char) (fixed : Bool) : Option (Nat × List Char) :=
  match value with
  | [] => none
  | [c] => if c.isDigit ∧ fixed = false then some (digitVal c, []) else none
  | c :: d :: value =>
    if c.isDigit then
      if d.isDigit then some (digitVal c * 10 + digitVal d, value)
      else if fixed then none
      else some (digitVal c, d :: value)
    else none

/-- A number of digits that fits into 64 bits, perhaps with a sign, perhaps of no digits. -/
def atoi : List Char → Option ℤ
  | '-' :: digits => if digits.all Char.isDigit then some (-digitsVal 0 digits) else none
  | '+' :: digits => if digits.all Char.isDigit then some (digitsVal 0 digits) else none
  | digits => if digits.all Char.isDigit then some (digitsVal 0 digits) else none

def commaOrPeriod (c : Char) : Bool := c = '.' ∨ c = ','

/-- The first `nbytes` bytes are a comma or a period and what is behind it, of which nine count. -/
def parseNanoseconds (value : List Char) (nbytes : Nat) : Option Nat :=
  match value with
  | [] => none
  | c :: digits =>
    if commaOrPeriod c then
      match atoi (digits.take (min nbytes 10 - 1)) with
      | none => none
      | some ns => if ns < 0 then none else some (ns.toNat * 10 ^ (10 - min nbytes 10))
    else none

/-- A comma or a period with a digit behind it: the fraction and what follows its digits. -/
def fraction (value : List Char) : Option (Option Nat × List Char) :=
  match value with
  | c :: d :: rest =>
    if commaOrPeriod c ∧ d.isDigit then
      let digits := (d :: rest).takeWhile Char.isDigit
      some (parseNanoseconds value (1 + digits.length), (d :: rest).dropWhile Char.isDigit)
    else none
  | _ => none

/-- `Z07:00`. -/
def zone (value : List Char) : Option (ℤ × List Char) :=
  match value with
  | 'Z' :: value => some (0, value)
  | sign :: h :: h' :: colon :: m :: m' :: value =>
    if colon = ':' then
      match getnum [h, h'] true, getnum [m, m'] true with
      | some (hr, _), some (mm, _) =>
        if hr ≤ 24 ∧ mm ≤ 60 then
          if sign = '+' then some ((hr * 60 + mm) * 60, value)
          else if sign = '-' then some (-((hr * 60 + mm) * 60), value)
          else none
        else none
      | _, _ => none
    else none
  | _ => none

/-- One element of the layout; `next` is the one behind it. A fraction may follow the seconds where
the layout has none. -/
def Time.element (t : Time) (std : Std) (next : Option Std) (value : List Char) :
    Option (Time × List Char) :=
  match std with
  | .longYear =>
    if 4 ≤ value.length ∧ (value.head?.any Char.isDigit) then
      (atoi (value.take 4)).map fun year => ({ t with year := year.toNat }, value.drop 4)
    else none
  | .zeroMonth => do
    let (month, value) ← getnum value true
    if 1 ≤ month ∧ month ≤ 12 then some ({ t with month }, value) else none
  | .zeroDay => do
    let (day, value) ← getnum value true
    some ({ t with day }, value)
  | .hour => do
    let (hour, value) ← getnum value false
    if hour < 24 then some ({ t with hour }, value) else none
  | .zeroMinute => do
    let (min, value) ← getnum value true
    if min < 60 then some ({ t with min }, value) else none
  | .zeroSecond => do
    let (sec, value) ← getnum value true
    if sec < 60 then
      match next, fraction value with
      | some (.fracSecond0 _), _ | some .fracSecond9, _ | _, none => some ({ t with sec }, value)
      | _, some (nsec, value) => nsec.map fun nsec => ({ t with sec, nsec }, value)
    else none
  | .fracSecond0 digits =>
    if value.length < 1 + digits then none
    else (parseNanoseconds value (1 + digits)).map fun nsec =>
      ({ t with nsec }, value.drop (1 + digits))
  | .fracSecond9 =>
    match fraction value with
    | none => some (t, value)
    | some (nsec, value) => nsec.map fun nsec => ({ t with nsec }, value)
  | .iso8601ColonTZ => (zone value).map fun (offset, value) => ({ t with offset }, value)

def Time.elements (t : Time) : Layout → (value : List Char) → Option Time
  | [], value => if value = [] then some t else none
  | (pre, std) :: layout, value => do
    let value ← skip pre false value
    let (t, value) ← t.element std (layout.head?.map Prod.snd) value
    t.elements layout value

/-- `time.Parse(layout, value)`. -/
def Layout.parse (layout : Layout) (value : List Char) : Option Time := do
  let t ← Time.elements ⟨0, 1, 1, 0, 0, 0, 0, 0⟩ layout value
  if 1 ≤ t.day ∧ t.day ≤ daysIn t.month t.year then some t else none

/-! ### Elements of fixed width -/

variable {t : Time} {value : List Char} {n : Nat} {next : Option Std} {layout : Layout}

lemma atoi_of_digits {digits : List Char} (h : Digits digits) :
    atoi digits = some (digitsVal 0 digits : ℤ) := by
  have hall : digits.all Char.isDigit = true := List.all_eq_true.2 h
  unfold atoi
  split
  · simp at hall
  · simp at hall
  · rw [if_pos hall]

lemma getnum_fixedDigits (hn : n < 100) (fixed : Bool) :
    getnum (fixedDigits 2 n ++ value) fixed = some (n, value) := by
  have htens : n / 10 % 10 < 10 := Nat.mod_lt _ (by decide)
  have hones : n % 10 < 10 := Nat.mod_lt _ (by decide)
  simp only [fixedDigits, List.nil_append, List.cons_append, getnum, isDigit_digitChar htens,
    isDigit_digitChar hones, if_true, digitVal_digitChar htens, digitVal_digitChar hones]
  congr 2
  omega

lemma skip_char {c : Char} (hc : c ≠ ' ') : skip [c] false (c :: value) = some value := by
  simp [skip, hc]

lemma element_longYear (hn : n < 10000) :
    t.element .longYear next (fixedDigits 4 n ++ value) = some ({ t with year := n }, value) := by
  have hlen := length_fixedDigits 4 n
  have hhead : (fixedDigits 4 n ++ value).head?.any Char.isDigit = true := by
    cases hdigits : fixedDigits 4 n with
    | nil =>
      rw [hdigits] at hlen
      cases hlen
    | cons c digits =>
      have hc := digits_fixedDigits 4 n c (by rw [hdigits]; exact List.mem_cons_self)
      simpa using hc
  have hatoi := atoi_of_digits (digits_fixedDigits 4 n)
  rw [digitsVal_fixedDigits, Nat.mod_eq_of_lt (show n < 10 ^ 4 from hn)] at hatoi
  rw [Time.element, if_pos ⟨by rw [List.length_append]; omega, hhead⟩,
    List.take_append_of_le_length hlen.ge, List.drop_append_of_le_length hlen.ge,
    List.take_of_length_le hlen.le, List.drop_of_length_le hlen.le, hatoi]
  rfl

lemma element_zeroMonth (hn : 1 ≤ n ∧ n ≤ 12) :
    t.element .zeroMonth next (fixedDigits 2 n ++ value) = some ({ t with month := n }, value) := by
  simp [Time.element, getnum_fixedDigits (show n < 100 by omega), hn]

lemma element_zeroDay (hn : n < 100) :
    t.element .zeroDay next (fixedDigits 2 n ++ value) = some ({ t with day := n }, value) := by
  simp [Time.element, getnum_fixedDigits hn]

lemma element_zeroMinute (hn : n < 60) :
    t.element .zeroMinute next (fixedDigits 2 n ++ value) = some ({ t with min := n }, value) := by
  simp [Time.element, getnum_fixedDigits (show n < 100 by omega), hn]

/-- No fraction behind the seconds. -/
lemma element_zeroSecond (hn : n < 60) (hvalue : fraction value = none) :
    t.element .zeroSecond next (fixedDigits 2 n ++ value) = some ({ t with sec := n }, value) := by
  simp only [Time.element, getnum_fixedDigits (show n < 100 by omega), Option.bind_eq_bind,
    Option.bind_some, if_pos hn, hvalue]
  split <;> simp_all

/-! ### What the elements accept -/

lemma getnum_true_iff {rest : List Char} :
    getnum value true = some (n, rest) ↔ n < 100 ∧ value = fixedDigits 2 n ++ rest := by
  constructor
  · intro h
    unfold getnum at h
    split at h
    · cases h
    · simp at h
    · next c d value =>
      split at h
      · next hc =>
        split at h
        · next hd =>
          cases h
          obtain ⟨hc10, hc'⟩ := digitVal_eq hc
          obtain ⟨hd10, hd'⟩ := digitVal_eq hd
          refine ⟨by omega, ?_⟩
          simp only [fixedDigits, List.nil_append, List.cons_append]
          rw [show (digitVal c * 10 + digitVal d) / 10 % 10 = digitVal c by omega,
            show (digitVal c * 10 + digitVal d) % 10 = digitVal d by omega, hc', hd']
        · simp at h
      · cases h
  · rintro ⟨hn, rfl⟩
    exact getnum_fixedDigits hn true

/-- Two digits or a single one. -/
def IsShort (n : Nat) (text : List Char) : Prop :=
  n < 100 ∧ text = fixedDigits 2 n ∨ n < 10 ∧ text = [Nat.digitChar n]

lemma getnum_false {rest : List Char} (h : getnum value false = some (n, rest)) :
    ∃ text, IsShort n text ∧ value = text ++ rest := by
  unfold getnum at h
  split at h
  · cases h
  · next c =>
    split at h
    · next hc =>
      cases h
      obtain ⟨hc10, hc'⟩ := digitVal_eq hc.1
      exact ⟨[c], .inr ⟨hc10, by rw [hc']⟩, rfl⟩
    · cases h
  · next c d value =>
    split at h
    · next hc =>
      split at h
      · next hd =>
        cases h
        have htwo : getnum (c :: d :: rest) true = some (digitVal c * 10 + digitVal d, rest) := by
          simp [getnum, hc, hd]
        obtain ⟨hn, hvalue⟩ := getnum_true_iff.1 htwo
        exact ⟨_, .inl ⟨hn, rfl⟩, hvalue⟩
      · cases h
        obtain ⟨hc10, hc'⟩ := digitVal_eq hc
        exact ⟨[c], .inr ⟨hc10, by rw [hc']⟩, rfl⟩
    · cases h

lemma IsShort.exists_cons {text : List Char} (h : IsShort n text) :
    ∃ c rest, c.isDigit = true ∧ text = c :: rest := by
  rcases h with ⟨hn, rfl⟩ | ⟨hn, rfl⟩
  · exact ⟨_, _, isDigit_digitChar (Nat.mod_lt _ (by decide)), rfl⟩
  · exact ⟨_, _, isDigit_digitChar hn, rfl⟩

/-- A single digit is not followed by another. -/
lemma getnum_of_isShort {text rest : List Char} (h : IsShort n text)
    (hrest : ¬ rest.head?.any Char.isDigit) : getnum (text ++ rest) false = some (n, rest) := by
  rcases h with ⟨hn, rfl⟩ | ⟨hn, rfl⟩
  · exact getnum_fixedDigits hn false
  · cases rest with
    | nil => simp [getnum, isDigit_digitChar hn, digitVal_digitChar hn]
    | cons c rest =>
      have hc : c.isDigit = false := by simpa using hrest
      simp [getnum, isDigit_digitChar hn, digitVal_digitChar hn, hc]

lemma atoi_eq_some {text : List Char} {k : ℤ} (h : atoi text = some k) :
    (∃ digits, text = '-' :: digits ∧ Digits digits ∧ k = -digitsVal 0 digits) ∨
      (∃ digits, text = '+' :: digits ∧ Digits digits ∧ k = digitsVal 0 digits) ∨
        Digits text ∧ k = digitsVal 0 text := by
  unfold atoi at h
  split at h
  · next digits =>
    split at h
    · next hall =>
      cases h
      exact .inl ⟨digits, rfl, List.all_eq_true.1 hall, rfl⟩
    · cases h
  · next digits =>
    split at h
    · next hall =>
      cases h
      exact .inr (.inl ⟨digits, rfl, List.all_eq_true.1 hall, rfl⟩)
    · cases h
  · split at h
    · next hall =>
      cases h
      exact .inr (.inr ⟨List.all_eq_true.1 hall, rfl⟩)
    · cases h

lemma digits_of_atoi {digits : List Char} {k : ℤ} (h : atoi digits = some k)
    (hhead : digits.head?.any Char.isDigit) : Digits digits ∧ k = digitsVal 0 digits := by
  rcases atoi_eq_some h with ⟨_, rfl, -, -⟩ | ⟨_, rfl, -, -⟩ | hdigits
  · simp at hhead
  · simp at hhead
  · exact hdigits

lemma skip_char_iff {c : Char} {rest : List Char} (hc : c ≠ ' ') :
    skip [c] false value = some rest ↔ value = c :: rest := by
  constructor
  · intro h
    cases value with
    | nil => simp [skip, hc] at h
    | cons d value =>
      have heq : skip [c] false (d :: value) = if d = c then some value else none := by
        simp [skip, hc]
      rw [heq] at h
      split at h
      · next hd =>
        cases h
        rw [hd]
      · cases h
  · rintro rfl
    exact skip_char hc

variable {r : Time × List Char}

lemma element_longYear_iff : t.element .longYear next value = some r ↔
    ∃ n rest, n < 10000 ∧ value = fixedDigits 4 n ++ rest ∧ r = ({ t with year := n }, rest) := by
  constructor
  · intro h
    rw [Time.element] at h
    split at h
    · next hlong =>
      obtain ⟨k, hatoi, rfl⟩ := Option.map_eq_some_iff.1 h
      have hlen : (value.take 4).length = 4 := List.length_take_of_le hlong.1
      have hhead : (value.take 4).head?.any Char.isDigit := by
        rw [List.head?_take]
        simpa using hlong.2
      obtain ⟨hdigits, rfl⟩ := digits_of_atoi hatoi hhead
      have htext := fixedDigits_digitsVal hdigits
      rw [hlen] at htext
      refine ⟨digitsVal 0 (value.take 4), value.drop 4, ?_, ?_, rfl⟩
      · have hlt := digitsVal_lt hdigits
        rwa [hlen] at hlt
      · rw [htext, List.take_append_drop]
    · cases h
  · rintro ⟨n, rest, hn, rfl, rfl⟩
    exact element_longYear hn

/-- Two digits with a bound on their number. -/
lemma getnum_guard_iff {P : Nat → Prop} [DecidablePred P] {f : Nat → Time}
    (hP : ∀ n, P n → n < 100) :
    ((getnum value true).bind fun x => if P x.1 then some (f x.1, x.2) else none) = some r ↔
      ∃ n rest, P n ∧ value = fixedDigits 2 n ++ rest ∧ r = (f n, rest) := by
  rw [Option.bind_eq_some_iff]
  constructor
  · rintro ⟨⟨n, rest⟩, hget, hr⟩
    split at hr
    · next hn =>
      cases hr
      exact ⟨n, rest, hn, (getnum_true_iff.1 hget).2, rfl⟩
    · cases hr
  · rintro ⟨n, rest, hn, rfl, rfl⟩
    exact ⟨(n, rest), getnum_fixedDigits (hP n hn) true, if_pos hn⟩

lemma element_zeroMonth_iff : t.element .zeroMonth next value = some r ↔
    ∃ n rest, (1 ≤ n ∧ n ≤ 12) ∧ value = fixedDigits 2 n ++ rest ∧
    r = ({ t with month := n }, rest) :=
  getnum_guard_iff (P := fun n => 1 ≤ n ∧ n ≤ 12) (f := fun n => { t with month := n }) fun n hn =>
    hn.2.trans_lt (by decide)

lemma element_zeroDay_iff : t.element .zeroDay next value = some r ↔
    ∃ n rest, n < 100 ∧ value = fixedDigits 2 n ++ rest ∧ r = ({ t with day := n }, rest) := by
  constructor
  · intro h
    simp only [Time.element, Option.bind_eq_bind, Option.bind_eq_some_iff] at h
    obtain ⟨⟨n, rest⟩, hget, hr⟩ := h
    cases hr
    obtain ⟨hn, hvalue⟩ := getnum_true_iff.1 hget
    exact ⟨n, rest, hn, hvalue, rfl⟩
  · rintro ⟨n, rest, hn, rfl, rfl⟩
    exact element_zeroDay hn

lemma element_zeroMinute_iff : t.element .zeroMinute next value = some r ↔
    ∃ n rest, n < 60 ∧ value = fixedDigits 2 n ++ rest ∧ r = ({ t with min := n }, rest) :=
  getnum_guard_iff (P := fun n => n < 60) (f := fun n => { t with min := n }) fun n hn =>
    hn.trans (by decide)

lemma element_hour_of_isShort {text rest : List Char} (h : IsShort n text) (hn : n < 24)
    (hrest : ¬ rest.head?.any Char.isDigit) :
    t.element .hour next (text ++ rest) = some ({ t with hour := n }, rest) := by
  simp [Time.element, getnum_of_isShort h hrest, hn]

lemma isShort_of_element (h : t.element .hour next value = some r) :
    ∃ n text rest, n < 24 ∧ IsShort n text ∧ value = text ++ rest ∧
      r = ({ t with hour := n }, rest) := by
  simp only [Time.element, Option.bind_eq_bind, Option.bind_eq_some_iff] at h
  obtain ⟨⟨n, rest⟩, hget, hr⟩ := h
  split at hr
  · next hn =>
    cases hr
    obtain ⟨text, htext, hvalue⟩ := getnum_false hget
    exact ⟨n, text, rest, hn, htext, hvalue, rfl⟩
  · cases hr

/-- A front that passes a test, and what follows does not. -/
lemma takeWhile_append_stop {p : Char → Bool} {front rest : List Char} (hfront : ∀ c ∈ front, p c)
    (hrest : ¬ rest.head?.any p) :
    (front ++ rest).takeWhile p = front ∧ (front ++ rest).dropWhile p = rest := by
  rw [List.takeWhile_append_of_pos hfront, List.dropWhile_append_of_pos hfront]
  cases rest with
  | nil => simp
  | cons c rest =>
    have hc : p c = false := by simpa using hrest
    simp [hc]

/-- A comma or a period, and digits. -/
def IsFraction (text : List Char) : Prop :=
  ∃ c digits, commaOrPeriod c ∧ digits ≠ [] ∧ Digits digits ∧ text = c :: digits

lemma parseNanoseconds_of_digits {c : Char} {digits : List Char} {nbytes : Nat}
    (hc : commaOrPeriod c) (hdigits : Digits (digits.take (min nbytes 10 - 1))) :
    ∃ ns, parseNanoseconds (c :: digits) nbytes = some ns := by
  rw [parseNanoseconds, if_pos hc, atoi_of_digits hdigits]
  simp

lemma fraction_of_isFraction {text rest : List Char} (h : IsFraction text)
    (hrest : ¬ rest.head?.any Char.isDigit) :
    ∃ ns, fraction (text ++ rest) = some (some ns, rest) := by
  obtain ⟨c, digits, hc, hne, hdigits, rfl⟩ := h
  obtain ⟨htake, hdrop⟩ := takeWhile_append_stop hdigits hrest
  cases digits with
  | nil => exact absurd rfl hne
  | cons d digits =>
    have hd : d.isDigit = true := hdigits d List.mem_cons_self
    obtain ⟨ns, hns⟩ : ∃ ns, parseNanoseconds (c :: (d :: digits ++ rest))
      (1 + (d :: digits).length) =
        some ns := by
      apply parseNanoseconds_of_digits hc
      intro e he
      rw [List.take_append_of_le_length (by omega)] at he
      exact hdigits e (List.mem_of_mem_take he)
    refine ⟨ns, ?_⟩
    rw [List.cons_append, List.cons_append, fraction, if_pos ⟨hc, hd⟩]
    rw [List.cons_append] at htake hdrop hns
    simp only [htake, hdrop]
    rw [hns]

lemma isFraction_of_fraction {x : Option Nat} {rest : List Char}
    (h : fraction value = some (x, rest)) :
    ∃ text, IsFraction text ∧ value = text ++ rest := by
  unfold fraction at h
  split at h
  · next c d value =>
    split at h
    · next hcd =>
      cases h
      refine ⟨c :: (d :: value).takeWhile Char.isDigit, ⟨c, _, hcd.1, ?_, ?_, rfl⟩, ?_⟩
      · simp [hcd.2]
      · exact fun e he => List.mem_takeWhile_imp he
      · rw [List.cons_append, List.takeWhile_append_dropWhile]
    · cases h
  · cases h

/-- A fraction goes with the seconds where the layout has none. -/
lemma element_zeroSecond_fraction {x : Option Nat} {rest : List Char} (hn : n < 60)
    (hvalue : fraction value = some (x, rest))
    (hnext : next = none ∨ next = some .iso8601ColonTZ) :
    t.element .zeroSecond next (fixedDigits 2 n ++ value) =
      x.map fun nsec => ({ t with sec := n, nsec }, rest) := by
  simp only [Time.element, getnum_fixedDigits (show n < 100 by omega), Option.bind_eq_bind,
    Option.bind_some, if_pos hn, hvalue]
  rcases hnext with rfl | rfl <;> rfl

/-- It is left to the layout where that has one. -/
lemma element_zeroSecond_next (hn : n < 60)
    (hnext : next = some .fracSecond9 ∨ ∃ digits, next = some (.fracSecond0 digits)) :
    t.element .zeroSecond next (fixedDigits 2 n ++ value) = some ({ t with sec := n }, value) := by
  simp only [Time.element, getnum_fixedDigits (show n < 100 by omega), Option.bind_eq_bind,
    Option.bind_some, if_pos hn]
  rcases hnext with rfl | ⟨digits, rfl⟩ <;> rfl

lemma fixedDigits_of_element (h : t.element .zeroSecond next value = some r) :
    ∃ n rest, n < 60 ∧ value = fixedDigits 2 n ++ rest := by
  simp only [Time.element, Option.bind_eq_bind, Option.bind_eq_some_iff] at h
  obtain ⟨⟨n, rest⟩, hget, hr⟩ := h
  split at hr
  · next hn => exact ⟨n, rest, hn, (getnum_true_iff.1 hget).2⟩
  · cases hr

def IsZone (text : List Char) : Prop :=
  text = ['Z'] ∨ ∃ sign h m, (sign = '+' ∨ sign = '-') ∧ h ≤ 24 ∧ m ≤ 60 ∧
    text = sign :: (fixedDigits 2 h ++ ':' :: fixedDigits 2 m)

lemma zone_of_isZone {rest : List Char} (h : IsZone value) :
    ∃ k, zone (value ++ rest) = some (k, rest) := by
  rcases h with rfl | ⟨sign, h, m, hsign, hh, hm, rfl⟩
  · exact ⟨0, rfl⟩
  · have hhour : getnum (fixedDigits 2 h ++ []) true = some (h, []) :=
      getnum_fixedDigits (by omega) true
    have hmin : getnum (fixedDigits 2 m ++ []) true = some (m, []) :=
      getnum_fixedDigits (by omega) true
    simp only [fixedDigits, List.nil_append, List.cons_append] at hhour hmin ⊢
    rcases hsign with rfl | rfl <;> simp [zone, hhour, hmin, hh, hm]

lemma getnum_pair {a b : Char} {rest : List Char} (h : getnum [a, b] true = some (n, rest)) :
    [a, b] = fixedDigits 2 n := by
  obtain ⟨-, hvalue⟩ := getnum_true_iff.1 h
  have hlen := congrArg List.length hvalue
  rw [List.length_append, length_fixedDigits] at hlen
  have hrest : rest = [] := List.eq_nil_of_length_eq_zero (by simpa using hlen)
  rw [hvalue, hrest, List.append_nil]

lemma isZone_of_zone {k : ℤ} {rest : List Char} (h : zone value = some (k, rest)) :
    ∃ text, IsZone text ∧ value = text ++ rest := by
  unfold zone at h
  split at h
  · cases h
    exact ⟨['Z'], .inl rfl, rfl⟩
  · next sign h1 h2 colon m1 m2 value _ =>
    split at h
    · next hcolon =>
      split at h
      · next hr _ mm _ hhour hmin =>
        split at h
        · next hrange =>
          have hvalue : ∀ value : List Char, sign :: h1 :: h2 :: colon :: m1 :: m2 :: value =
              sign :: (fixedDigits 2 hr ++ ':' :: fixedDigits 2 mm) ++ value := by
            intro value
            rw [← getnum_pair hhour, ← getnum_pair hmin, hcolon]
            rfl
          split at h
          · next hsign =>
            cases h
            exact ⟨_, .inr ⟨sign, hr, mm, .inl hsign, hrange.1, hrange.2, rfl⟩, hvalue _⟩
          · split at h
            · next hsign =>
              cases h
              exact ⟨_, .inr ⟨sign, hr, mm, .inr hsign, hrange.1, hrange.2, rfl⟩, hvalue _⟩
            · cases h
        · cases h
      · cases h
    · cases h
  · cases h

/-- At least one space. -/
def IsSpaces (text : List Char) : Prop := ∃ k, text = ' ' :: List.replicate k ' '

lemma skip_space_iff {rest : List Char} (hrest : rest ≠ []) : skip [' '] false value = some rest ↔
    ∃ text, IsSpaces text ∧ value = text ++ rest ∧ rest.head? ≠ some ' ' := by
  cases value with
  | nil =>
    have hnil : skip [' '] false [] = some [] := rfl
    rw [hnil]
    constructor
    · intro h
      exact absurd (Option.some.inj h).symm hrest
    · rintro ⟨text, ⟨k, rfl⟩, h, -⟩
      cases h
  | cons c value =>
    have heq : skip [' '] false (c :: value) =
        if c = ' ' then some (value.dropWhile (· = ' ')) else none := by
      simp [skip]
    rw [heq]
    constructor
    · intro h
      split at h
      · next hc =>
        cases h
        refine ⟨' ' :: value.takeWhile (· = ' '), ⟨(value.takeWhile (· = ' ')).length, ?_⟩, ?_, ?_⟩
        · congr 1
          refine List.eq_replicate_iff.2 ⟨rfl, fun d hd => ?_⟩
          simpa using List.mem_takeWhile_imp hd
        · rw [hc, List.cons_append, List.takeWhile_append_dropWhile]
        · have hhead := List.head?_dropWhile_not (· = ' ') value
          intro hspace
          simp [hspace] at hhead
      · cases h
    · rintro ⟨text, ⟨k, rfl⟩, h, hhead⟩
      obtain ⟨rfl, rfl⟩ := List.cons.inj h
      have hspace : ¬ rest.head?.any (· = ' ') := by
        rw [Option.any_eq_true]
        rintro ⟨d, hd, hspace⟩
        rw [of_decide_eq_true hspace] at hd
        exact hhead hd
      have hspaces : ∀ c ∈ List.replicate k ' ', decide (c = ' ') := by simp
      obtain ⟨-, hdrop⟩ := takeWhile_append_stop (p := (· = ' ')) hspaces hspace
      rw [if_pos rfl]
      exact congrArg some hdrop

/-! ### The date stays -/

def Std.IsDate : Std → Prop
  | .longYear => True
  | .zeroMonth => True
  | .zeroDay => True
  | _ => False

def Time.SameDate (t t' : Time) : Prop := t'.year = t.year ∧ t'.month = t.month ∧ t'.day = t.day

lemma element_sameDate {std : Std} (hstd : ¬ std.IsDate) (h : t.element std next value = some r) :
    t.SameDate r.1 := by
  cases std with
  | longYear => exact absurd trivial hstd
  | zeroMonth => exact absurd trivial hstd
  | zeroDay => exact absurd trivial hstd
  | hour =>
    obtain ⟨n, text, rest, -, -, -, rfl⟩ := isShort_of_element h
    exact ⟨rfl, rfl, rfl⟩
  | zeroMinute =>
    obtain ⟨n, rest, -, -, rfl⟩ := element_zeroMinute_iff.1 h
    exact ⟨rfl, rfl, rfl⟩
  | zeroSecond =>
    simp only [Time.element, Option.bind_eq_bind, Option.bind_eq_some_iff] at h
    obtain ⟨⟨n, rest⟩, -, hr⟩ := h
    split at hr
    · split at hr
      · cases hr
        exact ⟨rfl, rfl, rfl⟩
      · cases hr
        exact ⟨rfl, rfl, rfl⟩
      · cases hr
        exact ⟨rfl, rfl, rfl⟩
      · obtain ⟨nsec, -, rfl⟩ := Option.map_eq_some_iff.1 hr
        exact ⟨rfl, rfl, rfl⟩
    · cases hr
  | fracSecond0 digits =>
    rw [Time.element] at h
    split at h
    · cases h
    · obtain ⟨nsec, -, rfl⟩ := Option.map_eq_some_iff.1 h
      exact ⟨rfl, rfl, rfl⟩
  | fracSecond9 =>
    rw [Time.element] at h
    split at h
    · cases h
      exact ⟨rfl, rfl, rfl⟩
    · obtain ⟨nsec, -, rfl⟩ := Option.map_eq_some_iff.1 h
      exact ⟨rfl, rfl, rfl⟩
  | iso8601ColonTZ =>
    rw [Time.element] at h
    obtain ⟨k, -, rfl⟩ := Option.map_eq_some_iff.1 h
    exact ⟨rfl, rfl, rfl⟩

lemma elements_cons_iff {pre : List Char} {std : Std} {t' : Time} :
    t.elements ((pre, std) :: layout) value = some t' ↔
      ∃ v, skip pre false value = some v ∧
      ∃ r, t.element std (layout.head?.map Prod.snd) v = some r ∧
        r.1.elements layout r.2 = some t' := by
  simp [Time.elements, Option.bind_eq_some_iff]

lemma elements_sameDate {t' : Time} (hlayout : ∀ c ∈ layout, ¬ c.2.IsDate)
    (h : t.elements layout value = some t') : t.SameDate t' := by
  induction layout generalizing t value with
  | nil =>
    rw [Time.elements] at h
    split at h
    · cases h
      exact ⟨rfl, rfl, rfl⟩
    · cases h
  | cons c layout ih =>
    rw [List.forall_mem_cons] at hlayout
    obtain ⟨v, -, r, hr, h⟩ := elements_cons_iff.1 h
    obtain ⟨hyear, hmonth, hday⟩ := element_sameDate hlayout.1 hr
    obtain ⟨hyear', hmonth', hday'⟩ := ih hlayout.2 h
    exact ⟨hyear'.trans hyear, hmonth'.trans hmonth, hday'.trans hday⟩

end TiPI
