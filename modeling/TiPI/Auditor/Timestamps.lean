import TiPI.Auditor.Query

/-!
# The timestamps that are read

The five formats read the first of the two documented ones and refuse the second one, but they read
other texts besides.
-/

namespace TiPI.Auditor

/-! ### Documented timestamps -/

variable {m : Moment} {t : Time} {layout : Layout} {value : List Char}

lemma elements_date : t.elements (dateLayout ++ layout) (m.date ++ value) =
    Time.elements { t with year := m.year, month := m.month, day := m.day } layout value := by
  have hday : m.day < 100 := by
    have hdays : daysIn m.month m.year ≤ 31 := by
      unfold daysIn
      split_ifs <;> omega
    have hmem := m.day_mem
    omega
  simp only [dateLayout, Moment.date, List.cons_append, List.nil_append, List.append_assoc,
    Time.elements, skip, skip_char (show '-' ≠ ' ' by decide), Option.bind_eq_bind,
    Option.bind_some,
    element_longYear m.year_lt, element_zeroMonth m.month_mem, element_zeroDay hday]

/-- The time of the day, where the hour may have a single digit. -/
def Moment.IsClock (m : Moment) (text : Text) : Prop :=
  ∃ hour, IsShort m.hour hour ∧
    text = hour ++ ':' :: (fixedDigits 2 m.min ++ ':' :: fixedDigits 2 m.sec)

lemma isClock_clock : m.IsClock m.clock := by
  have hhour := m.hour_lt
  exact ⟨_, .inl ⟨by omega, rfl⟩, rfl⟩

/-- The seconds and what is behind them. -/
def tail (layout : Layout) (t : Time) (sec : Nat) (value : Text) : Option Time :=
  (t.element .zeroSecond (layout.head?.map Prod.snd) (fixedDigits 2 sec ++ value)).bind fun r =>
    r.1.elements layout r.2

lemma elements_clock {separator : Char} {clock rest : Text} (hclock : m.IsClock clock)
    (hskip : skip [separator] false value = some (clock ++ rest)) :
    t.elements (clockLayout separator ++ layout) value =
      tail layout { t with hour := m.hour, min := m.min } m.sec rest := by
  obtain ⟨hour, hhour, rfl⟩ := hclock
  have hcolon : ∀ text : Text, ¬ (':' :: text).head?.any Char.isDigit := by simp
  simp only [List.append_assoc, List.cons_append] at hskip
  simp only [clockLayout, List.cons_append, List.nil_append, Time.elements, hskip,
    Option.bind_eq_bind, Option.bind_some, element_hour_of_isShort hhour m.hour_lt (hcolon _),
    skip_char (show ':' ≠ ' ' by decide), element_zeroMinute m.min_lt]
  rfl

/-- Without a fraction behind the seconds, what is left of the layout decides on what is left of the
value. -/
lemma parse_text (hvalue : fraction value = none) :
    (dateLayout ++ clockLayout 'T' ++ layout).parse (m.text ++ value) =
      ((m.time 0).elements layout value).bind fun t =>
        if 1 ≤ t.day ∧ t.day ≤ daysIn t.month t.year then some t else none := by
  have hskip : skip ['T'] false ('T' :: (m.clock ++ value)) = some (m.clock ++ value) :=
    skip_char (by decide)
  rw [Layout.parse, Moment.text, List.append_assoc, List.append_assoc, List.cons_append,
    elements_date, elements_clock isClock_clock hskip, tail, element_zeroSecond m.sec_lt hvalue]
  rfl

/-- The third format is the documented one. -/
lemma findSome_text : formats.findSome? (·.parse m.text) = some (m.time 0) := by
  have hparse : ∀ layout, (dateLayout ++ clockLayout 'T' ++ layout).parse m.text =
      ((m.time 0).elements layout []).bind fun t =>
        if 1 ≤ t.day ∧ t.day ≤ daysIn t.month t.year then some t else none := by
    intro layout
    rw [← parse_text rfl, List.append_nil]
  have hrfc3339 : RFC3339.parse m.text = none := hparse [([], .iso8601ColonTZ)]
  have hnano : RFC3339Nano.parse m.text = none :=
    hparse [([], .fracSecond9), ([], .iso8601ColonTZ)]
  have hplain : (dateLayout ++ clockLayout 'T').parse m.text = some (m.time 0) := by
    have h := hparse []
    rw [List.append_nil] at h
    rw [h]
    exact if_pos m.day_mem
  rw [formats, List.findSome?_cons, hrfc3339, List.findSome?_cons, hnano,
    List.findSome?_cons, hplain]

/-- A colon and digits are no zone. -/
lemma zone_micros (micros : Nat) : zone (':' :: fixedDigits 6 micros) = none := by
  unfold zone
  split
  · next heq => cases heq
  · next sign h h' colon m m' value _ heq =>
    have hcolon : colon ≠ ':' := by
      rintro rfl
      have hmem : ':' ∈ fixedDigits 6 micros := by
        rw [(List.cons.inj heq).2]
        simp
      have hdigit := digits_fixedDigits 6 micros ':' hmem
      cases hdigit
    rw [if_neg hcolon]
  · rfl

/-- The fourth format wants a comma or a period for the colon, the last one a space for the `T`. -/
lemma parse_textMicros {micros : Nat} (h : layout ∈ formats) :
    layout.parse (m.textMicros micros) = none := by
  have hfraction : fraction (':' :: fixedDigits 6 micros) = none := rfl
  simp only [formats, List.mem_cons, List.not_mem_nil, or_false] at h
  rcases h with rfl | rfl | rfl | rfl | rfl
  · rw [Moment.textMicros, RFC3339, parse_text hfraction]
    simp [Time.elements, skip, Time.element, zone_micros]
  · rw [Moment.textMicros, RFC3339Nano, parse_text hfraction]
    simp [Time.elements, skip, Time.element, zone_micros, hfraction]
  · rw [Moment.textMicros, ← List.append_nil (dateLayout ++ clockLayout 'T'), parse_text hfraction]
    rfl
  · rw [Moment.textMicros, parse_text hfraction]
    simp [Time.elements, skip, Time.element, parseNanoseconds, commaOrPeriod, length_fixedDigits]
  · rw [Layout.parse, Moment.textMicros, Moment.text, List.append_assoc, List.cons_append,
      elements_date]
    rfl

/-! ### Accepted timestamps -/

variable {clock rest value' : Text} {separator : Char} {t' : Time}

lemma parse_of_tail (hclock : m.IsClock clock) (hlayout : ∀ c ∈ layout, ¬ c.2.IsDate)
    (hskip : skip [separator] false value = some (clock ++ rest))
    (htail : ∀ t : Time, ∃ t', tail layout t m.sec rest = some t') :
    ∃ t, (dateLayout ++ clockLayout separator ++ layout).parse (m.date ++ value) = some t := by
  obtain ⟨t', ht'⟩ := htail ⟨m.year, m.month, m.day, m.hour, m.min, 0, 0, 0⟩
  have hparse : Time.elements ⟨0, 1, 1, 0, 0, 0, 0, 0⟩
    (dateLayout ++ clockLayout separator ++ layout)
      (m.date ++ value) = some t' := by
    rw [List.append_assoc, elements_date, elements_clock hclock hskip]
    exact ht'
  obtain ⟨hyear, hmonth, hday⟩ : Time.SameDate
      ⟨m.year, m.month, m.day, m.hour, m.min, 0, 0, 0⟩ t' := by
    obtain ⟨r, hr, ht'⟩ := Option.bind_eq_some_iff.1 ht'
    obtain ⟨hyear, hmonth, hday⟩ := element_sameDate (by simp [Std.IsDate]) hr
    obtain ⟨hyear', hmonth', hday'⟩ := elements_sameDate hlayout ht'
    exact ⟨hyear'.trans hyear, hmonth'.trans hmonth, hday'.trans hday⟩
  refine ⟨t', ?_⟩
  rw [Layout.parse, hparse]
  refine if_pos ?_
  rw [hyear, hmonth, hday]
  exact m.day_mem

/-- A date at the front of the value. -/
lemma date_of_elements (h : t.elements (dateLayout ++ layout) value = some t') :
    ∃ year month day rest, year < 10000 ∧ (1 ≤ month ∧ month ≤ 12) ∧
      value = fixedDigits 4 year ++ '-' ::
        (fixedDigits 2 month ++ '-' :: fixedDigits 2 day) ++ rest ∧
      Time.elements { t with year, month, day } layout rest = some t' := by
  simp only [dateLayout, List.cons_append, List.nil_append, elements_cons_iff] at h
  obtain ⟨v, hv, r, hr, h⟩ := h
  cases hv
  obtain ⟨year, rest, hyear, rfl, rfl⟩ := element_longYear_iff.1 hr
  obtain ⟨v, hv, r, hr, h⟩ := h
  have hrest : rest = '-' :: v := (skip_char_iff (by decide)).1 hv
  obtain ⟨month, rest', hmonth, rfl, rfl⟩ := element_zeroMonth_iff.1 hr
  obtain ⟨v, hv', r, hr, h⟩ := h
  have hrest' : rest' = '-' :: v := (skip_char_iff (by decide)).1 hv'
  obtain ⟨day, rest'', -, rfl, rfl⟩ := element_zeroDay_iff.1 hr
  refine ⟨year, month, day, rest'', hyear, hmonth, ?_, h⟩
  rw [hrest, hrest']
  simp

/-- A time of the day at the front of the value. -/
lemma clock_of_elements (h : t.elements (clockLayout separator ++ layout) value = some t') :
    ∃ hour hourText min sec rest, hour < 24 ∧ IsShort hour hourText ∧ min < 60 ∧ sec < 60 ∧
      skip [separator] false value = some (hourText ++ ':' :: (fixedDigits 2 min ++
        ':' :: (fixedDigits 2 sec ++ rest))) ∧
      tail layout { t with hour, min } sec rest = some t' := by
  simp only [clockLayout, List.cons_append, List.nil_append, elements_cons_iff] at h
  obtain ⟨v, hskip, r, hr, h⟩ := h
  obtain ⟨hour, hourText, rest, hhour, hshort, rfl, rfl⟩ := isShort_of_element hr
  obtain ⟨v, hv, r, hr, h⟩ := h
  have hrest : rest = ':' :: v := (skip_char_iff (by decide)).1 hv
  obtain ⟨min, rest', hmin, rfl, rfl⟩ := element_zeroMinute_iff.1 hr
  obtain ⟨v, hv', r, hr, h⟩ := h
  have hrest' : rest' = ':' :: v := (skip_char_iff (by decide)).1 hv'
  obtain ⟨sec, rest'', hsec, rfl⟩ := fixedDigits_of_element hr
  rw [hrest, hrest'] at hskip
  exact ⟨hour, hourText, min, sec, rest'', hhour, hshort, hmin, hsec, hskip,
    Option.bind_eq_some_iff.2 ⟨r, hr, h⟩⟩

lemma tail_of_parse (hlayout : ∀ c ∈ layout, ¬ c.2.IsDate)
    (h : (dateLayout ++ clockLayout separator ++ layout).parse value = some t) :
    ∃ (m : Moment) (clock rest value' : Text) (t₀ : Time), m.IsClock clock ∧
      value = m.date ++ value' ∧ skip [separator] false value' = some (clock ++ rest) ∧
      tail layout t₀ m.sec rest = some t := by
  obtain ⟨t', h, hday⟩ := Option.bind_eq_some_iff.1 h
  split at hday
  · next hmem =>
    cases hday
    rw [List.append_assoc] at h
    obtain ⟨year, month, day, value', hyear, hmonth, hvalue, hrest⟩ := date_of_elements h
    have hclock : ∀ c ∈ clockLayout separator ++ layout, ¬ c.2.IsDate := by
      simp only [clockLayout, List.cons_append, List.nil_append, List.forall_mem_cons]
      exact ⟨by simp [Std.IsDate], by simp [Std.IsDate], by simp [Std.IsDate], hlayout⟩
    obtain ⟨hyear', hmonth', hday'⟩ := elements_sameDate hclock hrest
    rw [hyear', hmonth', hday'] at hmem
    obtain ⟨hour, hourText, min, sec, rest, hhour, hshort, hmin, hsec, hskip, htail⟩ :=
      clock_of_elements hrest
    refine ⟨⟨year, month, day, hour, min, sec, hyear, hmonth, hmem, hhour, hmin, hsec⟩, _, rest,
      value', _, ⟨hourText, hshort, rfl⟩, hvalue, ?_, htail⟩
    rw [hskip]
    simp
  · cases hday

/-! ### Behind the seconds -/

variable {sec : Nat}

/-- It may be left out. -/
def IsOptional (P : Text → Prop) (text : Text) : Prop := text = [] ∨ P text

/-- A fraction may be in front of what the layout accepts. -/
lemma tail_iff {Accepts : Text → Prop} (hsec : sec < 60)
    (hnext : layout.head?.map Prod.snd = none ∨ layout.head?.map Prod.snd = some .iso8601ColonTZ)
    (haccepts : ∀ (t : Time) text, (∃ t', t.elements layout text = some t') ↔ Accepts text)
    (hfraction : ∀ text, Accepts text → fraction text = none ∧ ¬ text.head?.any Char.isDigit) :
    (∃ t', tail layout t sec rest = some t') ↔
      ∃ text last, IsOptional IsFraction text ∧ Accepts last ∧ rest = text ++ last := by
  constructor
  · rintro ⟨t', h⟩
    obtain ⟨r, hr, h⟩ := Option.bind_eq_some_iff.1 h
    cases hrest : fraction rest with
    | none =>
      rw [element_zeroSecond hsec hrest] at hr
      cases hr
      exact ⟨[], rest, .inl rfl, (haccepts _ _).1 ⟨t', h⟩, rfl⟩
    | some x =>
      rw [element_zeroSecond_fraction hsec hrest hnext] at hr
      obtain ⟨nsec, -, rfl⟩ := Option.map_eq_some_iff.1 hr
      obtain ⟨text, htext, hvalue⟩ := isFraction_of_fraction hrest
      exact ⟨text, x.2, .inr htext, (haccepts _ _).1 ⟨t', h⟩, hvalue⟩
  · rintro ⟨text, last, rfl | htext, hlast, rfl⟩
    · obtain ⟨hnone, -⟩ := hfraction _ hlast
      rw [tail, element_zeroSecond hsec hnone]
      exact (haccepts _ _).2 hlast
    · obtain ⟨-, hdigit⟩ := hfraction last hlast
      obtain ⟨nsec, hsome⟩ := fraction_of_isFraction htext hdigit
      rw [tail, element_zeroSecond_fraction hsec hsome hnext]
      exact (haccepts _ _).2 hlast

lemma tail_nil_iff (hsec : sec < 60) :
    (∃ t', tail [] t sec rest = some t') ↔ IsOptional IsFraction rest := by
  have hempty : ∀ (t : Time) (text : Text), (∃ t', t.elements [] text = some t') ↔ text = [] := by
    intro t text
    simp [Time.elements]
  rw [tail_iff hsec (.inl rfl) hempty]
  · simp
  · rintro text rfl
    exact ⟨rfl, by simp⟩

lemma elements_zone_iff :
    (∃ t', t.elements [([], .iso8601ColonTZ)] rest = some t') ↔ IsZone rest := by
  simp only [elements_cons_iff, skip, Option.some.injEq, exists_eq_left', Time.element,
    Option.map_eq_some_iff]
  constructor
  · rintro ⟨t', r, ⟨⟨k, last⟩, hzone, rfl⟩, h⟩
    rw [Time.elements] at h
    split at h
    · next hlast =>
      obtain ⟨text, htext, hrest⟩ := isZone_of_zone hzone
      have hnil : last = [] := hlast
      rw [hrest, hnil, List.append_nil]
      exact htext
    · cases h
  · intro h
    obtain ⟨k, hzone⟩ : ∃ k, zone (rest ++ []) = some (k, []) := zone_of_isZone h
    rw [List.append_nil] at hzone
    exact ⟨_, _, ⟨(k, []), hzone, rfl⟩, rfl⟩

lemma fraction_zone (h : IsZone rest) : fraction rest = none ∧ ¬ rest.head?.any Char.isDigit := by
  rcases h with rfl | ⟨sign, hour, min, rfl | rfl, -, -, rfl⟩
  · exact ⟨rfl, by decide⟩
  · exact ⟨rfl, by simp⟩
  · exact ⟨rfl, by simp⟩

lemma tail_zone_iff (hsec : sec < 60) :
    (∃ t', tail [([], .iso8601ColonTZ)] t sec rest = some t') ↔
      ∃ text last, IsOptional IsFraction text ∧ IsZone last ∧ rest = text ++ last :=
  tail_iff hsec (.inr rfl) (fun _ _ => elements_zone_iff) fun _ => fraction_zone

/-- Fractions that the layout has are left to it. -/
lemma tail_next (hsec : sec < 60) (hnext : layout.head?.map Prod.snd = some .fracSecond9 ∨
    ∃ digits, layout.head?.map Prod.snd = some (.fracSecond0 digits)) :
    tail layout t sec rest = Time.elements { t with sec } layout rest := by
  rw [tail, element_zeroSecond_next hsec hnext, Option.bind_some]

/-- Nanoseconds in the layout accept nothing else. -/
lemma zone_of_tail_nano (hsec : sec < 60)
    (h : tail [([], .fracSecond9), ([], .iso8601ColonTZ)] t sec rest = some t') :
    ∃ text last, IsOptional IsFraction text ∧ IsZone last ∧ rest = text ++ last := by
  rw [tail_next hsec (.inl rfl), elements_cons_iff] at h
  obtain ⟨v, hv, r, hr, h⟩ := h
  cases hv
  have hzone := elements_zone_iff.1 ⟨t', h⟩
  rw [Time.element] at hr
  split at hr
  · cases hr
    exact ⟨[], rest, .inl rfl, hzone, rfl⟩
  · next nsec last hfraction =>
    obtain ⟨ns, -, rfl⟩ := Option.map_eq_some_iff.1 hr
    obtain ⟨text, htext, hrest⟩ := isFraction_of_fraction hfraction
    exact ⟨text, last, .inr htext, hzone, hrest⟩

/-- A comma or a period, a sign and five digits, zeros behind a minus. -/
def IsSigned (text : Text) : Prop :=
  ∃ c sign digits, commaOrPeriod c ∧ digits.length = 5 ∧ Digits digits ∧
    (sign = '+' ∨ sign = '-' ∧ digitsVal 0 digits = 0) ∧ text = c :: sign :: digits

/-- Microseconds in the layout accept six digits, or a sign for the first of them. -/
lemma fraction_of_tail_micros (hsec : sec < 60)
    (h : tail [([], .fracSecond0 6)] t sec rest = some t') : IsFraction rest ∨ IsSigned rest := by
  rw [tail_next hsec (.inr ⟨6, rfl⟩), elements_cons_iff] at h
  obtain ⟨v, hv, r, hr, h⟩ := h
  cases hv
  rw [Time.element] at hr
  split at hr
  · cases hr
  · next hlong =>
    obtain ⟨nsec, hnsec, rfl⟩ := Option.map_eq_some_iff.1 hr
    have hlen : rest.length = 7 := by
      rw [Time.elements] at h
      split at h
      · next hdrop =>
        have hdrop' : rest.length ≤ 7 := List.drop_eq_nil_iff.1 hdrop
        omega
      · cases h
    cases rest with
    | nil => cases hlen
    | cons c digits =>
      have hdigits : digits.length = 6 := by simpa using hlen
      rw [parseNanoseconds] at hnsec
      split at hnsec
      · next hc =>
        rw [List.take_of_length_le (by omega)] at hnsec
        split at hnsec
        · cases hnsec
        · next k hatoi =>
          split at hnsec
          · cases hnsec
          · next hk =>
            rcases atoi_eq_some hatoi with ⟨ds, rfl, hds, hval⟩ | ⟨ds, rfl, hds, hval⟩ | ⟨hds, -⟩
            · exact .inr ⟨c, '-', ds, hc, by simpa using hdigits, hds, .inr ⟨rfl, by omega⟩, rfl⟩
            · exact .inr ⟨c, '+', ds, hc, by simpa using hdigits, hds, .inl rfl, rfl⟩
            · exact .inl ⟨c, digits, hc, List.ne_nil_of_length_pos (by omega), hds, rfl⟩
      · cases hnsec

lemma tail_micros_of_isSigned (hsec : sec < 60) (h : IsSigned rest) :
    ∃ t', tail [([], .fracSecond0 6)] t sec rest = some t' := by
  rw [tail_next hsec (.inr ⟨6, rfl⟩)]
  obtain ⟨c, sign, digits, hc, hlen, hdigits, hsign, rfl⟩ := h
  have hall : digits.all Char.isDigit = true := List.all_eq_true.2 hdigits
  have hnsec : ∃ nsec, parseNanoseconds (c :: sign :: digits) 7 = some nsec := by
    rw [parseNanoseconds, if_pos hc, List.take_of_length_le (by simp [hlen])]
    rcases hsign with rfl | ⟨rfl, hval⟩
    · simp [atoi, hall]
    · simp [atoi, hall, hval]
  obtain ⟨nsec, hnsec⟩ := hnsec
  have hdrop : (c :: sign :: digits).drop 7 = [] := List.drop_eq_nil_of_le (by simp [hlen])
  refine ⟨_, elements_cons_iff.2 ⟨_, rfl, ({ t with sec, nsec }, []), ?_, rfl⟩⟩
  rw [Time.element, if_neg (by simp [hlen])]
  simp only [hnsec, hdrop]
  rfl

/-! ### The five formats together -/

/-- Date and time of the day with a `T` or spaces between them. The hour may have a single digit,
and a fraction and a zone may follow, but a zone only with `T`. -/
def IsAccepted (v : Text) : Prop :=
  ∃ (m : Moment) (clock rest : Text), m.IsClock clock ∧
    (v = m.date ++ 'T' :: (clock ++ rest) ∧
        ((∃ text last, IsOptional IsFraction text ∧ IsOptional IsZone last ∧ rest = text ++ last) ∨
          IsSigned rest) ∨
      ∃ spaces, IsSpaces spaces ∧ v = m.date ++ (spaces ++ (clock ++ rest)) ∧
        IsOptional IsFraction rest)

lemma isClock_ne_nil (h : m.IsClock clock) : clock ++ rest ≠ [] := by
  obtain ⟨hour, -, rfl⟩ := h
  simp

lemma head_ne_space (h : m.IsClock clock) : (clock ++ rest).head? ≠ some ' ' := by
  obtain ⟨hour, hhour, rfl⟩ := h
  obtain ⟨c, digits, hc, rfl⟩ := hhour.exists_cons
  intro hspace
  cases hspace
  cases hc

/-- The four formats with a `T`. -/
lemma tail_of_parse_T (hlayout : ∀ c ∈ layout, ¬ c.2.IsDate)
    (h : (dateLayout ++ clockLayout 'T' ++ layout).parse value = some t) :
    ∃ (m : Moment) (clock rest : Text) (t₀ : Time), m.IsClock clock ∧
      value = m.date ++ 'T' :: (clock ++ rest) ∧ tail layout t₀ m.sec rest = some t := by
  obtain ⟨m, clock, rest, value', t₀, hclock, hvalue, hskip, htail⟩ := tail_of_parse hlayout h
  have hT : value' = 'T' :: (clock ++ rest) := (skip_char_iff (by decide)).1 hskip
  rw [hT] at hvalue
  exact ⟨m, clock, rest, t₀, hclock, hvalue, htail⟩

/-- The fourth and the fifth format add texts of their own to those with a `T`. -/
lemma isAccepted_of_parse (hlayout : layout ∈ formats) (h : layout.parse value = some t) :
    IsAccepted value := by
  have hnil : ∀ c ∈ ([] : Layout), ¬ c.2.IsDate := by simp
  simp only [formats, List.mem_cons, List.not_mem_nil, or_false] at hlayout
  rcases hlayout with rfl | rfl | rfl | rfl | rfl
  · obtain ⟨m, clock, rest, t₀, hclock, rfl, htail⟩ := tail_of_parse_T (by simp [Std.IsDate]) h
    obtain ⟨text, last, htext, hlast, rfl⟩ := (tail_zone_iff m.sec_lt).1 ⟨t, htail⟩
    exact ⟨m, clock, _, hclock, .inl ⟨rfl, .inl ⟨text, last, htext, .inr hlast, rfl⟩⟩⟩
  · obtain ⟨m, clock, rest, t₀, hclock, rfl, htail⟩ := tail_of_parse_T (by simp [Std.IsDate]) h
    obtain ⟨text, last, htext, hlast, rfl⟩ := zone_of_tail_nano m.sec_lt htail
    exact ⟨m, clock, _, hclock, .inl ⟨rfl, .inl ⟨text, last, htext, .inr hlast, rfl⟩⟩⟩
  · obtain ⟨m, clock, rest, t₀, hclock, rfl, htail⟩ :=
      tail_of_parse_T hnil (by rwa [List.append_nil])
    have hrest := (tail_nil_iff m.sec_lt).1 ⟨t, htail⟩
    exact ⟨m, clock, rest, hclock,
      .inl ⟨rfl, .inl ⟨rest, [], hrest, .inl rfl, (List.append_nil rest).symm⟩⟩⟩
  · obtain ⟨m, clock, rest, t₀, hclock, rfl, htail⟩ := tail_of_parse_T (by simp [Std.IsDate]) h
    rcases fraction_of_tail_micros m.sec_lt htail with hrest | hrest
    · exact ⟨m, clock, rest, hclock,
        .inl ⟨rfl, .inl ⟨rest, [], .inr hrest, .inl rfl, (List.append_nil rest).symm⟩⟩⟩
    · exact ⟨m, clock, rest, hclock, .inl ⟨rfl, .inr hrest⟩⟩
  · obtain ⟨m, clock, rest, v, t₀, hclock, rfl, hskip, htail⟩ :=
      tail_of_parse hnil (by rwa [List.append_nil])
    obtain ⟨spaces, hspaces, rfl, -⟩ := (skip_space_iff (isClock_ne_nil hclock)).1 hskip
    exact ⟨m, clock, rest, hclock,
      .inr ⟨spaces, hspaces, rfl, (tail_nil_iff m.sec_lt).1 ⟨t, htail⟩⟩⟩

lemma parse_of_isAccepted (h : IsAccepted value) :
    ∃ layout ∈ formats, ∃ t, layout.parse value = some t := by
  have hnil : ∀ c ∈ ([] : Layout), ¬ c.2.IsDate := by simp
  obtain ⟨m, clock, rest, hclock, ⟨rfl, hrest⟩ | ⟨spaces, hspaces, rfl, hrest⟩⟩ := h
  · have hskip : skip ['T'] false ('T' :: (clock ++ rest)) = some (clock ++ rest) :=
      skip_char (by decide)
    rcases hrest with ⟨text, last, htext, rfl | hlast, rfl⟩ | hsigned
    · rw [List.append_nil] at hskip ⊢
      have hparse := parse_of_tail hclock hnil hskip fun _ => (tail_nil_iff m.sec_lt).2 htext
      rw [List.append_nil] at hparse
      exact ⟨_, by simp [formats], hparse⟩
    · exact ⟨RFC3339, by simp [formats], parse_of_tail hclock (by simp [Std.IsDate]) hskip
        fun _ => (tail_zone_iff m.sec_lt).2 ⟨text, last, htext, hlast, rfl⟩⟩
    · exact ⟨dateLayout ++ clockLayout 'T' ++ [([], .fracSecond0 6)], by simp [formats],
        parse_of_tail hclock (by simp [Std.IsDate]) hskip
          fun _ => tail_micros_of_isSigned m.sec_lt hsigned⟩
  · have hskip : skip [' '] false (spaces ++ (clock ++ rest)) = some (clock ++ rest) :=
      (skip_space_iff (isClock_ne_nil hclock)).2 ⟨spaces, hspaces, rfl, head_ne_space hclock⟩
    have hparse := parse_of_tail hclock hnil hskip fun _ => (tail_nil_iff m.sec_lt).2 hrest
    rw [List.append_nil] at hparse
    exact ⟨_, by simp [formats], hparse⟩

lemma findSome_eq_none_iff : formats.findSome? (·.parse value) = none ↔ ¬ IsAccepted value := by
  rw [List.findSome?_eq_none_iff]
  constructor
  · intro h haccepted
    obtain ⟨layout, hlayout, t, ht⟩ := parse_of_isAccepted haccepted
    rw [h layout hlayout] at ht
    cases ht
  · intro h layout hlayout
    cases hparse : layout.parse value with
    | none => rfl
    | some t => exact absurd (isAccepted_of_parse hlayout hparse) h

end TiPI.Auditor
