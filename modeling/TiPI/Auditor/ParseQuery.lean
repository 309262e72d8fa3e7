import TiPI.Auditor.Timestamps

/-!
# Reading a query

Where `parseQuery` follows the rules.
-/

namespace TiPI.Auditor

variable {m : Moment} {t : Time}

/-! ### What is read -/

/-- The timestamp under a key, the zero one if there is none. -/
def timeOf (v : Text) : Option Time :=
  if v = [] then some .zero else formats.findSome? (·.parse v)

def listOf (v : Text) : List Text := if v = [] then [] else v.splitOn ','

def intsOf (v : Text) : Option (List ℤ) :=
  (listOf v).mapM fun s => (parseInt 1 s).toOption

variable {query : Values} {key : String} {req : GetEventsQueryRequest}

lemma queryTime_eq {set : Time → GetEventsQueryRequest} (hset : set .zero = req) :
    (queryTime query key set req).toOption = (timeOf (query.get key)).map set := by
  unfold queryTime timeOf parseTimestamp
  split
  · rw [Option.map_some, hset]
    rfl
  · cases formats.findSome? (·.parse (query.get key)) <;> rfl

lemma queryList_eq {set : List Text → GetEventsQueryRequest} (hset : set [] = req) :
    queryList query key set req = set (listOf (query.get key)) := by
  unfold queryList listOf
  split
  · rw [hset]
  · rfl

lemma appendInts_eq {set : List ℤ → GetEventsQueryRequest} {ss : List Text} {rs : List ℤ} :
    (appendInts set ss rs).toOption =
      (ss.mapM fun s => (parseInt 1 s).toOption).map fun rs' => set (rs ++ rs') := by
  induction ss generalizing rs with
  | nil => simp [appendInts, Except.toOption]
  | cons s ss ih =>
    rw [appendInts, List.mapM_cons]
    cases parseInt 1 s with
    | error e => rfl
    | ok r =>
      simp only [ih]
      cases List.mapM (fun s => (parseInt 1 s).toOption) ss <;> simp [Except.toOption]

lemma queryInts_eq {set : List ℤ → GetEventsQueryRequest} (hset : set [] = req) :
    (queryInts query key set req).toOption = (intsOf (query.get key)).map set := by
  unfold queryInts intsOf listOf
  split
  · simp [hset, Except.toOption]
  · exact appendInts_eq

lemma toOption_bind {ε α β : Type} (x : Except ε α) (f : α → Except ε β) :
    (x >>= f).toOption = x.toOption.bind fun a => (f a).toOption := by
  cases x <;> rfl

/-- The keys are read one by one, and the request is what they are read as. -/
lemma parseQuery_eq : (parseQuery query).toOption =
    (timeOf (query.get "ev_ts_start")).bind fun ts_start =>
      (timeOf (query.get "ev_ts_end")).bind fun ts_end =>
        (timeOf (query.get "ev_ts")).bind fun ts =>
          (intsOf (query.get "ev_session_id")).bind fun session_id =>
            (intsOf (query.get "ev_req_id")).map fun req_id =>
              ⟨ts_start, ts_end, ts, listOf (query.get "ev_component"),
                listOf (query.get "ev_user"),
                listOf (query.get "ev_op"), session_id, req_id⟩ := by
  simp only [parseQuery, toOption_bind]
  rw [queryTime_eq rfl, Option.bind_map]
  refine congrArg _ (funext fun ts_start => ?_)
  rw [Function.comp, queryTime_eq rfl, Option.bind_map]
  refine congrArg _ (funext fun ts_end => ?_)
  rw [Function.comp, queryTime_eq rfl, Option.bind_map]
  refine congrArg _ (funext fun ts => ?_)
  rw [Function.comp, queryList_eq rfl, queryList_eq rfl, queryList_eq rfl, queryInts_eq rfl,
    Option.bind_map]
  refine congrArg _ (funext fun session_id => ?_)
  rw [Function.comp, queryInts_eq rfl]

lemma toOption_eq_some_iff {ε α : Type} {x : Except ε α} {a : α} :
    x.toOption = some a ↔ x = .ok a := by
  cases x <;> simp [Except.toOption]

lemma toOption_eq_none_iff {ε α : Type} {x : Except ε α} :
    x.toOption = none ↔ ∃ e, x = .error e := by
  cases x <;> simp [Except.toOption]

/-- The query is read as the request. -/
lemma parseQuery_eq_ok_iff : parseQuery query = .ok req ↔
    (timeOf (query.get "ev_ts_start") = some req.Ts_start ∧
      timeOf (query.get "ev_ts_end") = some req.Ts_end ∧
      timeOf (query.get "ev_ts") = some req.Ts) ∧
    (listOf (query.get "ev_component") = req.Component ∧
      listOf (query.get "ev_user") = req.User ∧
      listOf (query.get "ev_op") = req.Op) ∧
    intsOf (query.get "ev_session_id") = some req.Session_id ∧
      intsOf (query.get "ev_req_id") = some req.Req_id := by
  rw [← toOption_eq_some_iff, parseQuery_eq]
  simp only [Option.bind_eq_some_iff, Option.map_eq_some_iff]
  constructor
  · rintro ⟨ts_start, hstart, ts_end, hend, ts, hts, session_id, hsession, req_id, hreq, rfl⟩
    exact ⟨⟨hstart, hend, hts⟩, ⟨rfl, rfl, rfl⟩, hsession, hreq⟩
  · rintro ⟨⟨hstart, hend, hts⟩, ⟨hcomponent, huser, hop⟩, hsession, hreq⟩
    refine ⟨_, hstart, _, hend, _, hts, _, hsession, _, hreq, ?_⟩
    rw [hcomponent, huser, hop]

lemma parseQuery_eq_error_iff : (∃ e, parseQuery query = .error e) ↔
    (∃ key ∈ ["ev_ts_start", "ev_ts_end", "ev_ts"], timeOf (query.get key) = none) ∨
      ∃ key ∈ ["ev_session_id", "ev_req_id"], intsOf (query.get key) = none := by
  rw [← toOption_eq_none_iff, parseQuery_eq]
  simp only [List.exists_mem_cons_iff, List.not_mem_nil, false_and, exists_false, or_false]
  cases timeOf (query.get "ev_ts_start") with
  | none => simp
  | some ts_start =>
    cases timeOf (query.get "ev_ts_end") with
    | none => simp
    | some ts_end =>
      cases timeOf (query.get "ev_ts") with
      | none => simp
      | some ts =>
        cases intsOf (query.get "ev_session_id") <;> simp

lemma timeOf_eq_none_iff {v : Text} : timeOf v = none ↔ v ≠ [] ∧ ¬ IsAccepted v := by
  unfold timeOf
  split
  · next hv => simp [hv]
  · next hv => rw [findSome_eq_none_iff, and_iff_right hv]

lemma mapM_eq_some_iff {α β : Type} {f : α → Option β} {as : List α} {bs : List β} :
    as.mapM f = some bs ↔ List.Forall₂ (fun a b => f a = some b) as bs := by
  induction as generalizing bs with
  | nil => cases bs <;> simp
  | cons a as ih =>
    rw [List.mapM_cons]
    cases bs with
    | nil => simp [Option.bind_eq_some_iff]
    | cons b bs => simp [Option.bind_eq_some_iff, ih]

lemma mapM_eq_none_iff {α β : Type} {f : α → Option β} {as : List α} :
    as.mapM f = none ↔ ∃ a ∈ as, f a = none := by
  induction as with
  | nil => simp
  | cons a as ih =>
    rw [List.mapM_cons, List.exists_mem_cons_iff, ← ih]
    cases f a <;> cases as.mapM f <;> simp

/-! ### Queries that keep the rules -/

variable {values : List Text}

lemma timeOf_given (h : Given IsTimestamp .zero (query key) t) :
    timeOf (query.get key) = some t ↔ ∀ text ∈ query key, ∃ m : Moment, text = m.text := by
  rcases h with ⟨hvalues, rfl⟩ | ⟨text, hvalues, htext⟩
  · simp [timeOf, Values.get, hvalues]
  · have hget : query.get key = text := by rw [Values.get, hvalues, List.headD_cons]
    rw [hget, hvalues]
    simp only [List.mem_singleton, forall_eq]
    rcases htext with ⟨m, rfl, rfl⟩ | ⟨m, micros, -, rfl, rfl⟩
    · have hne : m.text ≠ [] := by simp [Moment.text]
      rw [timeOf, if_neg hne, findSome_text]
      exact ⟨fun _ => ⟨m, rfl⟩, fun _ => rfl⟩
    · have hne : m.textMicros micros ≠ [] := by simp [Moment.textMicros]
      have hnone : formats.findSome? (·.parse (m.textMicros micros)) = none :=
        List.findSome?_eq_none_iff.2 fun layout h => parse_textMicros h
      rw [timeOf, if_neg hne, hnone]
      constructor
      · intro h
        cases h
      · rintro ⟨m', hm'⟩
        rw [hm', findSome_text] at hnone
        cases hnone

lemma listOf_of_isList {text : Text} {l : List Text} (h : IsList text l) : listOf text = l := by
  obtain ⟨hne, hitems, rfl⟩ := h
  have hsplit : ([','].intercalate l).splitOn ',' = l :=
    List.splitOn_intercalate ',' (fun s hs => (hitems s hs).2) hne
  have htext : [','].intercalate l ≠ [] := by
    intro hnil
    rw [hnil] at hsplit
    rw [← hsplit] at hitems
    exact (hitems [] (by simp)).1 rfl
  rw [listOf, if_neg htext, hsplit]

lemma listOf_given {l : List Text} (h : Given IsList [] (query key) l) :
    listOf (query.get key) = l := by
  rcases h with ⟨hvalues, rfl⟩ | ⟨text, hvalues, htext⟩
  · simp [listOf, Values.get, hvalues]
  · rw [Values.get, hvalues, List.headD_cons, listOf_of_isList htext]

/-- One bit holds `0` and `-1`. -/
lemma parseInt_one {s : Text} {n : ℤ} (h : IsInt64 s n) :
    parseInt 1 s = .ok n ↔ n = 0 ∨ n = -1 := by
  constructor
  · intro hparse
    have hfits := parseInt_fits hparse
    simp only [Nat.sub_self, pow_zero] at hfits
    omega
  · intro hn
    apply parseInt_of_isNumeral h.1 one_pos <;> simp only [Nat.sub_self, pow_zero] <;> omega

/-- A number of zeros, or a minus and digits: all of the text, or as many as take the number beyond
`1`. -/
def IsBit (s : Text) : Prop :=
  (∃ digits, digits ≠ [] ∧ Digits digits ∧ digitsVal 0 digits = 0 ∧
    (s = digits ∨ s = '+' :: digits)) ∨
    ∃ digits, digits ≠ [] ∧ Runs 1 digits 0 ∧ s = '-' :: digits

lemma signed_false_ok_iff {digits : Text} : (∃ n, signed 1 false (parseUint 1 digits) = .ok n) ↔
    digits ≠ [] ∧ Digits digits ∧ digitsVal 0 digits = 0 := by
  rw [signed_ok_iff]
  constructor
  · rintro ⟨herrs, hlt, -⟩
    obtain ⟨hne, -⟩ := parseUint_errSyntax_iff.1 herrs
    have hzero : (parseUint 1 digits).1 < 1 := hlt rfl
    rw [parseUint, if_neg hne] at herrs hzero
    obtain ⟨hdigits, hval⟩ := digits_of_parseUintLoop_lt herrs hzero
    exact ⟨hne, hdigits, by omega⟩
  · rintro ⟨hne, hdigits, hval⟩
    rw [parseUint_of_le hne hdigits (by omega), hval]
    simp

lemma signed_true_ok_iff {digits : Text} : (∃ n, signed 1 true (parseUint 1 digits) = .ok n) ↔
    digits ≠ [] ∧ Runs 1 digits 0 := by
  have hle : (parseUint 1 digits).1 ≤ 1 := by
    unfold parseUint
    split
    · exact Nat.zero_le _
    · exact parseUintLoop_le (Nat.zero_le _)
  rw [signed_ok_iff, parseUint_errSyntax_iff]
  simp [hle]

lemma parseInt_ok_iff {s : Text} : (∃ n, parseInt 1 s = .ok n) ↔ IsBit s := by
  unfold parseInt
  split
  · next digits =>
    rw [signed_true_ok_iff]
    constructor
    · rintro ⟨hne, hruns⟩
      exact .inr ⟨digits, hne, hruns, rfl⟩
    · rintro (⟨_, -, hdigits, -, rfl | heq⟩ | ⟨_, hne, hruns, heq⟩)
      · cases hdigits '-' List.mem_cons_self
      · cases heq
      · cases heq
        exact ⟨hne, hruns⟩
  · next digits =>
    rw [signed_false_ok_iff]
    constructor
    · rintro ⟨hne, hdigits, hval⟩
      exact .inl ⟨digits, hne, hdigits, hval, .inr rfl⟩
    · rintro (⟨_, hne, hdigits, hval, rfl | heq⟩ | ⟨_, -, -, heq⟩)
      · cases hdigits '+' List.mem_cons_self
      · cases heq
        exact ⟨hne, hdigits, hval⟩
      · cases heq
  · next hminus hplus =>
    rw [signed_false_ok_iff]
    constructor
    · rintro ⟨hne, hdigits, hval⟩
      exact .inl ⟨s, hne, hdigits, hval, .inl rfl⟩
    · rintro (⟨digits, hne, hdigits, hval, rfl | heq⟩ | ⟨digits, -, -, heq⟩)
      · exact ⟨hne, hdigits, hval⟩
      · exact absurd heq (hplus digits)
      · exact absurd heq (hminus digits)

lemma intsOf_eq_none_iff {v : Text} :
    intsOf v = none ↔ v ≠ [] ∧ ∃ s ∈ v.splitOn ',', ¬ IsBit s := by
  have hrefused : ∀ s, (parseInt 1 s).toOption = none ↔ ¬ IsBit s := by
    intro s
    rw [← parseInt_ok_iff]
    cases parseInt 1 s <;> simp [Except.toOption]
  rw [intsOf, mapM_eq_none_iff]
  simp only [hrefused]
  unfold listOf
  split
  · next hv => simp [hv]
  · next hv => rw [and_iff_right hv]

lemma intsOf_given {ns : List ℤ} (h : Given IsInts [] (query key) ns) :
    intsOf (query.get key) = some ns ↔ ∀ n ∈ ns, n = 0 ∨ n = -1 := by
  rcases h with ⟨hvalues, rfl⟩ | ⟨text, hvalues, l, hlist, hints⟩
  · simp [intsOf, listOf, Values.get, hvalues]
  · rw [Values.get, hvalues, List.headD_cons, intsOf, listOf_of_isList hlist, mapM_eq_some_iff]
    clear hvalues hlist
    induction hints with
    | nil => simp
    | cons hint hints ih =>
      rw [List.forall₂_cons, List.forall_mem_cons, ih, toOption_eq_some_iff, parseInt_one hint]

/-- The timestamps are given without microseconds, and the numbers fit into one bit. -/
def Covered (query : Values) (req : GetEventsQueryRequest) : Prop :=
  (∀ key ∈ ["ev_ts_start", "ev_ts_end", "ev_ts"], ∀ text ∈ query key, ∃ m : Moment, text = m.text) ∧
    ∀ n ∈ req.Session_id ++ req.Req_id, n = 0 ∨ n = -1

lemma parseQuery_of_keeps (h : Keeps query req) :
    parseQuery query = .ok req ↔ Covered query req := by
  rw [parseQuery_eq_ok_iff, timeOf_given h.ts_start, timeOf_given h.ts_end, timeOf_given h.ts,
    intsOf_given h.session_id, intsOf_given h.req_id]
  simp only [listOf_given h.component, listOf_given h.user, listOf_given h.op, Covered,
    List.forall_mem_cons, List.forall_mem_append, List.not_mem_nil, false_imp_iff, implies_true,
    and_true, true_and]

/-- A timestamp is none that the formats accept, or a number is none of one bit. -/
def Refused (query : Values) : Prop :=
  (∃ key ∈ ["ev_ts_start", "ev_ts_end", "ev_ts"],
    query.get key ≠ [] ∧ ¬ IsAccepted (query.get key)) ∨
  ∃ key ∈ ["ev_session_id", "ev_req_id"],
    query.get key ≠ [] ∧ ∃ s ∈ (query.get key).splitOn ',', ¬ IsBit s

lemma parseQuery_error_iff : (∃ e, parseQuery query = .error e) ↔ Refused query := by
  simp only [parseQuery_eq_error_iff, Refused, timeOf_eq_none_iff, intsOf_eq_none_iff]

/-- A query that keeps the rules is read as it should be, and one that does not is an error,
precisely for these. -/
theorem parseQuery_follows_iff (query : Values) :
    ((∀ req, Keeps query req → parseQuery query = .ok req) ∧
        ((∀ req, ¬ Keeps query req) → ∃ e, parseQuery query = .error e)) ↔
      (∀ req, Keeps query req → Covered query req) ∧
        ((∀ req, ¬ Keeps query req) → Refused query) := by
  rw [parseQuery_error_iff]
  refine and_congr_left fun _ => forall_congr' fun req => forall_congr' fun h => ?_
  exact parseQuery_of_keeps h

/-- One number, `5`. -/
def sessionQuery : Values := fun key => if key = "ev_session_id" then [['5']] else []

/-- A day for `ev_ts` and for `ev_ts_start`. -/
def bothQuery : Values := fun key =>
  if key = "ev_ts" ∨ key = "ev_ts_start" then ["2024-01-01T00:00:00".toList] else []

lemma keeps_sessionQuery : Keeps sessionQuery ⟨.zero, .zero, .zero, [], [], [], [5], []⟩ where
  ts_start := .inl ⟨by decide, rfl⟩
  ts_end := .inl ⟨by decide, rfl⟩
  ts := .inl ⟨by decide, rfl⟩
  exclusive h := absurd (by decide) h
  component := .inl ⟨by decide, rfl⟩
  user := .inl ⟨by decide, rfl⟩
  op := .inl ⟨by decide, rfl⟩
  session_id := by
    have hfive : IsNumeral ['5'] 5 :=
      ⟨['5'], by simp, by simp [Digits], .inl ⟨.inl rfl, by decide +kernel⟩⟩
    exact .inr ⟨['5'], by decide, [['5']], ⟨by simp, by simp, rfl⟩,
      .cons ⟨hfive, by norm_num, by norm_num⟩ .nil⟩
  req_id := .inl ⟨by decide, rfl⟩

theorem parseQuery_not_follows :
    (∃ req, Keeps sessionQuery req ∧ parseQuery sessionQuery ≠ .ok req) ∧
      (∀ req, ¬ Keeps bothQuery req) ∧ ∃ req, parseQuery bothQuery = .ok req := by
  refine ⟨⟨_, keeps_sessionQuery, by decide +kernel⟩, ?_, ?_⟩
  · intro req h
    exact absurd (h.exclusive (by decide)).1 (by decide)
  · let day : Time := ⟨2024, 1, 1, 0, 0, 0, 0, 0⟩
    exact ⟨⟨day, .zero, day, [], [], [], [], []⟩, by decide +kernel⟩

end TiPI.Auditor
