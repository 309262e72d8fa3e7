import TiPI.Auditor.Metrics
import Mathlib.Data.BitVec
import Mathlib.Data.List.GetD

/-!
# What the middleware counts

No request is counted twice or forgotten, however the requests overlap, and one whose handler panics
is not counted at all. The status that is counted is the last one the handler has written, the one
that is sent is the first.
-/

namespace TiPI.Auditor

/-! ### One request -/

/-- The status a handler has written last. -/
def lastStatus (calls : List WriterCall) : Nat :=
  calls.foldl (fun status c => match c with
    | .WriteHeader status => status
    | .Write _ => status) 200

/-- What has been sent for a handler. -/
def sent (calls : List WriterCall) : Wire :=
  calls.foldl (fun w c => match c with
    | .WriteHeader status => w.writeHeader status
    | .Write b => (w.write b).1) .empty

/-- A handler that writes the header first and once. -/
def Responds (status : Nat) (calls : List WriterCall) : Prop :=
  Wire.informational status = false ∧
  ∃ bs : List (List UInt8), calls = .WriteHeader status :: bs.map .Write

lemma length_write (w : Wire) (b : List UInt8) :
    (w.write b).1.body.length = w.body.length + (w.write b).2 := by
  have hbody : (w.writeHeader 200).body = w.body := by
    unfold Wire.writeHeader
    split_ifs <;> rfl
  simp only [Wire.write]
  split_ifs
  · simp [hbody]
  · simp [hbody]

/-- A status that has been sent stays. -/
lemma status_write {w : Wire} {status : Nat} (h : w.status = some status) (b : List UInt8) :
    (w.write b).1.status = some status := by
  have hheader : w.writeHeader 200 = w := by simp [Wire.writeHeader, h]
  simp only [Wire.write, hheader]
  split_ifs <;> exact h

lemma Responds.recorded {status : Nat} {calls : List WriterCall} (h : Responds status calls) :
    lastStatus calls = status ∧ (sent calls).status = some status := by
  obtain ⟨hfinal, bs, rfl⟩ := h
  have hfirst : (Wire.empty.writeHeader status).status = some status := by
    simp [Wire.writeHeader, Wire.empty, hfinal]
  simp only [lastStatus, sent, List.foldl_cons, List.foldl_map]
  constructor
  · exact List.foldl_fixed' (fun _ => rfl) bs
  · generalize Wire.empty.writeHeader status = w at hfirst
    induction bs generalizing w with
    | nil => exact hfirst
    | cons b bs ih => exact ih _ (status_write hfirst b)

namespace ServedRequest

variable {r : ServedRequest}

/-- The calls that are still to come. -/
def rest (r : ServedRequest) : List WriterCall :=
  match r.pc with
  | .handler calls => calls
  | _ => []

/-- The handler has returned, and nothing has panicked since. -/
def behind : Serving → Bool
  | .log | .withLabelValues | .incrementRequests | .loadOrStore | .add _ | .returned => true
  | _ => false

/-- The labels have been accepted. -/
def labelled : Serving → Bool
  | .incrementRequests | .loadOrStore | .add _ | .returned => true
  | _ => false

def logged (r : ServedRequest) : Bool :=
  match r.pc with
  | .handler _ | .log => false
  | .recover | .recovered => !r.panics
  | _ => true

def counted (r : ServedRequest) : Bool :=
  match r.pc with
  | .loadOrStore | .add _ | .returned => true
  | _ => false

/-- The writers have taken down what the handler has done so far. -/
structure Sound (r : ServedRequest) (done : List WriterCall) : Prop where
  calls : r.calls = done ++ r.rest
  mrwStatus : r.mrwStatus = lastStatus done
  rwStatus : r.rwStatus = lastStatus done
  rwSize : r.rwSize = (sent done).body.length
  wire : r.pc ≠ .recovered → r.wire = sent done
  recovered : r.pc = .recovered →
    r.wire = (((sent done).writeHeader 500).write internalServerError).1
  behind : behind r.pc = true → r.panics = false
  labelled : labelled r.pc = true → r.validLabels = true
  panicked : r.pc = .recover ∨ r.pc = .recovered → r.panics = true ∨ r.validLabels = false

lemma sound_init (path : List UInt8) (calls : List WriterCall) (panics : Bool) :
    (init path calls panics).Sound [] where
  calls := rfl
  mrwStatus := rfl
  rwStatus := rfl
  rwSize := rfl
  wire := fun _ => rfl
  recovered := by simp [init]
  behind := by simp [init, ServedRequest.behind]
  labelled := by simp [init, ServedRequest.labelled]
  panicked := by simp [init]

lemma Sound.call {done calls : List WriterCall} {c : WriterCall} (h : r.Sound done)
    (hpc : r.pc = .handler (c :: calls)) :
    Sound { r.call c with pc := .handler calls } (done ++ [c]) := by
  have hcalls := h.calls
  have hwire := h.wire (by simp [hpc])
  rw [rest, hpc] at hcalls
  cases c with
  | WriteHeader status =>
    have hbody : (r.wire.writeHeader status).body = r.wire.body := by
      unfold Wire.writeHeader
      split_ifs <;> rfl
    exact {
      calls := by simpa [ServedRequest.call, rest] using hcalls
      mrwStatus := by simp [ServedRequest.call, lastStatus]
      rwStatus := by simp [ServedRequest.call, lastStatus]
      rwSize := by
        have hsent : sent (done ++ [.WriteHeader status]) = r.wire.writeHeader status := by
          simp [sent, hwire]
        rw [hsent, hbody, hwire]
        exact h.rwSize
      wire := fun _ => by simp [ServedRequest.call, sent, hwire]
      recovered := by simp
      behind := by simp [ServedRequest.behind]
      labelled := by simp [ServedRequest.labelled]
      panicked := by simp }
  | Write b =>
    exact {
      calls := by simpa [ServedRequest.call, rest] using hcalls
      mrwStatus := by simpa [ServedRequest.call, lastStatus] using h.mrwStatus
      rwStatus := by simpa [ServedRequest.call, lastStatus] using h.rwStatus
      rwSize := by
        have hsent : sent (done ++ [.Write b]) = (r.wire.write b).1 := by simp [sent, hwire]
        have hbody : r.rwSize = r.wire.body.length := by
          rw [hwire]
          exact h.rwSize
        rw [hsent, length_write, ← hbody]
        rfl
      wire := fun _ => by simp [ServedRequest.call, sent, hwire]
      recovered := by simp
      behind := by simp [ServedRequest.behind]
      labelled := by simp [ServedRequest.labelled]
      panicked := by simp }

lemma rest_of_behind (h : behind r.pc = true) :
    r.rest = [] ∧ r.pc ≠ .recover ∧ r.pc ≠ .recovered := by
  unfold behind at h
  unfold rest
  cases hpc : r.pc <;> simp [hpc] at h ⊢

/-- Behind the handler nothing is written but by `Recoverer`. -/
lemma Sound.goOn {done : List WriterCall} {pc : Serving} (h : r.Sound done)
    (hbehind : ServedRequest.behind r.pc = true) (hbehind' : ServedRequest.behind pc = true)
    (hlabels : ServedRequest.labelled pc = true → r.validLabels = true) :
    Sound { r with pc := pc } done := by
  obtain ⟨hrest, -, hpc⟩ := rest_of_behind hbehind
  obtain ⟨hrest', hrecover, hrecovered⟩ :=
    rest_of_behind (r := { r with pc := pc }) hbehind'
  have hcalls := h.calls
  rw [hrest] at hcalls
  exact ⟨by rw [hrest']; exact hcalls, h.mrwStatus, h.rwStatus, h.rwSize, fun _ => h.wire hpc,
    fun h => absurd h hrecovered, fun _ => h.behind hbehind, hlabels,
    fun h => absurd h (not_or.2 ⟨hrecover, hrecovered⟩)⟩

/-- A panic behind the handler, or in it. -/
lemma Sound.panic {done : List WriterCall} (h : r.Sound done) (hrest : r.rest = [])
    (hpc : r.pc ≠ .recovered) (hpanic : r.panics = true ∨ r.validLabels = false) :
    Sound { r with pc := .recover } done := by
  have hcalls := h.calls
  rw [hrest] at hcalls
  exact ⟨hcalls, h.mrwStatus, h.rwStatus, h.rwSize, fun _ => h.wire hpc, by simp,
    by simp [ServedRequest.behind], by simp [ServedRequest.labelled], fun _ => hpanic⟩

lemma behind_of_labelled {pc : Serving} (h : labelled pc = true) : behind pc = true := by
  unfold labelled at h
  cases pc <;> simp [behind] at h ⊢

/-- Behind the labels nothing panics. -/
lemma Sound.pass {done : List WriterCall} {pc : Serving} (h : r.Sound done)
    (hlabelled : ServedRequest.labelled r.pc = true)
    (hlabelled' : ServedRequest.labelled pc = true) : Sound { r with pc := pc } done :=
  h.goOn (behind_of_labelled hlabelled) (behind_of_labelled hlabelled') fun _ =>
    h.labelled hlabelled

/-- The handler returns or panics. -/
lemma Sound.leave {done : List WriterCall} (h : r.Sound done) (hpc : r.pc = .handler []) :
    Sound { r with pc := if r.panics then .recover else .log } done := by
  have hrest : r.rest = [] := by rw [rest, hpc]
  have hne : r.pc ≠ .recovered := by simp [hpc]
  have hcalls := h.calls
  rw [hrest] at hcalls
  by_cases hpanics : r.panics = true
  · rw [if_pos hpanics]
    exact h.panic hrest hne (.inl hpanics)
  · rw [if_neg hpanics]
    exact ⟨hcalls, h.mrwStatus, h.rwStatus, h.rwSize, fun _ => h.wire hne, by simp,
      fun _ => Bool.eq_false_iff.2 hpanics, by simp [ServedRequest.labelled], by simp⟩

/-- The labels are accepted, or there is a panic. -/
lemma Sound.label {done : List WriterCall} (h : r.Sound done) (hpc : r.pc = .withLabelValues) :
    Sound { r with pc := if r.validLabels then .incrementRequests else .recover } done := by
  have hbehind : ServedRequest.behind r.pc = true := by rw [hpc]; rfl
  cases hvalid : r.validLabels with
  | true => exact h.goOn hbehind rfl fun _ => hvalid
  | false => exact h.panic (rest_of_behind hbehind).1 (rest_of_behind hbehind).2.2 (.inr hvalid)

lemma Sound.recover {done : List WriterCall} (h : r.Sound done) (hpc : r.pc = .recover) :
    r.recover.Sound done := by
  have hcalls := h.calls
  rw [rest, hpc] at hcalls
  have hwire := h.wire (by simp [hpc])
  exact ⟨hcalls, h.mrwStatus, h.rwStatus, h.rwSize, by simp [ServedRequest.recover],
    fun _ => by rw [← hwire]; rfl, by simp [ServedRequest.recover, ServedRequest.behind],
    by simp [ServedRequest.recover, ServedRequest.labelled], fun _ => h.panicked (.inl hpc)⟩

variable {done : List WriterCall}

/-- A handler that has ended has made all its calls. -/
lemma Sound.all_calls (h : r.Sound done) (hrest : r.rest = []) : done = r.calls := by
  have hcalls := h.calls
  rw [hrest, List.append_nil] at hcalls
  exact hcalls.symm

lemma labelled_of_counted (h : r.counted = true) : labelled r.pc = true := by
  unfold counted at h
  cases hpc : r.pc <;> simp [hpc, labelled] at h ⊢

lemma logged_of_labelled (h : labelled r.pc = true) : r.logged = true := by
  unfold labelled at h
  cases hpc : r.pc <;> simp [hpc, logged] at h ⊢

/-- A request is logged behind a handler that has returned. -/
lemma Sound.logged (h : r.Sound done) (hlogged : r.logged = true) :
    r.panics = false ∧ r.mrwStatus = lastStatus r.calls ∧ r.rwStatus = lastStatus r.calls ∧
    r.rwSize = (sent r.calls).body.length := by
  have hrest : r.rest = [] ∧ r.panics = false := by
    have hbehind := h.behind
    unfold ServedRequest.logged at hlogged
    unfold rest
    cases hpc : r.pc <;> simp [hpc, ServedRequest.behind] at hlogged hbehind ⊢ <;> assumption
  obtain rfl := h.all_calls hrest.1
  exact ⟨hrest.2, h.mrwStatus, h.rwStatus, h.rwSize⟩

lemma Sound.labelled_wire (h : r.Sound done) (hlabelled : ServedRequest.labelled r.pc = true) :
    r.wire = sent r.calls := by
  obtain ⟨hrest, -, hpc⟩ := rest_of_behind (behind_of_labelled hlabelled)
  obtain rfl := h.all_calls hrest
  exact h.wire hpc

lemma Sound.recovered_wire (h : r.Sound done) (hpc : r.pc = .recovered) :
    r.wire = (((sent r.calls).writeHeader 500).write internalServerError).1 := by
  obtain rfl := h.all_calls (by rw [rest, hpc])
  exact h.recovered hpc

end ServedRequest

/-! ### All requests -/

lemma countP_set_add {α : Type*} {l : List α} {i : Nat} {a : α} (h : l[i]? = some a) (b : α)
    (p : α → Bool) : (l.set i b).countP p + (p a).toNat = l.countP p + (p b).toNat := by
  obtain ⟨hi, rfl⟩ := List.getElem?_eq_some_iff.1 h
  have hpos : (p l[i]).toNat ≤ l.countP p := by
    cases hp : p l[i] with
    | false => exact Nat.zero_le _
    | true => exact List.countP_pos_iff.2 ⟨l[i], List.getElem_mem hi, hp⟩
  rw [List.countP_set hi]
  cases hp : p l[i] <;> cases hb : p b <;>
    simp only [hp, Bool.toNat_true, Bool.toNat_false, if_true, if_false,
      Bool.false_eq_true] at hpos ⊢ <;>
    omega

lemma countP_set_same {α : Type*} {l : List α} {i : Nat} {a b : α} {p : α → Bool}
    (h : l[i]? = some a)
    (hp : p b = p a) : (l.set i b).countP p = l.countP p := by
  have hset := countP_set_add h b p
  rw [hp] at hset
  exact Nat.add_right_cancel hset

lemma countP_set_succ {α : Type*} {l : List α} {i : Nat} {a b : α} {p : α → Bool}
    (h : l[i]? = some a)
    (ha : p a = false) (hb : p b = true) : (l.set i b).countP p = l.countP p + 1 := by
  have hset := countP_set_add h b p
  rwa [ha, hb] at hset

namespace Metrics

open ServedRequest (Sound counted logged)

variable {s s' : Metrics} {i : Nat} {r r' : ServedRequest}

/-- A request that has been counted under a code. -/
def countedAs (code : Nat) (r : ServedRequest) : Bool := r.pc = .returned && r.mrwStatus = code

def loggedAs (line : Nat × Nat) (r : ServedRequest) : Bool :=
  r.logged && (r.rwStatus, r.rwSize) = line

structure Counts (s : Metrics) : Prop where
  total : s.requestsTotal = BitVec.ofNat 64 (s.requests.countP counted)
  codes : ∀ code, s.count code = BitVec.ofNat 64 (s.requests.countP (countedAs code))
  lines : ∀ line, s.log.count line = s.requests.countP (loggedAs line)
  stored : ∀ code counter, s.statusCodes code = some counter → counter < s.counters.length
  apart : ∀ code code' counter, s.statusCodes code = some counter →
    s.statusCodes code' = some counter → code = code'
  adding : ∀ r ∈ s.requests, ∀ counter, r.pc = .add counter →
    s.statusCodes r.mrwStatus = some counter
  sound : ∀ r ∈ s.requests, ∃ done, r.Sound done

lemma counts_init : init.Counts where
  total := rfl
  codes := fun _ => rfl
  lines := fun _ => rfl
  stored := by simp [init]
  apart := by simp [init]
  adding := by simp [init]
  sound := by simp [init]

lemma Counts.sound_set (h : s.Counts) (hr' : ∃ done, r'.Sound done) :
    ∀ r ∈ s.requests.set i r', ∃ done, r.Sound done := by
  intro r hr
  rcases List.mem_or_eq_of_mem_set hr with hr | rfl
  · exact h.sound r hr
  · exact hr'

/-- A step that neither counts nor logs the request. -/
lemma Counts.put (h : s.Counts) (hr : s.requests[i]? = some r) (hr' : ∃ done, r'.Sound done)
    (hcounted : r'.counted = r.counted) (hcountedAs : ∀ code, countedAs code r' = countedAs code r)
    (hloggedAs : ∀ line, loggedAs line r' = loggedAs line r)
    (hadd : ∀ counter, r'.pc = .add counter → s.statusCodes r'.mrwStatus = some counter) :
    (s.put i r').Counts where
  total := h.total.trans (congrArg _ (countP_set_same hr hcounted).symm)
  codes code := (h.codes code).trans (congrArg _ (countP_set_same hr (hcountedAs code)).symm)
  lines line := (h.lines line).trans (countP_set_same hr (hloggedAs line)).symm
  stored := h.stored
  apart := h.apart
  adding := by
    intro r'' hr'' counter hpc
    rcases List.mem_or_eq_of_mem_set hr'' with hr'' | rfl
    · exact h.adding r'' hr'' counter hpc
    · exact hadd counter hpc
  sound := h.sound_set hr'

lemma Counts.adding_set (h : s.Counts) {statusCodes : Nat → Option Nat}
    (hmono : ∀ code counter, s.statusCodes code = some counter → statusCodes code = some counter)
    (hadd : ∀ counter, r'.pc = .add counter → statusCodes r'.mrwStatus = some counter) :
    ∀ r ∈ s.requests.set i r', ∀ counter, r.pc = .add counter →
      statusCodes r.mrwStatus = some counter := by
  intro r hr counter hpc
  rcases List.mem_or_eq_of_mem_set hr with hr | rfl
  · exact hmono _ _ (h.adding r hr counter hpc)
  · exact hadd counter hpc

lemma Counts.log (h : s.Counts) (hr : s.requests[i]? = some r) (hpc : r.pc = .log)
    (hr' : ∃ done, Sound { r with pc := .withLabelValues } done) :
    ({ s with log := s.log ++ [(r.rwStatus, r.rwSize)] }.put i
      { r with pc := .withLabelValues }).Counts where
  total := h.total.trans (congrArg _ (countP_set_same hr (by simp [counted, hpc])).symm)
  codes code :=
    (h.codes code).trans (congrArg _ (countP_set_same hr (by simp [countedAs, hpc])).symm)
  lines line := by
    rw [Metrics.put, List.count_append, h.lines line]
    by_cases hline : (r.rwStatus, r.rwSize) = line
    · rw [countP_set_succ hr (by simp [loggedAs, logged, hpc]) (by simp [loggedAs, logged, hline]),
        hline,
        List.count_singleton_self]
    · rw [countP_set_same hr (by simp [loggedAs, logged, hpc, hline]),
        List.count_eq_zero_of_not_mem (by simpa using Ne.symm hline), Nat.add_zero]
  stored := h.stored
  apart := h.apart
  adding := h.adding_set (fun _ _ h => h) (by simp)
  sound := h.sound_set hr'

lemma Counts.incrementRequests (h : s.Counts) (hr : s.requests[i]? = some r)
    (hpc : r.pc = .incrementRequests) (hr' : ∃ done, Sound { r with pc := .loadOrStore } done) :
    ({ s with requestsTotal := s.requestsTotal + 1 }.put i
      { r with pc := .loadOrStore }).Counts where
  total := by
    rw [Metrics.put, countP_set_succ hr (by simp [counted, hpc]) (by simp [counted]),
      BitVec.ofNat_add,
      ← h.total]
    rfl
  codes code :=
    (h.codes code).trans (congrArg _ (countP_set_same hr (by simp [countedAs, hpc])).symm)
  lines line := (h.lines line).trans
    (countP_set_same hr (by simp [loggedAs, logged, hpc])).symm
  stored := h.stored
  apart := h.apart
  adding := h.adding_set (fun _ _ h => h) (by simp)
  sound := h.sound_set hr'

/-- A new counter is stored where there is none, and is zero. -/
lemma Counts.loadOrStore (h : s.Counts) (code : Nat) : (s.loadOrStore code).1.Counts ∧
    (s.loadOrStore code).1.requests = s.requests ∧
    (s.loadOrStore code).1.statusCodes code = some (s.loadOrStore code).2 := by
  have hnew : ∀ counter < s.counters.length,
      (s.counters ++ [0]).getD counter 0 = s.counters.getD counter 0 := by
    intro counter hlt
    rw [List.getD_append _ _ _ _ hlt]
  cases hcode : s.statusCodes code with
  | some val =>
    have heq : s.loadOrStore code = ({ s with counters := s.counters ++ [0] }, val) := by
      simp [Metrics.loadOrStore, hcode]
    rw [heq]
    refine ⟨⟨h.total, fun code' => ?_, h.lines, fun code' counter hc => ?_, h.apart,
      h.adding, h.sound⟩,
      rfl, hcode⟩
    · rw [← h.codes code', Metrics.count, Metrics.count]
      cases hc : s.statusCodes code' with
      | none => rfl
      | some counter => exact hnew counter (h.stored code' counter hc)
    · have hlt := h.stored code' counter hc
      rw [List.length_append]
      omega
  | none =>
    have heq : s.loadOrStore code = ({ s with
        counters := s.counters ++ [0]
        statusCodes := Function.update s.statusCodes code (some s.counters.length) },
        s.counters.length) := by
      simp [Metrics.loadOrStore, hcode]
    rw [heq]
    have hother : ∀ code' counter,
        Function.update s.statusCodes code (some s.counters.length) code' =
        some counter → code' = code ∧ counter = s.counters.length ∨
          code' ≠ code ∧ s.statusCodes code' = some counter := by
      intro code' counter hc
      by_cases hsame : code' = code
      · rw [hsame, Function.update_self] at hc
        exact .inl ⟨hsame, (Option.some.inj hc).symm⟩
      · rw [Function.update_of_ne hsame] at hc
        exact .inr ⟨hsame, hc⟩
    refine ⟨⟨h.total, fun code' => ?_, h.lines, fun code' counter hc => ?_, ?_, ?_, h.sound⟩, rfl,
      Function.update_self ..⟩
    · rw [← h.codes code', Metrics.count, Metrics.count]
      by_cases hsame : code' = code
      · subst hsame
        simp [hcode]
      · simp only [Function.update_of_ne hsame]
        cases hc : s.statusCodes code' with
        | none => rfl
        | some counter => exact hnew counter (h.stored code' counter hc)
    · rw [List.length_append, List.length_singleton]
      rcases hother code' counter hc with ⟨-, rfl⟩ | ⟨-, hc⟩
      · exact Nat.lt_succ_self _
      · exact Nat.lt_succ_of_lt (h.stored code' counter hc)
    · intro code₁ code₂ counter h₁ h₂
      rcases hother _ _ h₁ with ⟨hcode₁, hlen₁⟩ | ⟨-, hold₁⟩ <;>
        rcases hother _ _ h₂ with ⟨hcode₂, hlen₂⟩ | ⟨-, hold₂⟩
      · exact hcode₁.trans hcode₂.symm
      · exact absurd (h.stored _ _ hold₂) (by omega)
      · exact absurd (h.stored _ _ hold₁) (by omega)
      · exact h.apart _ _ _ hold₁ hold₂
    · intro r hr counter hpc
      have hold := h.adding r hr counter hpc
      have hne : r.mrwStatus ≠ code := by
        rintro rfl
        rw [hcode] at hold
        cases hold
      exact (Function.update_of_ne hne _ _).trans hold

lemma Counts.add (h : s.Counts) (hr : s.requests[i]? = some r) {counter : Nat}
    (hpc : r.pc = .add counter) (hr' : ∃ done, Sound { r with pc := .returned } done) :
    ((s.add counter).put i { r with pc := .returned }).Counts where
  total := h.total.trans (congrArg _ (countP_set_same hr (by simp [counted, hpc])).symm)
  codes code := by
    have hcounter := h.adding r (List.mem_of_getElem? hr) counter hpc
    have hlt := h.stored _ _ hcounter
    have hcount := h.codes code
    rw [Metrics.count] at hcount ⊢
    rw [Metrics.put, Metrics.add]
    by_cases hcode : r.mrwStatus = code
    · subst hcode
      rw [countP_set_succ hr (by simp [countedAs, hpc]) (by simp [countedAs]), BitVec.ofNat_add,
        ← hcount, hcounter]
      simp [List.getD_eq_getElem?_getD, hlt]
    · rw [countP_set_same hr (by simp [countedAs, hpc, hcode]), ← hcount]
      cases hc : s.statusCodes code with
      | none => rfl
      | some counter' =>
        have hne : counter ≠ counter' := by
          rintro rfl
          exact hcode (h.apart _ _ _ hcounter hc)
        simp [List.getD_eq_getElem?_getD, hne]
  lines line := (h.lines line).trans (countP_set_same hr (by simp [loggedAs, logged, hpc])).symm
  stored := by
    intro code counter' hc
    have hlt := h.stored code counter' hc
    simpa [Metrics.put, Metrics.add] using hlt
  apart := h.apart
  adding := h.adding_set (fun _ _ h => h) (by simp)
  sound := h.sound_set hr'

/-! ### Runs -/

lemma Counts.run (h : s.Counts) (hr : s.requests[i]? = some r) (hstep : s.run i r = some s') :
    s'.Counts := by
  obtain ⟨done, hsound⟩ := h.sound r (List.mem_of_getElem? hr)
  unfold Metrics.run at hstep
  split at hstep
  · next c calls hpc =>
    obtain rfl := Option.some.inj hstep
    refine h.put hr ⟨_, hsound.call hpc⟩ ?_ ?_ ?_ (by simp)
    · simp [counted, hpc]
    · simp [countedAs, hpc]
    · simp [loggedAs, logged, hpc]
  · next hpc =>
    obtain rfl := Option.some.inj hstep
    refine h.put hr ⟨done, hsound.leave hpc⟩ ?_ ?_ ?_ ?_
    all_goals cases hp : r.panics <;> simp [counted, countedAs, loggedAs, logged, hpc]
  · next hpc =>
    obtain rfl := Option.some.inj hstep
    have hbehind : ServedRequest.behind r.pc = true := by rw [hpc]; rfl
    exact h.log hr hpc ⟨done, hsound.goOn hbehind rfl (by simp [ServedRequest.labelled])⟩
  · next hpc =>
    obtain rfl := Option.some.inj hstep
    have hpanics : r.panics = false := hsound.behind (by rw [hpc]; rfl)
    refine h.put hr ⟨done, hsound.label hpc⟩ ?_ ?_ ?_ ?_
    all_goals cases r.validLabels <;> simp [counted, countedAs, loggedAs, logged, hpc, hpanics]
  · next hpc =>
    obtain rfl := Option.some.inj hstep
    have hlabelled : ServedRequest.labelled r.pc = true := by rw [hpc]; rfl
    exact h.incrementRequests hr hpc ⟨done, hsound.pass hlabelled rfl⟩
  · next hpc =>
    obtain rfl := Option.some.inj hstep
    have hlabelled : ServedRequest.labelled r.pc = true := by rw [hpc]; rfl
    obtain ⟨hcounts, hrequests, hcode⟩ := h.loadOrStore r.mrwStatus
    refine hcounts.put (hrequests ▸ hr) ⟨done, hsound.pass hlabelled rfl⟩ ?_ ?_ ?_ ?_
    · simp [counted, hpc]
    · simp [countedAs, hpc]
    · simp [loggedAs, logged, hpc]
    · intro counter hadd
      rw [← Serving.add.inj hadd]
      exact hcode
  · next counter hpc =>
    obtain rfl := Option.some.inj hstep
    have hlabelled : ServedRequest.labelled r.pc = true := by rw [hpc]; rfl
    exact h.add hr hpc ⟨done, hsound.pass hlabelled rfl⟩
  · next hpc =>
    obtain rfl := Option.some.inj hstep
    refine h.put hr ⟨done, hsound.recover hpc⟩ ?_ ?_ ?_ (by simp [ServedRequest.recover])
    · simp [ServedRequest.recover, counted, hpc]
    · simp [ServedRequest.recover, countedAs, hpc]
    · simp [ServedRequest.recover, loggedAs, logged, hpc]
  · cases hstep
  · cases hstep

lemma Counts.request (h : s.Counts) (path : List UInt8) (calls : List WriterCall) (panics : Bool) :
    Counts { s with requests := s.requests ++ [.init path calls panics] } where
  total := by
    rw [List.countP_append]
    exact h.total
  codes code := by
    rw [List.countP_append]
    exact h.codes code
  lines line := by
    rw [List.countP_append]
    exact h.lines line
  stored := h.stored
  apart := h.apart
  adding := by
    intro r hr counter hpc
    rcases List.mem_append.1 hr with hr | hr
    · exact h.adding r hr counter hpc
    · rw [List.mem_singleton.1 hr] at hpc
      cases hpc
  sound := by
    intro r hr
    rcases List.mem_append.1 hr with hr | hr
    · exact h.sound r hr
    · rw [List.mem_singleton.1 hr]
      exact ⟨[], ServedRequest.sound_init path calls panics⟩

lemma counts_run (h : Reach step init s) : s.Counts := by
  refine Run.invariant (P := Counts) h counts_init fun s a s' hs _ hstep => ?_
  cases a with
  | request path calls panics =>
    obtain rfl := Option.some.inj hstep
    exact hs.request path calls panics
  | run i =>
    obtain ⟨r, hr, hrun⟩ := Option.bind_eq_some_iff.1 hstep
    exact hs.run hr hrun

lemma Counts.length_log (h : s.Counts) : s.log.length = s.requests.countP logged := by
  have hperm : List.Perm s.log
      ((s.requests.filter logged).map fun r => (r.rwStatus, r.rwSize)) := by
    refine List.perm_iff_count.2 fun line => ?_
    rw [h.lines line, List.count_eq_countP, List.countP_map, List.countP_filter]
    refine List.countP_congr fun r _ => ?_
    simp [loggedAs, and_comm]
  rw [hperm.length_eq, List.length_map, List.countP_eq_length_filter]

/-- Behind the handler a request goes on until it has returned or panicked. -/
lemma run_eq_none (h : s.run i r = none) : r.pc = .returned ∨ r.pc = .recovered := by
  unfold Metrics.run at h
  split at h <;> try cases h
  · next hpc => exact .inl hpc
  · next hpc => exact .inr hpc

lemma Counts.logged (h : s.Counts) (hr : r ∈ s.requests) (hlogged : r.logged = true) :
    r.panics = false ∧ r.mrwStatus = lastStatus r.calls ∧ r.rwStatus = lastStatus r.calls ∧
    r.rwSize = (sent r.calls).body.length := by
  obtain ⟨done, hsound⟩ := h.sound r hr
  exact hsound.logged hlogged

/-- A counted request has come by the labels, and nobody has written behind its handler. -/
lemma Counts.counted (h : s.Counts) (hr : r ∈ s.requests) (hcounted : r.counted = true) :
    r.panics = false ∧ r.validLabels = true ∧ r.mrwStatus = lastStatus r.calls ∧
    r.wire = sent r.calls := by
  obtain ⟨done, hsound⟩ := h.sound r hr
  have hlabelled := ServedRequest.labelled_of_counted hcounted
  obtain ⟨hpanics, hstatus, -⟩ := hsound.logged (ServedRequest.logged_of_labelled hlabelled)
  exact ⟨hpanics, hsound.labelled hlabelled, hstatus, hsound.labelled_wire hlabelled⟩

lemma Counts.ended (h : s.Counts) (hr : r ∈ s.requests) (hrun : s.run i r = none) :
    (r.counted = true ↔ r.panics = false ∧ r.validLabels = true) ∧
    (r.logged = true ↔ r.panics = false) := by
  rcases run_eq_none hrun with hpc | hpc
  · have hcounted : r.counted = true := by simp [ServedRequest.counted, hpc]
    have hlogged : r.logged = true := by simp [ServedRequest.logged, hpc]
    obtain ⟨hpanics, hvalid, -⟩ := h.counted hr hcounted
    exact ⟨iff_of_true hcounted ⟨hpanics, hvalid⟩, iff_of_true hlogged hpanics⟩
  · obtain ⟨done, hsound⟩ := h.sound r hr
    have hcounted : r.counted = false := by simp [ServedRequest.counted, hpc]
    refine ⟨iff_of_false (by simp [hcounted]) ?_, by simp [ServedRequest.logged, hpc]⟩
    rintro ⟨hpanics, hvalid⟩
    have hpanicked := hsound.panicked (.inr hpc)
    simp [hpanics, hvalid] at hpanicked

/-- However the requests overlap: the total is the number of those counted and a code's the number
of those whose handler has written it last, each up to a wrap of the counter, and the log has a line
for each that has come so far, none of which has panicked in its handler. A panic, there or at the
labels, is answered by `Recoverer` behind what has been sent. When all have come to their end, those
logged are all without a panic in the handler, those counted the ones of them with a path in UTF-8.
Where each handler writes the header first and once, a code's number is that of the responses sent
with it. -/
theorem requests_counted (h : Reach step init s) :
    s.requestsTotal = BitVec.ofNat 64 (s.requests.countP counted) ∧
    (∀ code, s.count code = BitVec.ofNat 64
      (s.requests.countP fun r => r.pc = .returned && lastStatus r.calls = code)) ∧
    (∀ line, s.log.count line = s.requests.countP fun r =>
      r.logged && (lastStatus r.calls, (sent r.calls).body.length) = line) ∧
    (∀ r ∈ s.requests, (r.logged = true → r.panics = false) ∧
      (r.counted = true → r.validLabels = true ∧ r.wire = sent r.calls) ∧
      (r.pc = .recovered → (r.panics = true ∨ r.validLabels = false) ∧
        r.wire = (((sent r.calls).writeHeader 500).write ServedRequest.internalServerError).1)) ∧
    ((∀ i, step s (.run i) = none) →
      s.log.length = s.requests.countP (fun r => !r.panics) ∧
      s.requestsTotal = BitVec.ofNat 64
        (s.requests.countP fun r => !r.panics && r.validLabels)) ∧
    ((∀ r ∈ s.requests, ∃ status, Responds status r.calls) → ∀ code, s.count code = BitVec.ofNat 64
      (s.requests.countP fun r => r.pc = .returned && r.wire.status = some code)) := by
  have hs := counts_run h
  have hlast : ∀ r ∈ s.requests, ∀ code, countedAs code r = true ↔
      (r.pc = .returned ∧ lastStatus r.calls = code) := by
    intro r hr code
    rw [countedAs, Bool.and_eq_true, decide_eq_true_iff, decide_eq_true_iff]
    refine and_congr_right fun hpc => ?_
    rw [(hs.counted hr (by simp [counted, hpc])).2.2.1]
  refine ⟨hs.total, fun code => ?_, fun line => ?_, fun r hr => ⟨fun hlogged => ?_,
    fun hcounted => ?_, fun hpc => ?_⟩, fun hstuck => ?_, fun hresponds code => ?_⟩
  · rw [hs.codes code]
    congr 1
    refine List.countP_congr fun r hr => ?_
    simpa using hlast r hr code
  · rw [hs.lines line]
    refine List.countP_congr fun r hr => ?_
    rw [loggedAs, Bool.and_eq_true, Bool.and_eq_true]
    refine and_congr_right fun hlogged => ?_
    obtain ⟨-, -, hstatus, hsize⟩ := hs.logged hr hlogged
    rw [hstatus, hsize]
  · exact (hs.logged hr hlogged).1
  · obtain ⟨-, hvalid, -, hwire⟩ := hs.counted hr hcounted
    exact ⟨hvalid, hwire⟩
  · obtain ⟨done, hsound⟩ := hs.sound r hr
    exact ⟨hsound.panicked (.inr hpc), hsound.recovered_wire hpc⟩
  · have hended : ∀ r ∈ s.requests, ∃ i, s.run i r = none := by
      intro r hr
      obtain ⟨i, hi⟩ := List.mem_iff_getElem?.1 hr
      exact ⟨i, by simpa [step, hi] using hstuck i⟩
    constructor
    · rw [hs.length_log]
      refine List.countP_congr fun r hr => ?_
      obtain ⟨i, hrun⟩ := hended r hr
      simpa using (hs.ended hr hrun).2
    · rw [hs.total]
      congr 1
      refine List.countP_congr fun r hr => ?_
      obtain ⟨i, hrun⟩ := hended r hr
      simpa using (hs.ended hr hrun).1
  · rw [hs.codes code]
    congr 1
    refine List.countP_congr fun r hr => ?_
    rw [hlast r hr code, Bool.and_eq_true, decide_eq_true_iff, decide_eq_true_iff]
    refine and_congr_right fun hpc => ?_
    obtain ⟨status, hstatus⟩ := hresponds r hr
    rw [(hs.counted hr (by simp [counted, hpc])).2.2.2, hstatus.recorded.1, hstatus.recorded.2,
      Option.some_inj]

/-- Three requests at a time: one is answered with 201, one panics before it has written anything,
and one with the path `/%ff` is logged but not counted. -/
theorem requests_counted_three : ∃ s, Reach step init s ∧
    s.requests.map ServedRequest.pc = [.returned, .recovered, .recovered] ∧
    s.log.count (201, 1) = 1 ∧ s.log.count (404, 0) = 1 ∧ s.requestsTotal = 1 ∧
    s.count 201 = 1 := by
  have hex : ∃ s, Reach step init s ∧
      s.requests.map ServedRequest.pc = [.returned, .recovered, .recovered] ∧
      (∀ line ∈ [(201, 1), (404, 0)], s.requests.countP
        (fun r => r.logged && (lastStatus r.calls, (sent r.calls).body.length) = line) = 1) ∧
      s.requests.countP counted = 1 ∧
      s.requests.countP (fun r => r.pc = .returned && lastStatus r.calls = 201) = 1 :=
    exists_of_exec ([.request [47] [.WriteHeader 201, .Write [125]] false, .run 0,
      .request [47] [] true, .request [47, 255] [.WriteHeader 404] false, .run 1, .run 0,
      .run 1] ++ List.replicate 5 (.run 2) ++ List.replicate 6 (.run 0)) (by decide +kernel)
  obtain ⟨s, hrun, hpc, hlogged, hcounted, hcreated⟩ := hex
  obtain ⟨htotal, hcodes, hlines, -⟩ := requests_counted hrun
  refine ⟨s, hrun, hpc, ?_, ?_, by rw [htotal, hcounted]; rfl, by rw [hcodes 201, hcreated]; rfl⟩
  · rw [hlines, hlogged _ (by simp)]
  · rw [hlines, hlogged _ (by simp)]

end Metrics

end TiPI.Auditor
