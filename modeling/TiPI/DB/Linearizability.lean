import TiPI.DB.Master
import TiPI.Lib.Linearizable

/-!
# Linearizability of the writes on a master

A call changes the store in the critical section in which it is answered, so the answers give a
linearization as long as the store a call changes still answers its existence check the way it
did in front of the wait loop.
-/

namespace TiPI.DB

variable {Ip : Type}

/-! ### The sequential map -/

def Method.writes : Method → Bool
  | .POST | .PATCH | .DELETE => true
  | .GET | .other _ => false

/-- The status of a write that succeeds. -/
def Method.okStatus : Method → Nat
  | .POST => 201
  | .PATCH | .DELETE | .GET | .other _ => 200

/-- What a write makes of a map, if it succeeds. -/
def Kvs.serve (kvs : Kvs) (r : Request) : Option Kvs :=
  match r.method with
  | .POST =>
    if r.value ≠ "" ∧ kvs.read r.key = none then some (kvs.write r.key r.value) else none
  | .PATCH =>
    if r.value ≠ "" ∧ kvs.read r.key ≠ none then some (kvs.write r.key r.value) else none
  | .DELETE => kvs.delete r.key
  | .GET | .other _ => none

/-- A sequential map answers the request. Requests that do not write leave it alone. -/
def Serves (kvs : Kvs) (r : Request) (resp : Response Ip) (kvs' : Kvs) : Prop :=
  match r.method.writes, kvs.serve r with
  | true, some new => resp.status = r.method.okStatus ∧ kvs' = new
  | true, none => 400 ≤ resp.status ∧ kvs' = kvs
  | false, _ => kvs' = kvs

/-- The calls and returns among the events of a node. -/
def Event.hist : Event Ip → Option (HistEvent Request (Response Ip))
  | .invoked r => some (.call r.id r)
  | .answered id resp _ => some (.ret id resp)
  | .leftLoop _ _ | .campaigned _ | .granted _ _ | .becameMaster _ => none

def WriteMethod.toMethod : WriteMethod → Method
  | .POST => .POST
  | .PATCH => .PATCH
  | .DELETE => .DELETE

def WriteRequest.toRequest (w : WriteRequest) : Request :=
  ⟨w.id, w.method.toMethod, w.key, w.value⟩

/-- A call that has reached the lock has a value if it needs one. -/
def WriteRequest.Accepted (w : WriteRequest) : Prop := w.method = .DELETE ∨ w.value ≠ ""

namespace MiddleWare

lemma kvsArrive_lock {mw : MiddleWare Ip} {r : Request} {rand : Nat} {w : WriteRequest}
    (h : mw.kvsArrive r rand = .lock w) : w.toRequest = r ∧ w.Accepted := by
  obtain ⟨id, method, key, value⟩ := r
  unfold kvsArrive at h
  split at h
  · simp at h
  · cases method with
    | GET =>
      simp only [kvsGet] at h
      split at h <;> split at h <;> simp at h
    | POST =>
      dsimp only at h
      split at h
      · simp at h
      · next hv =>
        obtain rfl := Arrival.lock.inj h
        exact ⟨rfl, Or.inr hv⟩
    | PATCH =>
      dsimp only at h
      split at h
      · simp at h
      · next hv =>
        obtain rfl := Arrival.lock.inj h
        exact ⟨rfl, Or.inr hv⟩
    | DELETE =>
      obtain rfl := Arrival.lock.inj h
      exact ⟨rfl, Or.inl rfl⟩
    | other name => simp at h

lemma kvsArrive_serves {mw : MiddleWare Ip} (hs : mw.state = .MASTER) {r : Request} {rand : Nat}
    {resp : Response Ip} (h : mw.kvsArrive r rand = .answered resp) :
    Serves mw.kvs r resp mw.kvs := by
  obtain ⟨id, method, key, value⟩ := r
  simp only [kvsArrive, hs, ne_eq, not_true_eq_false, false_and, if_false] at h
  cases method with
  | GET => exact rfl
  | POST =>
    dsimp only at h
    split at h
    · next hv =>
      obtain rfl := Arrival.answered.inj h
      simp [Serves, Method.writes, Kvs.serve, hv]
    · simp at h
  | PATCH =>
    dsimp only at h
    split at h
    · next hv =>
      obtain rfl := Arrival.answered.inj h
      simp [Serves, Method.writes, Kvs.serve, hv]
    · simp at h
  | DELETE => simp at h
  | other name => exact rfl

lemma kvsCheck_serves {mw : MiddleWare Ip} {r : WriteRequest} {resp : Response Ip}
    (h : mw.kvsCheck r = some resp) : Serves mw.kvs r.toRequest resp mw.kvs := by
  obtain ⟨id, method, key, value⟩ := r
  unfold kvsCheck at h
  split at h
  · next hm hk =>
    obtain rfl := Option.some.inj h
    dsimp only at hm hk
    simp [Serves, WriteRequest.toRequest, hm, WriteMethod.toMethod, Method.writes, Kvs.serve, hk]
  · next hm hk =>
    obtain rfl := Option.some.inj h
    dsimp only at hm hk
    simp [Serves, WriteRequest.toRequest, hm, WriteMethod.toMethod, Method.writes, Kvs.serve, hk]
  · next hm hk =>
    obtain rfl := Option.some.inj h
    dsimp only [Kvs.read] at hm hk
    simp [Serves, WriteRequest.toRequest, hm, WriteMethod.toMethod, Method.writes, Kvs.serve,
      Kvs.delete, hk]
  all_goals simp at h

/-- The check of the first critical section holds when the call leaves its loop. -/
lemma kvsCommit_serves {mw : MiddleWare Ip} {r : WriteRequest} (hr : r.Accepted)
    (hcheck : r.method ≠ .DELETE → mw.kvsCheck r = none) :
    Serves mw.kvs r.toRequest (mw.kvsCommit r).2 (mw.kvsCommit r).1.kvs := by
  obtain ⟨id, method, key, value⟩ := r
  cases method with
  | POST =>
    have hv : value ≠ "" := hr.resolve_left (by simp)
    have hk : mw.kvs.read key = none := by
      have hc := hcheck (by simp)
      unfold kvsCheck at hc
      cases hread : mw.kvs.read key with
      | none => rfl
      | some v => simp [hread] at hc
    simp [Serves, WriteRequest.toRequest, WriteMethod.toMethod, Method.writes, Kvs.serve, hv, hk,
      kvsCommit, Method.okStatus]
  | PATCH =>
    have hv : value ≠ "" := hr.resolve_left (by simp)
    have hk : mw.kvs.read key ≠ none := by
      intro hread
      have hc := hcheck (by simp)
      simp [kvsCheck, hread] at hc
    simp [Serves, WriteRequest.toRequest, WriteMethod.toMethod, Method.writes, Kvs.serve, hv, hk,
      kvsCommit, Method.okStatus]
  | DELETE =>
    cases hd : mw.kvs.delete key with
    | none =>
      simp [Serves, WriteRequest.toRequest, WriteMethod.toMethod, Method.writes, Kvs.serve, hd,
        kvsCommit]
    | some kvs =>
      simp [Serves, WriteRequest.toRequest, WriteMethod.toMethod, Method.writes, Kvs.serve, hd,
        kvsCommit, Method.okStatus]

end MiddleWare

/-! ### Runs of a master -/

namespace Solo

/-- The calls and returns of a node. -/
def hist (s : Solo Ip) : List (HistEvent Request (Response Ip)) := s.trace.filterMap Event.hist

/-- When a `POST` or `PATCH` leaves its loop on a master, its existence check would still be
passed. -/
structure CheckHolds (s : Solo Ip) (na : NodeAct Ip) : Prop where
  master : s.Master na
  check : ∀ p ∈ s.mw.leaving na, p.2.req.method ≠ .DELETE → p.1.kvsCheck p.2.req = none

instance [DecidableEq Ip] (s : Solo Ip) (na : NodeAct Ip) : Decidable (s.CheckHolds na) :=
  decidable_of_iff
    (s.Master na ∧ ∀ p ∈ s.mw.leaving na, p.2.req.method ≠ .DELETE →
      p.1.kvsCheck p.2.req = none)
    ⟨fun h => ⟨h.1, h.2⟩, fun h => ⟨h.master, h.check⟩⟩

/-- The answers so far linearize the history, and every open call is recorded once and not
answered. -/
structure LinearInv (kvs₀ : Kvs) (s : Solo Ip) : Prop where
  linear : ∃ order, Linearizes Serves kvs₀ s.hist order s.mw.kvs
  called : ∀ id r, .call id r ∈ s.hist → id = r.id ∧ id < s.mw.nextRequest
  once : ∀ id r r', .call id r ∈ s.hist → .call id r' ∈ s.hist → r = r'
  answered : ∀ id resp, .ret id resp ∈ s.hist → id < s.mw.nextRequest
  opened : ∀ w ∈ s.mw.openCalls, .call w.id w.toRequest ∈ s.hist ∧
    (∀ resp, .ret w.id resp ∉ s.hist) ∧ w.Accepted
  nodup : (s.mw.openCalls.map (·.id)).Nodup

lemma linearInv_start {mw : MiddleWare Ip} (ha : mw.arrived = []) (hw : mw.waiting = []) :
    LinearInv mw.kvs (start mw) where
  linear := ⟨[], .nil _ _⟩
  called := by simp [hist, start]
  once := by simp [hist, start]
  answered := by simp [hist, start]
  opened := by simp [start, MiddleWare.openCalls, ha, hw]
  nodup := by simp [start, MiddleWare.openCalls, ha, hw]

variable {kvs₀ : Kvs} {s : Solo Ip} {mw : MiddleWare Ip} {evs : List (Event Ip)}

lemma hist_append (s : Solo Ip) (mw : MiddleWare Ip) (evs : List (Event Ip)) :
    hist ⟨mw, s.trace ++ evs⟩ = s.hist ++ evs.filterMap Event.hist := List.filterMap_append

/-- Neither a call nor a return. -/
lemma LinearInv.silent (h : LinearInv kvs₀ s) (hevs : evs.filterMap Event.hist = [])
    (hkvs : mw.kvs = s.mw.kvs) (hnext : mw.nextRequest = s.mw.nextRequest)
    (hopen : mw.openCalls.Subperm s.mw.openCalls) : LinearInv kvs₀ ⟨mw, s.trace ++ evs⟩ := by
  have hhist : hist ⟨mw, s.trace ++ evs⟩ = s.hist := by rw [hist_append, hevs, List.append_nil]
  obtain ⟨order, horder⟩ := h.linear
  refine ⟨⟨order, ?_⟩, ?_, ?_, ?_, ?_, ?_⟩
  · rw [hhist, hkvs]
    exact horder
  · rw [hhist, hnext]
    exact h.called
  · rw [hhist]
    exact h.once
  · rw [hhist, hnext]
    exact h.answered
  · rw [hhist]
    exact fun w hw => h.opened w (hopen.subset hw)
  · obtain ⟨l, hl, hsub⟩ := hopen
    exact (hl.map _).nodup_iff.mp ((hsub.map _).nodup h.nodup)

/-- A request that is not answered yet is answered, and is not open any more. -/
lemma LinearInv.ret (h : LinearInv kvs₀ s) {id : Nat} {r : Request} {resp : Response Ip}
    (hcall : .call id r ∈ s.hist) (hfresh : ∀ resp, .ret id resp ∉ s.hist)
    (hevs : evs.filterMap Event.hist = [.ret id resp]) (hserves : Serves s.mw.kvs r resp mw.kvs)
    (hnext : mw.nextRequest = s.mw.nextRequest) (hopen : mw.openCalls ⊆ s.mw.openCalls)
    (hnodup : (mw.openCalls.map (·.id)).Nodup) (hclosed : ∀ w ∈ mw.openCalls, w.id ≠ id) :
    LinearInv kvs₀ ⟨mw, s.trace ++ evs⟩ := by
  have hhist : hist ⟨mw, s.trace ++ evs⟩ = s.hist ++ [.ret id resp] := by rw [hist_append, hevs]
  have hold : ∀ id' r', .call id' r' ∈ s.hist ++ [.ret id resp] ↔ .call id' r' ∈ s.hist := by
    simp
  obtain ⟨order, horder⟩ := h.linear
  refine ⟨⟨order ++ [⟨id, r, resp⟩], ?_⟩, ?_, ?_, ?_, ?_, hnodup⟩
  · rw [hhist]
    exact horder.ret hcall (fun r' hr' => h.once _ _ _ hr' hcall) hfresh hserves
  · rw [hhist, hnext]
    exact fun id' r' hr' => h.called id' r' ((hold id' r').mp hr')
  · rw [hhist]
    exact fun id' r₁ r₂ h₁ h₂ => h.once id' r₁ r₂ ((hold id' r₁).mp h₁) ((hold id' r₂).mp h₂)
  · rw [hhist, hnext]
    intro id' resp' hr
    rcases List.mem_append.mp hr with hr | hnew
    · exact h.answered id' resp' hr
    · obtain ⟨rfl, -⟩ := HistEvent.ret.inj (List.mem_singleton.mp hnew)
      exact (h.called _ _ hcall).2
  · rw [hhist]
    intro w hw
    obtain ⟨hw₁, hfresh₁, hacc⟩ := h.opened w (hopen hw)
    refine ⟨(hold _ _).mpr hw₁, fun resp' hr => ?_, hacc⟩
    rcases List.mem_append.mp hr with hr | hnew
    · exact hfresh₁ resp' hr
    · exact hclosed w hw (HistEvent.ret.inj (List.mem_singleton.mp hnew)).1

/-- An open call is answered. -/
lemma LinearInv.answer (h : LinearInv kvs₀ s) {w : WriteRequest} {resp : Response Ip}
    (hevs : evs.filterMap Event.hist = [.ret w.id resp])
    (hserves : Serves s.mw.kvs w.toRequest resp mw.kvs)
    (hnext : mw.nextRequest = s.mw.nextRequest)
    (hopen : (w :: mw.openCalls).Perm s.mw.openCalls) : LinearInv kvs₀ ⟨mw, s.trace ++ evs⟩ := by
  obtain ⟨hw, hfresh, -⟩ := h.opened w (hopen.subset List.mem_cons_self)
  have hnodup := (hopen.map (fun w : WriteRequest => w.id)).nodup_iff.mpr h.nodup
  rw [List.map_cons, List.nodup_cons] at hnodup
  refine h.ret hw hfresh hevs hserves hnext (fun w' hw' => ?_) hnodup.2 fun w' hw' hid => ?_
  · exact hopen.subset (List.mem_cons_of_mem _ hw')
  · exact hnodup.1 (hid ▸ List.mem_map_of_mem hw')

/-- A request comes in. -/
lemma LinearInv.invoke (h : LinearInv kvs₀ s) {r : Request} (hid : r.id = s.mw.nextRequest)
    (hevs : evs.filterMap Event.hist = [.call r.id r]) (hkvs : mw.kvs = s.mw.kvs)
    (hnext : mw.nextRequest = s.mw.nextRequest + 1)
    (hopen : mw.openCalls = s.mw.openCalls ∨
      ∃ w, w.toRequest = r ∧ w.Accepted ∧ (w :: s.mw.openCalls).Perm mw.openCalls) :
    LinearInv kvs₀ ⟨mw, s.trace ++ evs⟩ := by
  have hhist : hist ⟨mw, s.trace ++ evs⟩ = s.hist ++ [.call r.id r] := by rw [hist_append, hevs]
  have hret : ∀ id resp, .ret id resp ∈ s.hist ++ [.call r.id r] ↔ .ret id resp ∈ s.hist := by
    simp
  have hfresh : ∀ resp, .ret r.id resp ∉ s.hist := fun resp hr =>
    absurd (h.answered _ _ hr) (by omega)
  have hcall : ∀ id r', .call id r' ∈ s.hist ++ [.call r.id r] →
      (.call id r' ∈ s.hist ∧ id < r.id) ∨ (id = r.id ∧ r' = r) := by
    intro id r' hr'
    rcases List.mem_append.mp hr' with hold | hnew
    · exact Or.inl ⟨hold, hid ▸ (h.called id r' hold).2⟩
    · exact Or.inr (HistEvent.call.inj (List.mem_singleton.mp hnew))
  have hold : ∀ w ∈ s.mw.openCalls, (.call w.id w.toRequest ∈ s.hist ++ [.call r.id r] ∧
      (∀ resp, .ret w.id resp ∉ s.hist ++ [.call r.id r]) ∧ w.Accepted) ∧ w.id < r.id := by
    intro w hw
    obtain ⟨hw₁, hw₂, hw₃⟩ := h.opened w hw
    exact ⟨⟨List.mem_append_left _ hw₁, fun resp hr => hw₂ resp ((hret _ _).mp hr), hw₃⟩,
      hid ▸ (h.called _ _ hw₁).2⟩
  obtain ⟨order, horder⟩ := h.linear
  refine ⟨⟨order, ?_⟩, ?_, ?_, ?_, ?_, ?_⟩
  · rw [hhist, hkvs]
    exact horder.call r hfresh
  · rw [hhist, hnext]
    intro id r' hr'
    rcases hcall id r' hr' with ⟨hr', -⟩ | ⟨rfl, rfl⟩
    · obtain ⟨hid', hlt⟩ := h.called id r' hr'
      exact ⟨hid', by omega⟩
    · exact ⟨rfl, by omega⟩
  · rw [hhist]
    intro id r₁ r₂ h₁ h₂
    rcases hcall id r₁ h₁ with ⟨h₁, hlt⟩ | ⟨hid₁, rfl⟩ <;>
      rcases hcall id r₂ h₂ with ⟨h₂, hlt₂⟩ | ⟨hid₂, rfl⟩
    · exact h.once id r₁ r₂ h₁ h₂
    · omega
    · omega
    · rfl
  · rw [hhist, hnext]
    intro id resp hr
    have hlt := h.answered id resp ((hret id resp).mp hr)
    omega
  · rw [hhist]
    rcases hopen with heq | ⟨w, rfl, hacc, hperm⟩
    · rw [heq]
      exact fun w hw => (hold w hw).1
    · intro w' hw'
      rcases List.mem_cons.mp (hperm.symm.subset hw') with rfl | hw'
      · exact ⟨List.mem_append_right _ (List.mem_singleton_self _),
          fun resp hr => hfresh resp ((hret _ _).mp hr), hacc⟩
      · exact (hold w' hw').1
  · rcases hopen with heq | ⟨w, rfl, -, hperm⟩
    · rw [heq]
      exact h.nodup
    · rw [← (hperm.map _).nodup_iff, List.map_cons, List.nodup_cons]
      refine ⟨fun hmem => ?_, h.nodup⟩
      obtain ⟨w', hw', heq⟩ := List.mem_map.mp hmem
      have hlt := (hold w' hw').2
      exact absurd heq (Nat.ne_of_lt hlt)

lemma LinearInv.after [DecidableEq Ip] {na : NodeAct Ip} {e : Effect Ip} (h : LinearInv kvs₀ s)
    (hok : s.CheckHolds na) (hact : s.mw.act na = some e) :
    LinearInv kvs₀ ⟨e.mw, s.trace ++ e.events⟩ := by
  have hserved : e.mw.nextRequest = s.mw.nextRequest → MiddleWare.Served s.mw na e →
      LinearInv kvs₀ ⟨e.mw, s.trace ++ e.events⟩ := by
    intro hnext hserved
    cases hserved with
    | refused r resp check _ kvs opened events =>
      refine h.answer (w := r) (by rw [events]; rfl) ?_ hnext opened
      rw [kvs]
      exact MiddleWare.kvsCheck_serves check
    | stays _ kvs opened events => exact h.silent (by rw [events]; rfl) kvs hnext opened
    | leaves m hd left before kvs opened events =>
      refine h.answer (w := hd.req) (by rw [events]; rfl) ?_ hnext opened
      rw [kvs, ← before]
      have hacc := (h.opened _ (opened.subset List.mem_cons_self)).2.2
      exact MiddleWare.kvsCommit_serves hacc (hok.check (m, hd) left)
  cases MiddleWare.act_calls hact with
  | request method key value rand hna effect =>
    have hid : ∀ w ∈ s.mw.openCalls, w.id ≠ s.mw.nextRequest := fun w hw =>
      Nat.ne_of_lt (h.called _ _ (h.opened w hw).1).2
    rw [effect]
    simp only [MiddleWare.request]
    cases harr : { s.mw with nextRequest := s.mw.nextRequest + 1 }.kvsArrive
        ⟨s.mw.nextRequest, method, key, value⟩ rand with
    | answered resp =>
      -- the answer follows its request at once
      have hcall : LinearInv kvs₀ ⟨{ s.mw with nextRequest := s.mw.nextRequest + 1 },
          s.trace ++ [.invoked ⟨s.mw.nextRequest, method, key, value⟩]⟩ :=
        h.invoke rfl rfl rfl rfl (Or.inl rfl)
      have hserves := MiddleWare.kvsArrive_serves (by exact hok.master) harr
      have hmem : .call s.mw.nextRequest ⟨s.mw.nextRequest, method, key, value⟩ ∈
          hist ⟨{ s.mw with nextRequest := s.mw.nextRequest + 1 },
            s.trace ++ [.invoked ⟨s.mw.nextRequest, method, key, value⟩]⟩ := by
        rw [hist_append]
        exact List.mem_append_right _ (List.mem_singleton_self _)
      have hfresh : ∀ resp, .ret s.mw.nextRequest resp ∉
          hist ⟨{ s.mw with nextRequest := s.mw.nextRequest + 1 },
            s.trace ++ [.invoked ⟨s.mw.nextRequest, method, key, value⟩]⟩ := by
        intro resp' hr
        rw [hist_append, List.mem_append] at hr
        rcases hr with hr | hr
        · exact absurd (h.answered _ _ hr) (lt_irrefl _)
        · simp [Event.hist] at hr
      have hret : LinearInv kvs₀ ⟨{ s.mw with nextRequest := s.mw.nextRequest + 1 },
          (s.trace ++ [.invoked ⟨s.mw.nextRequest, method, key, value⟩]) ++
            [.answered s.mw.nextRequest resp none]⟩ :=
        hcall.ret hmem hfresh rfl hserves rfl (List.Subset.refl _) h.nodup hid
      rwa [List.append_assoc] at hret
    | lock w =>
      obtain ⟨hw, hacc⟩ := MiddleWare.kvsArrive_lock harr
      refine h.invoke rfl rfl rfl rfl (Or.inr ⟨w, hw, hacc, ?_⟩)
      simp only [MiddleWare.openCalls, List.append_assoc]
      exact List.perm_middle.symm
    | panicked => exact h.invoke rfl rfl rfl rfl (Or.inl rfl)
  | begins r hna harr effect =>
    refine hserved ?_ (hna ▸ effect ▸ MiddleWare.kvsBegin_served harr)
    obtain ⟨_, _, _, _, hmw⟩ := MiddleWare.kvsBegin_frame s.mw r
    rw [effect, hmw]
  | wakes hd hna hwait effect =>
    refine hserved ?_ (hna ▸ effect ▸ MiddleWare.kvsWake_served hwait)
    obtain ⟨_, _, _, _, hmw⟩ := MiddleWare.kvsWake_frame s.mw hd
    rw [effect, hmw]
  | other quiet =>
    refine h.silent ?_ (quiet.kvs hok.master) quiet.nextRequest ?_
    · rw [List.filterMap_eq_nil_iff]
      intro ev hev
      have hvote := quiet.events ev hev
      cases ev <;> simp [Event.isVote, Event.hist] at hvote ⊢
    · have hreq : e.mw.waiting.map (·.req) = s.mw.waiting.map (·.req) := by
        rcases quiet.waiting with heq | heq
        · rw [heq]
        · rw [heq]
          simp [MiddleWare.broadcast]
      rw [MiddleWare.openCalls, MiddleWare.openCalls, quiet.arrived, hreq]

/-- The answers of a master are those of a sequential map, in an order that respects real time,
if no `POST` or `PATCH` changes a store that has changed under its check. -/
theorem writes_linearizable [DecidableEq Ip] {mw : MiddleWare Ip} (ha : mw.arrived = [])
    (hw : mw.waiting = []) {s : Solo Ip} (h : Run step CheckHolds (start mw) s) :
    Linearizable Serves mw.kvs s.hist := by
  have hinv : LinearInv mw.kvs s := by
    refine Run.invariant h (linearInv_start ha hw) ?_
    intro s na s' hs hok hstep
    obtain ⟨e, hact, rfl⟩ := Option.map_eq_some_iff.mp hstep
    exact hs.after hok hact
  obtain ⟨order, horder⟩ := hinv.linear
  exact ⟨order, _, horder⟩

theorem writes_linearizable_post : ∃ s : Solo (Fin 3), Run step CheckHolds (start elected) s ∧
    s.hist = [.call 0 ⟨0, .POST, "k", "x"⟩, .ret 0 ⟨201, .json "k" (some "x")⟩] ∧
    Linearizable Serves elected.kvs s.hist := by
  obtain ⟨s, hrun, hhist⟩ : ∃ s, Run step CheckHolds (start elected) s ∧
      s.hist = [.call 0 ⟨0, .POST, "k", "x"⟩, .ret 0 ⟨201, .json "k" (some "x")⟩] :=
    exists_of_exec onePost (by decide)
  exact ⟨s, hrun, hhist, writes_linearizable rfl rfl hrun⟩

end Solo

/-! ### Two creations of one key -/

/-- The request created the key. -/
def Creates (key : String) (c : Completed Request (Response Ip)) : Prop :=
  c.op.method = .POST ∧ c.op.key = key ∧ c.res.status = 201

lemma Serves.keeps {kvs kvs' : Kvs} {r : Request} {resp : Response Ip} {key : String}
    (h : Serves kvs r resp kvs') (hr : r.method ≠ .DELETE) (hk : kvs key ≠ none) :
    kvs' key ≠ none := by
  have hwrite : kvs.write r.key r.value key ≠ none := by
    unfold Kvs.write
    by_cases hkey : key = r.key
    · subst hkey
      simp
    · rwa [Function.update_of_ne hkey]
  unfold Serves at h
  split at h
  · next new _ hserve =>
    rw [h.2]
    unfold Kvs.serve at hserve
    split at hserve
    · split at hserve
      · exact Option.some.inj hserve ▸ hwrite
      · simp at hserve
    · split at hserve
      · exact Option.some.inj hserve ▸ hwrite
      · simp at hserve
    · next hm => exact absurd hm hr
    · simp at hserve
    · simp at hserve
  · exact h.2 ▸ hk
  · exact h ▸ hk

lemma Serves.creates {kvs kvs' : Kvs} {key : String} {c : Completed Request (Response Ip)}
    (h : Serves kvs c.op c.res kvs') (hc : Creates key c) : kvs key = none ∧ kvs' key ≠ none := by
  obtain ⟨hm, rfl, hstatus⟩ := hc
  simp only [Serves, hm, Method.writes, Kvs.serve] at h
  split at h
  · next hserve =>
    split at hserve
    · next hv =>
      obtain rfl := Option.some.inj hserve
      exact ⟨hv.2, by rw [h.2]; simp [Kvs.write]⟩
    · simp at hserve
  · omega
  · next hfalse => simp at hfalse

/-- Without a `DELETE`, a sequential map creates a key once. -/
lemma creates_once {kvs kvs' : Kvs} {order : List (Completed Request (Response Ip))}
    (h : Legal Serves kvs order kvs') (hdel : ∀ c ∈ order, c.op.method ≠ .DELETE) (key : String) :
    (kvs key ≠ none → ∀ c ∈ order, ¬ Creates key c) ∧
      ∀ c ∈ order, ∀ d ∈ order, Creates key c → Creates key d → c = d := by
  induction h with
  | nil => simp
  | @cons kvs kvs₁ kvs₂ c cs head tail ih =>
    obtain ⟨hnone, honce⟩ := ih fun d hd => hdel d (List.mem_cons_of_mem _ hd)
    refine ⟨fun hk d hd hcd => ?_, fun d hd d' hd' hcd hcd' => ?_⟩
    · rcases List.mem_cons.mp hd with rfl | hd
      · exact hk (head.creates hcd).1
      · exact hnone (head.keeps (hdel c List.mem_cons_self) hk) d hd hcd
    · rcases List.mem_cons.mp hd with rfl | hmem <;> rcases List.mem_cons.mp hd' with rfl | hmem'
      · rfl
      · exact absurd hcd' (hnone (head.creates hcd).2 d' hmem')
      · exact absurd hcd (hnone (head.creates hcd').2 d hmem)
      · exact honce d hmem d' hmem' hcd hcd'

namespace Solo

/-- Both calls pass the check before either has written. -/
def twoPosts : List (NodeAct (Fin 3)) :=
  firstBeat ++ posts 0 "k" "x" ++ posts 1 "k" "y" ++ beat 2 1 1 false ++
    [wake 0 "k" "x" 0 0, wake 1 "k" "y" 1 1] ++ beat 2 2 1 true ++
    [wake 1 "k" "y" 1 1] ++ beat 2 3 2 false ++ [wake 1 "k" "y" 1 1]

/-- A key is created twice, which no sequential map does. -/
theorem created_twice : ∃ s : Solo (Fin 3), Run step Master (start elected) s ∧
    ¬ Linearizable Serves elected.kvs s.hist := by
  obtain ⟨s, hrun, hhist⟩ : ∃ s, Run step Master (start elected) s ∧
      s.hist = [.call 0 ⟨0, .POST, "k", "x"⟩, .call 1 ⟨1, .POST, "k", "y"⟩,
        .ret 0 ⟨201, .json "k" (some "x")⟩, .ret 1 ⟨201, .json "k" (some "y")⟩] :=
    exists_of_exec twoPosts (by decide)
  refine ⟨s, hrun, ?_⟩
  rintro ⟨order, kvs, horder⟩
  have hpost : ∀ c ∈ order, c.op.method ≠ .DELETE := by
    intro c hc
    have hcall := ((horder.complete c).mp hc).1
    rw [hhist] at hcall
    rcases (by simpa using hcall : _ ∨ _) with ⟨-, hop⟩ | ⟨-, hop⟩ <;> simp [hop]
  have h₀ : (⟨0, ⟨0, .POST, "k", "x"⟩, ⟨201, .json "k" (some "x")⟩⟩ :
      Completed Request (Response (Fin 3))) ∈ order := by
    rw [horder.complete, hhist]
    simp
  have h₁ : (⟨1, ⟨1, .POST, "k", "y"⟩, ⟨201, .json "k" (some "y")⟩⟩ :
      Completed Request (Response (Fin 3))) ∈ order := by
    rw [horder.complete, hhist]
    simp
  have heq := (creates_once horder.legal hpost "k").2 _ h₀ _ h₁ ⟨rfl, rfl, rfl⟩ ⟨rfl, rfl, rfl⟩
  simp at heq

end Solo

end TiPI.DB
