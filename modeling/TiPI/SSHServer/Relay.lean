import TiPI.Lib.Run
import Mathlib.Data.UInt

/-!
# The relay of the server thread

Once a client is connected, `TcpServerThread` goes round a loop: the stop event, `select` on the
client, what the child has written to its pipe, what the client has sent. Both directions use the
one buffer `rbuf`, in which a zero is put behind the bytes of a chunk to log them as a string.

What the calls return are the events. Sleeps and the lines of the log are left out.
-/

namespace TiPI.SSHServer

/-- `sizeof(rbuf)`. -/
def RBUF_SIZE : Nat := 2048

def WSAEINTR : Nat := 10004
def WSAEWOULDBLOCK : Nat := 10035
def WSAECONNRESET : Nat := 10054
def WSAENOTCONN : Nat := 10057
def WSAESHUTDOWN : Nat := 10058
def ERROR_BROKEN_PIPE : Nat := 109
def ERROR_NO_DATA : Nat := 232

/-- The call that comes next. `readable` is what `select` has said of the client. -/
inductive Phase
  | wait
  | select
  | peek (readable : Bool)
  | readFile (readable : Bool)
  | send (readable : Bool) (bytesRead totalSent : Nat)
  | recv
  | writeFile (toWrite writtenTotal : Nat)
  deriving DecidableEq, Repr

inductive Event
  | wait (stopped : Bool)
  /-- `none` is `SOCKET_ERROR` -/
  | select (readable : Option Bool)
  /-- the bytes `PeekNamedPipe` finds, `0` also when it fails -/
  | peek (avail : Nat)
  | readFile (chunk : List UInt8)
  /-- also a success without bytes -/
  | readFileFails (err : Nat)
  | send (sent : Nat)
  | sendFails (err : Nat)
  /-- no bytes are the end of the connection -/
  | recv (chunk : List UInt8)
  | recvFails (err : Nat)
  | writeFile (bytesWritten : Nat)
  | writeFileFails (err : Nat)
  deriving DecidableEq, Repr

structure Relay where
  rbuf : List UInt8
  phase : Phase
  /-- the loop has been left, at this phase -/
  left : Bool
  /-- the chunks from `ReadFile` and from `recv`, oldest first -/
  fromChild : List (List UInt8)
  fromClient : List (List UInt8)
  /-- the bytes that `send` and `WriteFile` have accepted -/
  sent : List UInt8
  written : List UInt8
  deriving DecidableEq, Repr

/-- Where the zero goes behind a chunk of the child. -/
def logLen (bytesRead : Nat) : Nat :=
  if bytesRead < RBUF_SIZE - 1 then bytesRead else RBUF_SIZE - 1

/-- The first bytes of a buffer replaced. -/
def fill (buf chunk : List UInt8) : List UInt8 := chunk ++ buf.drop chunk.length

namespace Relay

/-- The client has just been accepted; `rbuf` is not initialised. -/
def init (rbuf : List UInt8) : Relay := ⟨rbuf, .wait, false, [], [], [], []⟩

def leave (s : Relay) : Relay := { s with left := true }

def next (s : Relay) (phase : Phase) : Relay := { s with phase := phase }

/-- Behind the part of the loop for the child. -/
def clientPart (readable : Bool) : Phase := if readable then .recv else .wait

def step (s : Relay) (e : Event) : Option Relay :=
  if s.left then none
  else
    match s.phase, e with
    | .wait, .wait stopped => some (if stopped then s.leave else s.next .select)
    | .select, .select none => some s.leave
    | .select, .select (some readable) => some (s.next (.peek readable))
    | .peek readable, .peek avail =>
      some (s.next (if avail > 0 then .readFile readable else clientPart readable))
    | .readFile readable, .readFile chunk =>
      if 0 < chunk.length ∧ chunk.length ≤ RBUF_SIZE then
        some { s with
          rbuf := (fill s.rbuf chunk).set (logLen chunk.length) 0
          phase := .send readable chunk.length 0
          fromChild := s.fromChild ++ [chunk] }
      else none
    | .readFile readable, .readFileFails err =>
      some (if err = ERROR_BROKEN_PIPE then s.leave else s.next (clientPart readable))
    | .send readable bytesRead totalSent, .send sent =>
      if sent ≤ bytesRead - totalSent then
        some { s with
          phase := if totalSent + sent < bytesRead then .send readable bytesRead (totalSent + sent)
            else clientPart readable
          sent := s.sent ++ (s.rbuf.drop totalSent).take sent }
      else none
    | .send _ _ _, .sendFails err =>
      some (if err = WSAECONNRESET ∨ err = WSAENOTCONN ∨ err = WSAESHUTDOWN then s.leave else s)
    | .recv, .recv chunk =>
      if chunk.length = 0 then some s.leave
      else if chunk.length ≤ RBUF_SIZE - 1 then
        some { s with
          rbuf := (fill s.rbuf chunk).set chunk.length 0
          phase := .writeFile chunk.length 0
          fromClient := s.fromClient ++ [chunk] }
      else none
    | .recv, .recvFails err =>
      some (if err = WSAEWOULDBLOCK ∨ err = WSAEINTR then s.next .wait else s.leave)
    | .writeFile toWrite writtenTotal, .writeFile bytesWritten =>
      if bytesWritten ≤ toWrite - writtenTotal then
        some { s with
          phase := if writtenTotal + bytesWritten < toWrite
            then .writeFile toWrite (writtenTotal + bytesWritten) else .wait
          written := s.written ++ (s.rbuf.drop writtenTotal).take bytesWritten }
      else none
    | .writeFile _ _, .writeFileFails err =>
      some (if err = ERROR_NO_DATA ∨ err = ERROR_BROKEN_PIPE then s.leave else s)
    | _, _ => none

/-- What the next `send` is given. -/
def toSend (s : Relay) : List UInt8 :=
  match s.phase with
  | .send _ bytesRead totalSent => (s.rbuf.drop totalSent).take (bytesRead - totalSent)
  | _ => []

/-- What the next `WriteFile` is given. -/
def toWrite (s : Relay) : List UInt8 :=
  match s.phase with
  | .writeFile toWrite writtenTotal => (s.rbuf.drop writtenTotal).take (toWrite - writtenTotal)
  | _ => []

/-- The bytes accepted so far and those that are still to come are those of the chunks. -/
def Exact (s : Relay) : Prop :=
  s.sent ++ s.toSend = s.fromChild.flatten ∧ s.written ++ s.toWrite = s.fromClient.flatten

/-! ### What is sent for a chunk -/

/-- A chunk of the child as it stands in the buffer when it is sent. -/
def logged (chunk : List UInt8) : List UInt8 := chunk.set (logLen chunk.length) 0

@[simp] lemma length_logged (chunk : List UInt8) : (logged chunk).length = chunk.length := by
  simp [logged]

/-- The zero spares a chunk that leaves room for it, or that ends in a zero anyway. -/
lemma logged_eq_iff {chunk : List UInt8} (hsize : chunk.length ≤ RBUF_SIZE) :
    logged chunk = chunk ↔ (chunk.length = RBUF_SIZE → chunk.getLast? = some 0) := by
  by_cases hfull : chunk.length = RBUF_SIZE
  · have hlen : logLen chunk.length = chunk.length - 1 := by
      rw [hfull]
      rfl
    have hlast : chunk.length - 1 < chunk.length := by
      rw [hfull]
      decide
    rw [logged, hlen, List.getLast?_eq_getElem?, imp_iff_right hfull]
    constructor
    · intro h
      rw [← h, List.length_set]
      simp [hlast]
    · intro h
      obtain ⟨_, hzero⟩ := List.getElem?_eq_some_iff.1 h
      rw [← hzero]
      exact List.set_getElem_self hlast
  · have hlen : logLen chunk.length = chunk.length := by
      unfold logLen RBUF_SIZE
      unfold RBUF_SIZE at hsize hfull
      split_ifs <;> omega
    simp only [hfull, false_implies, iff_true, logged, hlen]
    exact List.set_eq_of_length_le le_rfl

lemma take_fill_set (buf chunk : List UInt8) (k : Nat) :
    ((fill buf chunk).set k 0).take chunk.length = chunk.set k 0 := by
  rw [List.take_set, fill, List.take_left]

lemma length_fill {buf chunk : List UInt8} (h : chunk.length ≤ buf.length) :
    (fill buf chunk).length = buf.length := by
  simp only [fill, List.length_append, List.length_drop]
  omega

/-- Chunks that keep their lengths keep their bytes together when each does. -/
lemma flatten_map_eq_iff {α : Type} {f : List α → List α} {l : List (List α)}
    (hlen : ∀ c, (f c).length = c.length) :
    (l.map f).flatten = l.flatten ↔ ∀ c ∈ l, f c = c := by
  induction l with
  | nil => simp
  | cons c l ih =>
    rw [List.map_cons, List.flatten_cons, List.flatten_cons, List.forall_mem_cons, ← ih]
    constructor
    · intro h
      exact List.append_inj h (hlen c)
    · rintro ⟨hc, hl⟩
      rw [hc, hl]

/-! ### The invariant -/

/-- The buffer holds what is still to come; the child's chunks are as they were logged. -/
structure Inv (s : Relay) : Prop where
  size : s.rbuf.length = RBUF_SIZE
  sending : ∀ readable b t, s.phase = .send readable b t → t < b ∧ b ≤ RBUF_SIZE
  writing : ∀ b t, s.phase = .writeFile b t → t < b ∧ b ≤ RBUF_SIZE
  chunks : ∀ chunk ∈ s.fromChild, chunk.length ≤ RBUF_SIZE
  sent : s.sent ++ s.toSend = (s.fromChild.map logged).flatten
  written : s.written ++ s.toWrite = s.fromClient.flatten

lemma inv_init {rbuf : List UInt8} (h : rbuf.length = RBUF_SIZE) : (init rbuf).Inv := by
  constructor <;> simp [init, h, toSend, toWrite]

/-! ### Steps -/

/-- No chunk is on its way. -/
def idle (s : Relay) : Prop :=
  (∀ readable b t, s.phase ≠ .send readable b t) ∧ ∀ b t, s.phase ≠ .writeFile b t

/-- What a step does. -/
inductive StepCase (s : Relay) : Relay → Prop
  | leaves : StepCase s s.leave
  | retries : StepCase s s
  | moves (phase : Phase) (hs : s.idle) (hs' : (s.next phase).idle) : StepCase s (s.next phase)
  | reads (readable : Bool) (chunk : List UInt8) (hs : s.phase = .readFile readable)
      (hpos : 0 < chunk.length) (hsize : chunk.length ≤ RBUF_SIZE) :
      StepCase s { s with
        rbuf := (fill s.rbuf chunk).set (logLen chunk.length) 0
        phase := .send readable chunk.length 0
        fromChild := s.fromChild ++ [chunk] }
  | sends (readable : Bool) (b t n : Nat) (hs : s.phase = .send readable b t) (hn : n ≤ b - t) :
      StepCase s { s with
        phase := if t + n < b then .send readable b (t + n) else clientPart readable
        sent := s.sent ++ (s.rbuf.drop t).take n }
  | receives (chunk : List UInt8) (hs : s.phase = .recv) (hpos : 0 < chunk.length)
      (hsize : chunk.length ≤ RBUF_SIZE - 1) :
      StepCase s { s with
        rbuf := (fill s.rbuf chunk).set chunk.length 0
        phase := .writeFile chunk.length 0
        fromClient := s.fromClient ++ [chunk] }
  | writes (b t n : Nat) (hs : s.phase = .writeFile b t) (hn : n ≤ b - t) :
      StepCase s { s with
        phase := if t + n < b then .writeFile b (t + n) else .wait
        written := s.written ++ (s.rbuf.drop t).take n }

lemma idle_clientPart (s : Relay) (readable : Bool) : (s.next (clientPart readable)).idle := by
  cases readable <;> simp [idle, next, clientPart]

lemma step_cases {s s' : Relay} {e : Event} (h : s.step e = some s') : StepCase s s' := by
  unfold step at h
  split_ifs at h
  split at h
  · next stopped hs =>
    obtain rfl := Option.some.inj h
    cases stopped with
    | false => exact .moves _ (by simp [idle, hs]) (by simp [idle, next])
    | true => exact .leaves
  · next hs =>
    obtain rfl := Option.some.inj h
    exact .leaves
  · next readable hs =>
    obtain rfl := Option.some.inj h
    exact .moves _ (by simp [idle, hs]) (by simp [idle, next])
  · next readable avail hs =>
    obtain rfl := Option.some.inj h
    refine .moves _ (by simp [idle, hs]) ?_
    split_ifs
    · simp [idle, next]
    · exact idle_clientPart s readable
  · next readable chunk hs =>
    split_ifs at h with hchunk
    obtain rfl := Option.some.inj h
    exact .reads readable chunk hs hchunk.1 hchunk.2
  · next readable err hs =>
    obtain rfl := Option.some.inj h
    split_ifs
    · exact .leaves
    · exact .moves _ (by simp [idle, hs]) (idle_clientPart s readable)
  · next readable b t n hs =>
    split at h
    · next hn =>
      obtain rfl := Option.some.inj h
      exact .sends readable b t n hs hn
    · cases h
  · next err hs =>
    obtain rfl := Option.some.inj h
    split_ifs
    · exact .leaves
    · exact .retries
  · next chunk hs =>
    split_ifs at h with hclosed hchunk
    · obtain rfl := Option.some.inj h
      exact .leaves
    · obtain rfl := Option.some.inj h
      exact .receives chunk hs (Nat.pos_of_ne_zero hclosed) hchunk
  · next err hs =>
    obtain rfl := Option.some.inj h
    split_ifs
    · exact .moves _ (by simp [idle, hs]) (by simp [idle, next])
    · exact .leaves
  · next b t n hs =>
    split at h
    · next hn =>
      obtain rfl := Option.some.inj h
      exact .writes b t n hs hn
    · cases h
  · next err hs =>
    obtain rfl := Option.some.inj h
    split_ifs
    · exact .leaves
    · exact .retries
  · cases h

/-- Without a chunk on its way, nothing is to be sent or written. -/
lemma toSend_eq_nil {s : Relay} (h : ∀ readable b t, s.phase ≠ .send readable b t) :
    s.toSend = [] := by
  unfold toSend
  split
  · next hs => exact absurd hs (h _ _ _)
  · rfl

lemma toWrite_eq_nil {s : Relay} (h : ∀ b t, s.phase ≠ .writeFile b t) : s.toWrite = [] := by
  unfold toWrite
  split
  · next hs => exact absurd hs (h _ _)
  · rfl

lemma Inv.leave {s : Relay} (h : s.Inv) : s.leave.Inv :=
  ⟨h.size, h.sending, h.writing, h.chunks, h.sent, h.written⟩

lemma Inv.next {s : Relay} (h : s.Inv) {phase : Phase} (hs : s.idle)
    (hs' : (s.next phase).idle) : (s.next phase).Inv where
  size := h.size
  sending readable b t hp := absurd hp (hs'.1 readable b t)
  writing b t hp := absurd hp (hs'.2 b t)
  chunks := h.chunks
  sent := by
    rw [toSend_eq_nil hs'.1, ← toSend_eq_nil hs.1]
    exact h.sent
  written := by
    rw [toWrite_eq_nil hs'.2, ← toWrite_eq_nil hs.2]
    exact h.written

/-- A part of what is to be sent is accepted, and the rest is still there. -/
lemma take_drop_append (buf : List UInt8) {b t n : Nat} (hn : n ≤ b - t) :
    (buf.drop t).take n ++ (buf.drop (t + n)).take (b - (t + n)) =
      (buf.drop t).take (b - t) := by
  obtain ⟨m, hm⟩ := Nat.exists_eq_add_of_le hn
  have hrest : b - (t + n) = m := by omega
  rw [hrest, hm, List.take_add, List.drop_drop]

/-- Behind a partial `send` the rest is to be sent, and behind a whole one nothing. -/
lemma toSend_rest (s : Relay) (readable : Bool) (b t : Nat) (sent : List UInt8) :
    toSend { s with
      phase := if t < b then .send readable b t else clientPart readable
      sent := sent } = (s.rbuf.drop t).take (b - t) := by
  split_ifs with hlt
  · rfl
  · rw [Nat.sub_eq_zero_of_le (by omega), List.take_zero]
    cases readable <;> rfl

lemma toWrite_rest (s : Relay) (b t : Nat) (written : List UInt8) :
    toWrite { s with
      phase := if t < b then .writeFile b t else .wait
      written := written } = (s.rbuf.drop t).take (b - t) := by
  split_ifs with hlt
  · rfl
  · rw [Nat.sub_eq_zero_of_le (by omega), List.take_zero]
    rfl

lemma Inv.step {s s' : Relay} {e : Event} (h : s.Inv) (hstep : s.step e = some s') : s'.Inv := by
  cases step_cases hstep with
  | leaves => exact h.leave
  | retries => exact h
  | moves phase hs hs' => exact h.next hs hs'
  | reads readable chunk hs hpos hsize =>
    have hidle : s.idle := by simp [idle, hs]
    have hbuf : chunk.length ≤ s.rbuf.length := by rwa [h.size]
    refine ⟨?_, ?_, ?_, ?_, ?_, ?_⟩
    · simpa [length_fill hbuf] using h.size
    · rintro _ _ _ ⟨⟩
      exact ⟨hpos, hsize⟩
    · rintro _ _ ⟨⟩
    · intro c hc
      rcases List.mem_append.1 hc with hc | hc
      · exact h.chunks c hc
      · rwa [List.mem_singleton.1 hc]
    · have hsent := h.sent
      rw [toSend_eq_nil hidle.1, List.append_nil] at hsent
      simp only [toSend, List.drop_zero, Nat.sub_zero, take_fill_set, List.map_append,
        List.flatten_append, hsent]
      simp [logged]
    · have hwritten := h.written
      rw [toWrite_eq_nil hidle.2] at hwritten
      exact hwritten
  | sends readable b t n hs hn =>
    obtain ⟨-, hb⟩ := h.sending readable b t hs
    have hphase : ∀ b' t', (if t + n < b then .send readable b (t + n) else clientPart readable) ≠
        Phase.writeFile b' t' := by
      intro b' t'
      split_ifs
      · simp
      · cases readable <;> simp [clientPart]
    refine ⟨h.size, ?_, fun b' t' hp => absurd hp (hphase b' t'), h.chunks, ?_, ?_⟩
    · intro r b' t' hp
      simp only at hp
      split_ifs at hp with hlt
      · obtain ⟨-, rfl, rfl⟩ := Phase.send.inj hp
        exact ⟨hlt, hb⟩
      · cases readable <;> cases hp
    · have hsent := h.sent
      simp only [toSend, hs] at hsent
      rw [toSend_rest, List.append_assoc, take_drop_append _ hn]
      exact hsent
    · have hwritten := h.written
      rw [toWrite_eq_nil (by simp [hs])] at hwritten
      rw [toWrite_eq_nil hphase]
      exact hwritten
  | receives chunk hs hpos hsize =>
    have hidle : s.idle := by simp [idle, hs]
    have hbuf : chunk.length ≤ s.rbuf.length := by
      rw [h.size]
      omega
    refine ⟨?_, ?_, ?_, h.chunks, ?_, ?_⟩
    · simpa [length_fill hbuf] using h.size
    · rintro _ _ _ ⟨⟩
    · rintro _ _ ⟨⟩
      exact ⟨hpos, by omega⟩
    · have hsent := h.sent
      rw [toSend_eq_nil hidle.1] at hsent
      exact hsent
    · have hwritten := h.written
      rw [toWrite_eq_nil hidle.2, List.append_nil] at hwritten
      simp only [toWrite, List.drop_zero, Nat.sub_zero, take_fill_set, List.flatten_append,
        hwritten, List.set_eq_of_length_le le_rfl]
      simp
  | writes b t n hs hn =>
    obtain ⟨-, hb⟩ := h.writing b t hs
    have hphase : ∀ readable b' t', (if t + n < b then .writeFile b (t + n) else .wait) ≠
        Phase.send readable b' t' := by
      intro readable b' t'
      split_ifs <;> simp
    refine ⟨h.size, fun r b' t' hp => absurd hp (hphase r b' t'), ?_, h.chunks, ?_, ?_⟩
    · intro b' t' hp
      simp only at hp
      split_ifs at hp with hlt
      obtain ⟨rfl, rfl⟩ := Phase.writeFile.inj hp
      exact ⟨hlt, hb⟩
    · have hsent := h.sent
      rw [toSend_eq_nil (by simp [hs])] at hsent
      rw [toSend_eq_nil hphase]
      exact hsent
    · have hwritten := h.written
      simp only [toWrite, hs] at hwritten
      rw [toWrite_rest, List.append_assoc, take_drop_append _ hn]
      exact hwritten

lemma Inv.reach {s s' : Relay} (h : s.Inv) (hrun : Reach Relay.step s s') : s'.Inv :=
  hrun.invariant h fun _ _ _ hs _ hstep => hs.step hstep

/-! ### Exact relays -/

lemma Inv.exact_iff {s : Relay} (h : s.Inv) :
    s.Exact ↔ ∀ chunk ∈ s.fromChild, chunk.length = RBUF_SIZE → chunk.getLast? = some 0 := by
  rw [Exact, and_iff_left h.written, h.sent, flatten_map_eq_iff length_logged]
  constructor
  · intro hall chunk hmem
    exact (logged_eq_iff (h.chunks chunk hmem)).1 (hall chunk hmem)
  · intro hall chunk hmem
    exact (logged_eq_iff (h.chunks chunk hmem)).2 (hall chunk hmem)

/-- Whatever the calls return, both directions are relayed byte by byte as long as each chunk of the
child that fills the whole buffer ends in a zero, and no longer. -/
theorem relay_exact_iff {rbuf : List UInt8} (h : rbuf.length = RBUF_SIZE) {s : Relay}
    (hrun : Reach step (init rbuf) s) :
    s.Exact ↔ ∀ chunk ∈ s.fromChild, chunk.length = RBUF_SIZE → chunk.getLast? = some 0 :=
  ((inv_init h).reach hrun).exact_iff

/-- The child's chunk is in the buffer, the client has nothing to say. -/
def reading (rbuf chunk : List UInt8) : Relay :=
  { init ((fill rbuf chunk).set (logLen chunk.length) 0) with
    phase := .send false chunk.length 0
    fromChild := [chunk] }

lemma reach_reading (rbuf : List UInt8) {chunk : List UInt8} (hpos : 0 < chunk.length)
    (hsize : chunk.length ≤ RBUF_SIZE) : Reach step (init rbuf) (reading rbuf chunk) := by
  refine .head ⟨.wait false, trivial, rfl⟩ ?_
  refine .head ⟨.select (some false), trivial, rfl⟩ ?_
  refine .head ⟨.peek 1, trivial, rfl⟩ ?_
  refine .single ⟨.readFile chunk, trivial, ?_⟩
  simp [step, init, next, reading, hpos, hsize]

theorem relay_exact_three :
    (reading (List.replicate RBUF_SIZE 0) [104, 105, 10]).Exact := by
  refine (relay_exact_iff List.length_replicate (reach_reading _ ?_ ?_)).2 ?_
  · decide
  · decide
  · intro chunk hmem hfull
    obtain rfl : chunk = [104, 105, 10] := List.mem_singleton.1 hmem
    exact absurd hfull (by decide)

/-- A chunk of 2048 bytes loses its last byte to the zero. -/
theorem full_chunk_not_exact : ∃ s, Reach step (init (List.replicate RBUF_SIZE 0)) s ∧
    s.fromChild = [List.replicate RBUF_SIZE 10] ∧ ¬s.Exact := by
  have hlen : (List.replicate RBUF_SIZE (10 : UInt8)).length = RBUF_SIZE := List.length_replicate
  have hrun := reach_reading (List.replicate RBUF_SIZE 0) (by rw [hlen]; decide) hlen.le
  refine ⟨_, hrun, rfl, ?_⟩
  rw [((inv_init List.length_replicate).reach hrun).exact_iff]
  intro hall
  have hlast := hall (List.replicate RBUF_SIZE 10) (List.mem_singleton.2 rfl) hlen
  rw [RBUF_SIZE, List.getLast?_replicate, if_neg (by decide)] at hlast
  exact absurd hlast (by decide)

end Relay

end TiPI.SSHServer
