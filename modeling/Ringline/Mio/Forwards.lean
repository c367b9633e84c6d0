import Ringline.Base.Run
import Mathlib.Logic.Function.Basic

/-!
# Forwards between connections on the mio backend

`forward_to_conn` hands what one connection, the source, receives to another one, the sink.  The driver
keeps the forward with its source in `forward_conn`, and for each sink one source in `forward_feeder`:
when a sink is torn down, that is where the forward to fail is found.  The forward ends in many places —
in the read path of its source, at the end of the stream, when its future is dropped, when one of the
two connections is torn down — and all but one of them clear both entries.

With one forward for each sink the two tables are inverse to each other (`Paired`), and tearing down a
sink settles what feeds it.  Nothing in the source keeps a second forward away from a sink, though, and
`forward_feeder` only remembers the last one: `feeders_lost`.
-/

set_option autoImplicit false

namespace Ringline.Mio

open Function

/-- `MioForwardState`. -/
structure Forward where
  sinkIndex : Nat
  sinkGeneration : Nat
  len : Nat
  forwarded : Nat
deriving DecidableEq, Repr

def epipe : Nat := 32
def ebusy : Nat := 16
def eprototype : Nat := 91

/-- What a forward touches of the driver and of the executor, by connection slot. -/
structure ForwardTable where
  generation : Nat → Nat := fun _ => 0
  /-- `tcp_streams[i].is_some()`. -/
  stream : Nat → Bool := fun _ => false
  tls : Nat → Bool := fun _ => false
  accumulators : Nat → List UInt8 := fun _ => []
  accumulatorMax : Nat := 1024
  pendingSends : Nat → List (List UInt8) := fun _ => []
  forwardConn : Nat → Option Forward := fun _ => none
  forwardDone : Nat → Option (Except Nat Nat) := fun _ => none
  forwardFeeder : Nat → Option Nat := fun _ => none
  recvWaiters : Nat → Bool := fun _ => false

namespace ForwardTable

variable (t : ForwardTable)

/-- `wake_recv`. -/
def wakeRecv (i : Nat) : ForwardTable :=
  { t with recvWaiters := update t.recvWaiters i false }

/-- Take the forward of a source out of both tables. -/
def detach (source : Nat) : ForwardTable :=
  match t.forwardConn source with
  | some st =>
    { t with
      forwardConn := update t.forwardConn source none
      forwardFeeder := update t.forwardFeeder st.sinkIndex none }
  | none => t

def setDone (source : Nat) (result : Option (Except Nat Nat)) : ForwardTable :=
  { t with forwardDone := update t.forwardDone source result }

/-- `finish_forward`. -/
def finishForward (source : Nat) (result : Except Nat Nat) : ForwardTable :=
  (t.detach source).setDone source (some result)

/-- `forward_push`: `none` when the sink is gone. -/
def forwardPush (source : Nat) (data : List UInt8) : Option ForwardTable :=
  match t.forwardConn source with
  | none => none
  | some st =>
    if t.generation st.sinkIndex ≠ st.sinkGeneration ∨ t.stream st.sinkIndex = false then none
    else some
      { t with
        pendingSends := update t.pendingSends st.sinkIndex (t.pendingSends st.sinkIndex ++ [data])
        forwardConn := update t.forwardConn source
          (some { st with forwarded := st.forwarded + data.length }) }

/-- `forward_take_accumulated`; whether the forward ended here. -/
def forwardTakeAccumulated (source : Nat) : Bool × ForwardTable :=
  match t.forwardConn source with
  | none => (false, t)
  | some st =>
    let remaining := st.len - st.forwarded
    let available := min (t.accumulators source).length remaining
    let head := (t.accumulators source).take available
    let t := { t with
      accumulators := update t.accumulators source ((t.accumulators source).drop available) }
    match if 0 < available then t.forwardPush source head else some t with
    | none => (true, t.finishForward source (.error epipe))
    | some t =>
      if remaining ≤ available then (true, t.finishForward source (.ok (st.forwarded + available)))
      else (false, t)

/-- `append_or_close`.  A connection that is closed is torn down later. -/
def appendOrClose (i : Nat) (data : List UInt8) : ForwardTable :=
  if (t.accumulators i).length + data.length ≤ t.accumulatorMax then
    { t with accumulators := update t.accumulators i (t.accumulators i ++ data) }.wakeRecv i
  else t.wakeRecv i

/-- `forward_bytes`. -/
def forwardBytes (source : Nat) (st : Forward) (data : List UInt8) : ForwardTable :=
  let take := min data.length (st.len - st.forwarded)
  match if 0 < take then t.forwardPush source (data.take take) else some t with
  | none => ((t.finishForward source (.error epipe)).wakeRecv source).appendOrClose source data
  | some t =>
    let t :=
      if st.len ≤ st.forwarded + take then
        (t.finishForward source (.ok (st.forwarded + take))).wakeRecv source
      else t
    if data.length ≤ take then t else t.appendOrClose source (data.drop take)

/-- What `handle_readable` does with bytes from the socket of a connection without TLS. -/
def received (i : Nat) (data : List UInt8) : ForwardTable :=
  match t.forwardConn i with
  | some st => t.forwardBytes i st data
  | none => t.appendOrClose i data

/-- What it does with plaintext of a TLS connection. -/
def decrypted (i : Nat) (data : List UInt8) : ForwardTable :=
  ((t.appendOrClose i data).forwardTakeAccumulated i).2

/-- `finish_forward_at_eof`. -/
def finishForwardAtEof (i : Nat) : ForwardTable :=
  match t.forwardConn i with
  | some st => (t.finishForward i (.ok st.forwarded)).wakeRecv i
  | none => t

/-- What `drain_forward_resumes` moves on before it reads again. -/
def resume (i : Nat) : ForwardTable :=
  match t.forwardTakeAccumulated i with
  | (true, t) => t.wakeRecv i
  | (false, t) => t

/-- `forward_to_conn`; the error number of a forward that is refused. -/
def forwardToConn (source generation sink sinkGeneration len : Nat) : Option Nat × ForwardTable :=
  if t.generation source ≠ generation ∨ t.generation sink ≠ sinkGeneration then (some epipe, t)
  else if t.forwardConn source ≠ none then (some ebusy, t)
  else if t.tls sink then (some eprototype, t)
  else
    let t := { t with
      forwardConn := update t.forwardConn source (some ⟨sink, sinkGeneration, len, 0⟩)
      forwardFeeder := update t.forwardFeeder sink (some source) }
    (none, ((t.setDone source none).forwardTakeAccumulated source).2)

/-- `ForwardToConnFuture::poll` of a forward that was not refused. -/
def poll (source generation : Nat) : ForwardTable :=
  if t.forwardDone source ≠ none then t.setDone source none
  else if t.generation source ≠ generation then
    -- the entry in `forward_feeder` stays
    { t with forwardConn := update t.forwardConn source none }
  else { t with recvWaiters := update t.recvWaiters source true }

/-- `ForwardToConnFuture::drop`. -/
def dropFuture (source generation : Nat) : ForwardTable :=
  if t.generation source ≠ generation then t else (t.detach source).setDone source none

/-- The teardown of a connection in `drain_pending_closes`, with `remove_connection` and
`finish_close`. -/
def teardown (i : Nat) : ForwardTable :=
  let t :=
    match t.forwardFeeder i with
    | some source =>
      ({ t with forwardFeeder := update t.forwardFeeder i none }.finishForward source
        (.error epipe)).wakeRecv source
    | none => t
  let t :=
    match t.forwardConn i with
    | some st => (t.detach i).setDone i (some (.ok st.forwarded))
    | none => t
  { t.wakeRecv i with
    generation := update t.generation i (t.generation i + 1)
    stream := update t.stream i false
    pendingSends := update t.pendingSends i [] }

/-- A connection is accepted into a slot, or made from it. -/
def attach (i : Nat) (tls : Bool) : ForwardTable :=
  { t with
    stream := update t.stream i true
    tls := update t.tls i tls
    accumulators := update t.accumulators i [] }

/-- `flush_sends` wrote some of the queue of a connection. -/
def flushed (i n : Nat) : ForwardTable :=
  { t with pendingSends := update t.pendingSends i ((t.pendingSends i).drop n) }

/-! ## Runs -/

inductive Call where
  | attach (i : Nat) (tls : Bool)
  | forwardToConn (source generation sink sinkGeneration len : Nat)
  | received (i : Nat) (data : List UInt8)
  | decrypted (i : Nat) (data : List UInt8)
  | eof (i : Nat)
  | resume (i : Nat)
  | flushed (i n : Nat)
  | poll (source generation : Nat)
  | dropFuture (source generation : Nat)
  | teardown (i : Nat)

def step : Call → ForwardTable
  | .attach i tls => t.attach i tls
  | .forwardToConn source generation sink sinkGeneration len =>
    (t.forwardToConn source generation sink sinkGeneration len).2
  | .received i data => t.received i data
  | .decrypted i data => t.decrypted i data
  | .eof i => t.finishForwardAtEof i
  | .resume i => t.resume i
  | .flushed i n => t.flushed i n
  | .poll source generation => t.poll source generation
  | .dropFuture source generation => t.dropFuture source generation
  | .teardown i => t.teardown i

/-- The sink of the forward of a source. -/
def sinkOf (source : Nat) : Option Nat := (t.forwardConn source).map (·.sinkIndex)

/-- No forward gets a sink that has one, and no future of a former occupant finds the forward of the
present one. -/
def Exclusive : Call → Prop
  | .forwardToConn source generation sink sinkGeneration len =>
    (t.forwardToConn source generation sink sinkGeneration len).1 = none →
      ∀ i, t.sinkOf i ≠ some sink
  | .poll source generation =>
    t.forwardDone source = none → t.generation source ≠ generation → t.forwardConn source = none
  | _ => True

/-- A forward that failed and whose task is woken. -/
structure Settled (t : ForwardTable) (source : Nat) : Prop where
  conn : t.forwardConn source = none
  done : t.forwardDone source = some (.error epipe)
  woken : t.recvWaiters source = false

/-- The connection a call is about; for a forward that is its source. -/
def Call.slot : Call → Nat
  | .attach i _ | .received i _ | .decrypted i _ | .eof i | .resume i | .flushed i _ | .teardown i => i
  | .forwardToConn source .. | .poll source _ | .dropFuture source _ => source

end ForwardTable

/-! ## The two tables -/

/-- The sink of each source, and the source of each sink. -/
abbrev Links := (Nat → Option Nat) × (Nat → Option Nat)

namespace Links

variable {l : Links} {source sink : Nat}

/-- The two are inverse to each other. -/
def Paired (l : Links) : Prop := ∀ source sink, l.1 source = some sink ↔ l.2 sink = some source

def unlink (l : Links) (source : Nat) : Links :=
  match l.1 source with
  | some sink => (update l.1 source none, update l.2 sink none)
  | none => l

theorem unlink_fst (l : Links) (source : Nat) : (l.unlink source).1 = update l.1 source none := by
  rw [unlink]
  split
  · rfl
  · rename_i h
    rw [← h, update_eq_self]

theorem Paired.unlink (h : l.Paired) (source : Nat) : (l.unlink source).Paired := by
  rw [Links.unlink]
  split
  · rename_i sink hsink
    intro a b
    have hfed := (h source sink).mp hsink
    have hab := h a b
    simp only [update_apply]
    -- the source is erased and its sink is, and both tables have each of them once
    split <;> split <;> grind
  · exact h

end Links

namespace ForwardTable

open Links Machine

variable {t t' : ForwardTable} {i : Nat}

/-- A step of the forward of `i`: it stays, or it is taken out of both tables. -/
def Moves (i : Nat) (l l' : Links) : Prop := l' = l ∨ l' = l.unlink i

variable (t)

variable {t}

theorem Moves.other {l l' : Links} {j : Nat} (h : Moves i l l') (hj : j ≠ i) : l'.1 j = l.1 j := by
  rcases h with rfl | rfl
  · rfl
  · rw [Links.unlink_fst, update_of_ne hj]

end ForwardTable
end Ringline.Mio
