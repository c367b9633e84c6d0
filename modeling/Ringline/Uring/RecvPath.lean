import Ringline.Uring.RecvAccumulator
import Ringline.Uring.Worker
import Ringline.Base.Run

/-!
# Receiving on a connection

The receive side of one plaintext connection in the default mode: no sink, no segments, nothing that
is forwarded.  Data arrives through a multishot receive, in buffers that the kernel takes from a
ring.  The first buffer is kept as it is (`held`) and given back when a task has looked at it;
whatever arrives while there is something unread is copied into the accumulator and its buffer is
given back.

When the ring is empty the multishot receive ends with `ENOBUFS`.  The connection is parked, and the
loop either arms the receive again or, if a message is half delivered, reads a piece of it into a
buffer of its own (the *fallback*).

This is one occupant of a slot.  What the kernel delivers, whether it takes a submission, whether
there are free buffers and what the closures of a task answer are inputs.  `multiLive` and
`fallbackLive` say which receives the kernel has, which the flags of the driver do not always tell:
a connection that is being closed forgets about both.
-/

set_option autoImplicit false

namespace Ringline.Uring

inductive ParseResult where
  | consumed (n : Nat)
  | needMore
  | needAtLeast (additional : Nat)
deriving DecidableEq

/-- `PendingRecvBuf`, with what is in the buffer. -/
structure HeldBuf where
  bid : Nat
  data : Bytes
deriving DecidableEq

structure RecvConn where
  /-- `pending_recv_bufs`. -/
  held : Option HeldBuf
  accumulator : RecvAccumulator
  /-- Whether `recv_starved` has the connection. -/
  recvStarved : Bool
  recvMultishotArmed : Bool
  recvFallbackInflight : Bool
  lifecycle : Lifecycle
  read : ReadHalf
  /-- `pending_replenish`, as far as it comes from this connection. -/
  pendingReplenish : List Nat
  /-- The buffers that went back to the ring. -/
  replenished : List Nat
  /-- The connection was closed since the accumulator is full. -/
  overflowed : Bool
  /-- The kernel has a multishot receive for the connection. -/
  multiLive : Bool
  /-- The kernel has a fallback receive for the connection. -/
  fallbackLive : Bool

namespace RecvConn

variable (c : RecvConn)

/-- `recv_finished`. -/
def recvFinished : Bool := c.read != .open || c.lifecycle == .closing

/-- `close_connection`. -/
def closeConnection : RecvConn :=
  match c.lifecycle with
  | .inactive | .closing => c
  | _ => { c with lifecycle := .closing, recvFallbackInflight := false }

def noteEof : RecvConn :=
  if c.read = .eof true then c else { c with read := .eof false }

/-- `submit_multishot_recv`, and what follows if the kernel does not take it. -/
def submitMultishot (ok : Bool) : RecvConn :=
  if ok then { c with recvMultishotArmed := true, multiLive := true } else c.closeConnection

/-- A connection whose receive is armed by `arm_recv`. -/
def new (maxSize : Nat) (ok : Bool) : RecvConn :=
  submitMultishot
    { held := none
      accumulator := .newWithMax maxSize
      recvStarved := false
      recvMultishotArmed := false
      recvFallbackInflight := false
      lifecycle := .open
      read := .open
      pendingReplenish := []
      replenished := []
      overflowed := false
      multiLive := false
      fallbackLive := false } ok

/-- The accumulator is full. -/
def overflow : RecvConn := { c.closeConnection with overflowed := true }

/-- The held buffer is copied into the accumulator and given back. -/
def spill : RecvConn × Bool :=
  match c.held with
  | some p =>
    ({ c with
      held := none
      accumulator := (c.accumulator.append p.data).1
      pendingReplenish := c.pendingReplenish ++ [p.bid] }, (c.accumulator.append p.data).2)
  | none => (c, true)

/-! ## The completions -/

inductive RecvResult where
  | data (bid : Nat) (bytes : Bytes)
  /-- Bytes, but no buffer. -/
  | unselected
  | eof
  | enobufs
  | canceled
  | error

/-- The plaintext path of `handle_recv_multi`; whether there was room. -/
def deliver (bid : Nat) (bytes : Bytes) : RecvConn × Bool :=
  if c.accumulator.isEmpty && c.held.isNone then ({ c with held := some ⟨bid, bytes⟩ }, true)
  else
    let (c, spilled) := c.spill
    let (accumulator, fits) :=
      if spilled then c.accumulator.append bytes else (c.accumulator, false)
    let c := { c with accumulator, pendingReplenish := c.pendingReplenish ++ [bid] }
    if fits then (c, true) else (c.overflow, false)

/-- `rearm_multishot_if_idle`. -/
def rearmMultishotIfIdle (ok : Bool) : RecvConn :=
  if !c.recvMultishotArmed && c.lifecycle == .open then c.submitMultishot ok else c

/-- The end of `handle_recv_multi`, which is not reached if there was no room. -/
def rearm (r : RecvConn × Bool) (more ok : Bool) : RecvConn :=
  if r.2 && !more && r.1.lifecycle == .open then r.1.submitMultishot ok else r.1

/-- `handle_recv_multi`, where `more` is `IORING_CQE_F_MORE` and `ok` the answer to a submission. -/
def handleRecvMulti (result : RecvResult) (more ok : Bool) : RecvConn :=
  let c := if more then c else { c with multiLive := false }
  if c.lifecycle = .inactive then
    match result with
    | .data bid _ => { c with pendingReplenish := c.pendingReplenish ++ [bid] }
    | _ => c
  else
    let c := if more then c else { c with recvMultishotArmed := false }
    match result with
    | .eof => c.noteEof.closeConnection
    | .enobufs => if more then c else { c with recvStarved := true }
    -- a cancelled receive is gone, whatever the flag says
    | .canceled => { c with recvMultishotArmed := false, multiLive := false }.rearmMultishotIfIdle ok
    | .error => if more then c else { c with read := .error }.closeConnection
    | .unselected => if more then c else c.closeConnection
    | .data bid bytes => rearm (c.deliver bid bytes) more ok

inductive FallbackResult where
  | data (bytes : Bytes)
  | eof
  | canceled
  | error

/-- `handle_recv_fallback`. -/
def handleRecvFallback (result : FallbackResult) : RecvConn :=
  let c := { c with fallbackLive := false }
  if c.lifecycle = .inactive then c
  else
    let c := { c with recvFallbackInflight := false }
    match result with
    | .canceled => { c with recvStarved := true }
    | .error => { c with read := .error }.closeConnection
    | .eof => c.noteEof.closeConnection
    | .data bytes =>
      match c.accumulator.append bytes with
      | (accumulator, true) => { c with accumulator, recvStarved := true }
      | (_, false) => c.overflow

/-- The first loop of `flush_replenish_and_rearm`. -/
def flushHeld : RecvConn :=
  if c.recvStarved then
    match c.spill with
    | (c, true) => c
    | (c, false) => c.overflow
  else c

/-- `flush_replenish_and_rearm`.  Whether the ring has free buffers, the pool of the fallback a slot
and the kernel room for a submission are inputs. -/
def flushReplenishAndRearm (free slot ok : Bool) : RecvConn :=
  let c := c.flushHeld
  let replenished := !c.pendingReplenish.isEmpty
  let c := { c with pendingReplenish := [], replenished := c.replenished ++ c.pendingReplenish }
  if !c.recvStarved || c.recvFallbackInflight then c
  else if c.lifecycle ≠ .open then { c with recvStarved := false }
  else
    let (accumulator, data) := c.accumulator.data
    let c := { c with accumulator }
    if !data.isEmpty && slot then
      { c with recvStarved := false, recvFallbackInflight := true, fallbackLive := true }
    else if replenished || free then { c with recvStarved := false }.submitMultishot ok
    else c

/-- `handle_close`. -/
def handleClose : RecvConn :=
  if c.lifecycle = .closing then
    { c with
      held := none
      pendingReplenish := c.pendingReplenish ++ c.held.toList.map HeldBuf.bid
      lifecycle := .inactive
      read := .open
      recvMultishotArmed := false }
  else c

/-! ## The tasks -/

/-- What a poll leaves: the connection, what the future is ready with, and the bytes that the
closure has taken. -/
structure Polled where
  conn : RecvConn
  ready : Option Nat
  taken : Bytes

/-- `with_data` and `with_bytes` when there is nothing to look at. -/
def pollEmpty (f : Bytes → ParseResult) : Polled :=
  if c.recvFinished then
    match f [] with
    | .consumed n => ⟨c, some n, []⟩
    | _ => ⟨c, some 0, []⟩
  else ⟨c, none, []⟩

/-- The closure wants more than there is. -/
def pollIncomplete : Polled := ⟨c, if c.recvFinished then some 0 else none, []⟩

/-- The part of `WithDataFuture::poll` that looks at the accumulator. -/
def pollAccumulator (f : Bytes → ParseResult) : Polled :=
  let (accumulator, data) := c.accumulator.data
  let c := { c with accumulator }
  if data.isEmpty then c.pollEmpty f
  else
    match f data with
    | .consumed (n + 1) =>
      ⟨{ c with accumulator := c.accumulator.consume (n + 1) }, some (n + 1), data.take (n + 1)⟩
    | _ => c.pollIncomplete

/-- `WithDataFuture::poll`.  A closure that is called for the held buffer and wants more is called
again for the accumulator, and may answer differently. -/
def withData (f g : Bytes → ParseResult) : Polled :=
  if c.lifecycle = .inactive then ⟨c, some 0, []⟩
  else
    match c.held with
    | none => c.pollAccumulator g
    | some p =>
      if c.accumulator.isEmpty then
        match f p.data with
        | .consumed (n + 1) =>
          let accumulator :=
            if n + 1 < p.data.length then (c.accumulator.append (p.data.drop (n + 1))).1
            else c.accumulator
          ⟨{ c with
              held := none, accumulator, pendingReplenish := c.pendingReplenish ++ [p.bid] },
            some (n + 1), p.data.take (n + 1)⟩
        | _ => c.spill.1.pollAccumulator g
      else
        { c with
          held := none
          accumulator := c.accumulator.prepend p.data
          pendingReplenish := c.pendingReplenish ++ [p.bid] }.pollAccumulator g

/-- `WithBytesFuture::poll`. -/
def withBytes (f : Bytes → ParseResult) : Polled :=
  if c.lifecycle = .inactive then ⟨c, some 0, []⟩
  else
    let c := c.spill.1
    let (accumulator, data) := c.accumulator.data
    let c := { c with accumulator }
    if data.isEmpty then c.pollEmpty f
    else
      let (accumulator, frozen) := c.accumulator.takeFrozen
      match f frozen with
      | .consumed (n + 1) =>
        let accumulator :=
          if n + 1 < frozen.length then accumulator.putBack (frozen.drop (n + 1)) else accumulator
        ⟨{ c with accumulator }, some (n + 1), frozen.take (n + 1)⟩
      | _ => { c with accumulator := accumulator.putBack frozen }.pollIncomplete

end RecvConn

/-! ## The connection as a machine -/

inductive RecvEvent where
  | recvMulti (result : RecvConn.RecvResult) (more ok : Bool)
  | recvFallback (result : RecvConn.FallbackResult)
  | flush (free slot ok : Bool)
  | withData (f g : Bytes → ParseResult)
  | withBytes (f : Bytes → ParseResult)
  | close
  /-- `try_finalize_close` submits the close. -/
  | finalizeClose
  | closed

namespace RecvConn

/-- The kernel completes only what it has. -/
def step (c : RecvConn) : RecvEvent → RecvConn
  | .recvMulti result more ok => if c.multiLive then c.handleRecvMulti result more ok else c
  | .recvFallback result => if c.fallbackLive then c.handleRecvFallback result else c
  | .flush free slot ok => c.flushReplenishAndRearm free slot ok
  | .withData f g => (c.withData f g).conn
  | .withBytes f => (c.withBytes f).conn
  | .close => c.closeConnection
  | .finalizeClose => if c.lifecycle = .closing then { c with recvMultishotArmed := false } else c
  | .closed => c.handleClose

end RecvConn
end Ringline.Uring
