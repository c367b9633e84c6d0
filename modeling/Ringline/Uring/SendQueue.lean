import Ringline.Uring.Worker

/-!
# The per-connection send queue

A connection has at most one send in the kernel.  Everything accepted meanwhile waits in
`ConnSendState.queue`, and each completion calls `submitNextQueued` for what comes next:

* a run of queued copy sends goes out as one coalesced `sendmsg`, up to the end of the send it
  belongs to;
* otherwise the head goes out alone;
* when the ring refuses the push, the head stays queued, the connection is *parked*, and an entry
  of `pendingSendRetries` is to try again.

With the queue empty, a pending half-close and then a pending close get their turn
(`tryFinalizeClose`).  `closeConnection` starts that teardown, and `drainConnSendQueue` gives up on
everything queued.
-/

set_option autoImplicit false

namespace Ringline.Uring

/-- `u32` arithmetic. -/
def wrap32 (n : Nat) : Nat := n % 4294967296

namespace Worker

/-! ## Submissions of the send side -/

variable (w : Worker)

def submitSendCopied (ci generation : Nat) (ptr : Ptr) (len slot : Nat) : Bool × Worker :=
  w.push ⟨⟨.send, ci, UserData.sendPayload slot generation⟩, .send ptr len⟩

def submitTlsSend (ci generation : Nat) (ptr : Ptr) (len slot : Nat) : Bool × Worker :=
  w.push ⟨⟨.tlsSend, ci, UserData.sendPayload slot generation⟩, .send ptr len⟩

def submitSendMsgZc (ci slabIdx : Nat) : Bool × Worker :=
  w.push ⟨⟨.sendMsgZc, ci, slabIdx⟩, .sendMsgZc slabIdx⟩

def submitSendMsgCoalesced (ci slabIdx : Nat) : Bool × Worker :=
  w.push ⟨⟨.sendMsgCoalesced, ci, slabIdx⟩, .sendMsg slabIdx⟩

def submitSendMsgCoalescedPollout (ci slabIdx : Nat) : Bool × Worker :=
  w.push ⟨⟨.sendMsgCoalescedPollOut, ci, slabIdx⟩, .pollAdd⟩

def submitSendPollout (ci generation slot : Nat) (isTls : Bool) : Bool × Worker :=
  w.push ⟨⟨.sendPollOut, ci, UserData.sendPolloutPayload slot isTls generation⟩, .pollAdd⟩

def submitShutdown (ci generation : Nat) : Bool × Worker :=
  w.push ⟨⟨.shutdown, ci, generation⟩, .shutdown⟩

def submitClose (ci : Nat) : Bool × Worker := w.push ⟨⟨.close, ci, 0⟩, .close⟩

def submitAsyncCancel (target : UserData) (ci : Nat) : Bool × Worker :=
  w.push ⟨⟨.cancel, ci, 0⟩, .asyncCancel target⟩

/-! ## The deferred close -/

/-- Submit the pending close once nothing of the connection is left in the kernel that it would
overtake.  An armed multishot receive is cancelled first, since it keeps the socket open. -/
def tryFinalizeClose (ci : Nat) : Worker :=
  let st := w.sendQueues ci
  if st.closePending && (!st.inFlight && st.queue.isEmpty) && (w.recvSlots ci).forwardWrite.isNone
      && (w.chains ci).isNone && !st.shutdownInflight then
    let w := w.modifySends ci fun s =>
      { s with closePending := false, closeSubmitted := true, closeNotifyDeadline := none }
    let w := { w with closeNotifyArmed := w.closeNotifyArmed.erase ci }
    let w :=
      if (w.conn? ci).any (·.recvMultishotArmed) then
        (w.submitAsyncCancel ⟨.recvMulti, ci, w.generation ci⟩ ci).2.modifyConn ci fun c =>
          { c with recvMultishotArmed := false }
      else w
    match w.submitClose ci with
    | (true, w) => w
    | (false, w) => { w with pendingCloseRetries := w.pendingCloseRetries ++ [(ci, 0)] }
  else w

def noteSendFinalized (ci : Nat) : Worker := w.tryFinalizeClose ci

/-! ## Pulling the next send off the queue -/

/-- The pool slots of the run at the head of a queue that may share one `sendmsg`: copy sends, at
most `limit` of them, up to and including the first that ends a logical send. -/
def coalescableSlots (p : SendCopyPool) : Nat → List BuiltSend → List Nat
  | 0, _ => []
  | _, [] => []
  | limit + 1, b :: rest =>
    match b.poolSlot, b.slabIdx with
    | some slot, none =>
      if p.isEndOfSend slot then [slot] else slot :: coalescableSlots p limit rest
    | _, _ => []

/-- The head could not be pushed: it stays queued until the retry list is drained. -/
def parkQueue (ci attempts : Nat) : Worker :=
  let w := w.modifySends ci fun s => { s with parked := true }
  { w with pendingSendRetries := w.pendingSendRetries ++ [⟨ci, w.generation ci, attempts⟩] }

/-- Put a bounded send back on the slot it was lifted from. -/
def restoreBoundedSend (slot : Nat) (bounded : Option (BoundedSendId × Nat)) : Worker :=
  match bounded with
  | some (id, logicalLen) =>
    { w with sendCopyPool := w.sendCopyPool.setBoundedSend slot id logicalLen }
  | none => w

/-- Nothing is queued any more: a pending half-close goes out, then a pending close. -/
def finishQueue (ci : Nat) : Worker :=
  let w := w.modifySends ci fun s => { s with inFlight := false, parked := false }
  let w :=
    if (w.conn? ci).any (·.write = .shutdownPending) then
      match w.submitShutdown ci (w.generation ci) with
      | (true, w) =>
        (w.modifySends ci fun s => { s with shutdownInflight := true }).modifyConn ci fun c =>
          { c with write := .shutdown }
      | (false, w) => w.modifyConn ci fun c => { c with write := .open }
    else w
  w.tryFinalizeClose ci

/-- Push the head of the queue on its own. -/
def submitQueueHead (ci attempts : Nat) : Bool × Worker :=
  match (w.sendQueues ci).queue with
  | [] => (false, w.finishQueue ci)
  | front :: rest =>
    match w.push front.entry with
    | (true, w) => (true, w.modifySends ci fun s => { s with queue := rest, parked := false })
    | (false, w) => (false, w.parkQueue ci attempts)

/-- `submit_next_queued_inner`: whether something went out. -/
def submitNextQueuedInner (ci attempts : Nat) : Bool × Worker :=
  let slots := coalescableSlots w.sendCopyPool maxIovecs (w.sendQueues ci).queue
  if 2 ≤ slots.length then
    let iovecs := slots.map fun s =>
      (⟨(w.sendCopyPool.currentPtrRemaining s).1, (w.sendCopyPool.currentPtrRemaining s).2⟩ : Iovec)
    let total := wrap32 (iovecs.map (·.len)).sum
    let last := slots.getLastD 0
    let endOfSend := w.sendCopyPool.isEndOfSend last
    -- Lifted off the slot now: the slot is only released, not completed, by a coalesced send.
    let bounded := (w.sendCopyPool.takeBoundedSend last).1
    let w := { w with sendCopyPool := (w.sendCopyPool.takeBoundedSend last).2 }
    match w.sendSlab.allocateCoalesced ci (w.generation ci) iovecs slots total endOfSend
        bounded with
    | some (slabIdx, sendSlab) =>
      match { w with sendSlab := sendSlab }.submitSendMsgCoalesced ci slabIdx with
      | (true, w) =>
        (true, w.modifySends ci fun s =>
          { s with queue := s.queue.drop slots.length, parked := false })
      | (false, w) =>
        let w := { w with sendSlab := (w.sendSlab.release slabIdx).2 }
        (false, (w.restoreBoundedSend last bounded).parkQueue ci attempts)
    | none => (w.restoreBoundedSend last bounded).submitQueueHead ci attempts
  else w.submitQueueHead ci attempts

def submitNextQueued (ci : Nat) : Bool × Worker := w.submitNextQueuedInner ci 0

/-- `submit_or_queue` and `submit_or_queue_send`: push at once when nothing of the connection is in
flight, queue otherwise. -/
def submitOrQueue (ci : Nat) (built : BuiltSend) : Worker :=
  if (w.sendQueues ci).inFlight || (w.chains ci).isSome then
    w.modifySends ci fun s => { s with queue := s.queue ++ [built], inFlight := true }
  else
    match w.push built.entry with
    | (true, w) => w.modifySends ci fun s => { s with inFlight := true }
    | (false, w) =>
      let w := w.modifySends ci fun s =>
        { s with queue := s.queue ++ [built], inFlight := true, parked := true }
      { w with pendingSendRetries := w.pendingSendRetries ++ [⟨ci, w.generation ci, 0⟩] }

/-! ## Giving up on the queue -/

def releasePoolSlot (slot : Nat) : Worker :=
  { w with sendCopyPool := w.sendCopyPool.release slot, capacityReleased := true }

/-- `release_built_resources`. -/
def releaseBuiltResources (poolSlot slabIdx : Option Nat) : Worker :=
  match slabIdx, poolSlot with
  | some e, _ =>
    let w' := { w with sendSlab := (w.sendSlab.release e).2 }
    match (w.sendSlab.release e).1 with
    | some ps => { w' with sendCopyPool := w'.sendCopyPool.release ps }
    | none => w'
  | none, some s => { w with sendCopyPool := w.sendCopyPool.release s }
  | none, none => w

/-- `release_queued_sends`: release what each entry of a queue holds on to, and list the bounded
sends they carried. -/
def releaseQueuedSends : List BuiltSend → Worker → List BoundedSendId × Worker
  | [], w => ([], w)
  | b :: rest, w =>
    match b.poolSlot, b.slabIdx with
    | none, none =>
      -- A receive buffer on its way out owns neither; its bid is the payload.
      let w :=
        if b.entry.userData.tag = .sendRecvBuf then
          { w with pendingReplenish := w.pendingReplenish ++ [b.entry.userData.payload % 65536] }
        else w
      releaseQueuedSends rest w
    | some s, slabIdx =>
      let taken := (w.sendCopyPool.takeBoundedSend s).1
      let w := { w with sendCopyPool := (w.sendCopyPool.takeBoundedSend s).2 }
      let r := releaseQueuedSends rest (w.releaseBuiltResources (some s) slabIdx)
      ((taken.map (·.1)).toList ++ r.1, r.2)
    | none, slabIdx => releaseQueuedSends rest (w.releaseBuiltResources none slabIdx)

/-- `fail_bounded_sends`. -/
def failBoundedSends (ids : List BoundedSendId) : Worker :=
  { w with
    boundedSendCompletions := w.boundedSendCompletions ++ ids.map fun id =>
      (id, .error (.new .connectionAborted "connection closed before the send reached the wire"))
    capacityReleased := true }

/-- `drain_conn_send_queue`. -/
def drainConnSendQueue (ci : Nat) : Worker :=
  let r := releaseQueuedSends (w.sendQueues ci).queue w
  let w := r.2.modifySends ci fun s =>
    { s with queue := [], inFlight := false, parked := false, ackedBytes := 0 }
  (w.failBoundedSends r.1).tryFinalizeClose ci

/-! ## Closing a connection -/

/-- `set_park_drain`. -/
def setParkDrain (ci : Nat) (drain : Option ParkDrain) : Worker :=
  let w :=
    if (w.parkSlots ci).parkDrain.isNone && drain.isSome && !w.parkDrainPending.contains ci then
      { w with parkDrainPending := w.parkDrainPending ++ [ci] }
    else w
  w.modifyPark ci fun p => { p with parkDrain := drain }

/-- What `close_connection` does to the receive and park sides of an open connection. -/
def closeRecvSide (ci : Nat) : Worker :=
  let w := { w with
    pendingReplenish := w.pendingReplenish ++ (w.recvSlots ci).recvHold.map PendingRecvBuf.bid }
  let w := w.modifyRecv ci fun r =>
    { r with recvHold := [], forwardZcConsumed := 0, recvForward := false }
  let w := w.modifyPark ci fun p => { p with parkOffered := false }
  let w := w.setParkDrain ci none
  let w := w.modifyPark ci fun p => { p with parkCarry := none, adoptPending := none }
  let w :=
    match (w.recvSlots ci).forwardWrite with
    | some state =>
      ((w.submitAsyncCancel ⟨.forwardWrite, ci, state.generation⟩ ci).2.submitAsyncCancel
        ⟨.forwardWritePollOut, ci, state.generation⟩ ci).2
    | none => w.modifyRecv ci fun r => { r with forwardDone := none, forwardProgress := none }
  w.modifyRecv ci fun r =>
    { r with
      forwardRecvActive := false, forwardHoldThrottled := false, recvFallbackInflight := false }

/-- `close_connection`. -/
def closeConnection (ci : Nat) : Worker :=
  match w.conn? ci with
  | none => w
  | some c =>
    if c.lifecycle = .closing then w
    else
      let w := w.modifyConn ci fun c => { c with lifecycle := .closing }
      let w := w.closeRecvSide ci
      let w := w.modifySends ci fun s => { s with closePending := true }
      if (w.sendQueues ci).inFlight then w
      else if (w.sendQueues ci).queue ≠ [] then
        let w := w.modifySends ci fun s => { s with inFlight := true }
        (w.submitNextQueued ci).2
      else if w.pendingFinalizeCloses.contains ci then w
      else { w with pendingFinalizeCloses := w.pendingFinalizeCloses ++ [ci] }

/-- `force_finalize_close`. -/
def forceFinalizeClose (ci : Nat) : Worker :=
  let r := releaseQueuedSends (w.sendQueues ci).queue w
  let w := r.2.modifySends ci fun s => { s with queue := [], inFlight := false, parked := false }
  let w := w.modifyConn ci fun c => { c with write := .open }
  let w := w.failBoundedSends r.1
  let w := { w with chains := Function.update w.chains ci none }
  w.tryFinalizeClose ci

end Worker
end Ringline.Uring
