import Ringline.Uring.SendApi

/-!
# Send completions and the retry lists

One handler per completion tag of the send side, each with the guards it starts with, and the
drains of the lists on which a refused resubmission waits for the next turn of the event loop.

The handlers share their tails: a send whose last byte is out releases what it held, lets the next
queued send go, and settles; a send that failed drops the whole queue; a send that outlived its
connection only releases.
-/

set_option autoImplicit false

namespace Ringline.Uring

open UserData

variable (result : Int)

/-- A completion's result as an error number. -/
def errnoOf : Nat := (-result).toNat

/-- `-EAGAIN`; on Linux `EWOULDBLOCK` is the same number. -/
def isEagain : Bool := decide (result < 0) && errnoOf result == Errno.eagain

/-- What a waiter is told about a send that made no progress. -/
def sendResult : IoResult :=
  if result = 0 then .ok 0 else .error (.os (errnoOf result))

/-- `bounded_send_error`. -/
def boundedSendError : IoError :=
  if result = 0 then .new .writeZero "send made no progress" else .os (errnoOf result)

def ecanceledResult : IoResult := .error (.os Errno.ecanceled)

namespace Worker

/-- Whether the close of the connection has been submitted. -/
def closeSubmitted (w : Worker) (ci : Nat) : Bool := (w.sendQueues ci).closeSubmitted

variable (w : Worker)

/-- Take the bounded send off a pool slot and release the slot. -/
def takeAndRelease (slot : Nat) : Option (BoundedSendId × Nat) × Worker :=
  ((w.sendCopyPool.takeBoundedSend slot).1,
    { w with sendCopyPool := (w.sendCopyPool.takeBoundedSend slot).2 }.releasePoolSlot slot)

/-- `release_coalesced`. -/
def releaseCoalesced (slabIdx : Nat) : Worker :=
  let w := (w.sendSlab.entries slabIdx).poolSlots.foldl (fun w s => w.releasePoolSlot s) w
  { w with sendSlab := (w.sendSlab.release slabIdx).2 }

/-- Take the bounded send off a coalesced entry and release the entry with its slots. -/
def takeAndReleaseCoalesced (slabIdx : Nat) : Option (BoundedSendId × Nat) × Worker :=
  ((w.sendSlab.takeCoalescedBoundedSend slabIdx).1,
    { w with sendSlab := (w.sendSlab.takeCoalescedBoundedSend slabIdx).2 }.releaseCoalesced slabIdx)

/-- Release a zero-copy entry whose notifications are all in, with its pool slot. -/
def releaseIfDone (slabIdx : Nat) : Worker :=
  if w.sendSlab.shouldRelease slabIdx then
    let w' := { w with sendSlab := (w.sendSlab.release slabIdx).2 }
    match (w.sendSlab.release slabIdx).1 with
    | some ps => w'.releasePoolSlot ps
    | none => w'
  else w

/-- `release_zc_slab`. -/
def releaseZcSlab (slabIdx : Nat) : Worker :=
  { w with sendSlab := w.sendSlab.markAwaitingNotifications slabIdx }.releaseIfDone slabIdx

/-- `slab_identity_ok`. -/
def slabIdentityOk (ci slabIdx : Nat) : Bool :=
  (w.sendSlab.entries slabIdx).connIndex == ci &&
    (w.sendSlab.entries slabIdx).generation == w.generation ci

/-! ## Chains -/

/-- `on_operation_cqe` and the check that follows it: the table, and whether the chain is done. -/
def chainOperation (c : ChainState) (result : Int) : ChainState :=
  if 0 ≤ result then
    { c with cqesReceived := c.cqesReceived + 1, bytesSent := c.bytesSent + result.toNat }
  else
    { c with
      cqesReceived := c.cqesReceived + 1
      firstError := some (c.firstError.getD result) }

/-- `on_notif_cqe`, with the wrap of `u16` arithmetic. -/
def chainNotification (c : ChainState) : ChainState :=
  { c with zcNotifsPending := (c.zcNotifsPending + 65535) % 65536 }

def chainComplete (c : ChainState) : Bool :=
  c.cqesReceived == c.totalSqes && c.zcNotifsPending == 0

/-- `fire_chain_complete`. -/
def fireChainComplete (ci : Nat) : Worker :=
  match w.chains ci with
  | none => w
  | some chain =>
    let w := { w with chains := Function.update w.chains ci none }
    match chain.firstError with
    | none =>
      (((w.submitNextQueued ci).2).wakeSend ci (.ok chain.bytesSent)).noteSendFinalized ci
    | some errno =>
      ((w.drainConnSendQueue ci).wakeSend ci (.error (.os (errnoOf errno)))).noteSendFinalized ci

/-- Advance the chain of a connection and fire it when it is complete. -/
def advanceChain (ci : Nat) (f : ChainState → ChainState) : Worker :=
  match w.chains ci with
  | none => w
  | some chain =>
    let w := { w with chains := Function.update w.chains ci (some (f chain)) }
    if chainComplete (f chain) then w.fireChainComplete ci else w

/-! ## Copy sends -/

/-- Abandon a copy send because the close of its connection is already submitted. -/
def cancelCopy (slot : Nat) : Worker :=
  let r := w.takeAndRelease slot
  r.2.settleCarried r.1 fun _ => ecanceledResult

/-- A copy send failed: its slot goes back, and so does everything queued behind it. -/
def failCopy (ci slot : Nat) (bounded : IoResult) (waiter : IoResult) : Worker :=
  let r := w.takeAndRelease slot
  let w := ((r.2.drainConnSendQueue ci).noteSendFinalized ci).settleCarried r.1 fun _ => bounded
  w.wakeSend ci waiter

/-- Push a copy send for what is left of its slot, on the completion path of `tag`. -/
def submitCopyTagged (tag : OpTag) (ci generation : Nat) (ptr : Ptr) (len slot : Nat) :
    Bool × Worker :=
  if tag = .tlsSend then w.submitTlsSend ci generation ptr len slot
  else w.submitSendCopied ci generation ptr len slot

/-- Push what is left of a copy send; a refused push goes to `pendingCopyRetries`. -/
def resubmitCopy (tag : OpTag) (ci : Nat) (ptr : Ptr) (len slot : Nat) : Worker :=
  match w.submitCopyTagged tag ci (w.generation ci) ptr len slot with
  | (true, w) => w
  | (false, w) =>
    { w with pendingCopyRetries := w.pendingCopyRetries ++ [⟨ci, w.generation ci, slot, 0, tag⟩] }

/-- Wait for the socket to become writable; a refused push goes to
`pendingSendPolloutRetries`. -/
def armSendPollout (ci slot : Nat) (isTls : Bool) : Worker :=
  match w.submitSendPollout ci (w.generation ci) slot isTls with
  | (true, w) => w
  | (false, w) =>
    { w with
      pendingSendPolloutRetries :=
        w.pendingSendPolloutRetries ++ [⟨ci, w.generation ci, slot, 0, isTls⟩] }

/-- The whole slot is out. -/
def completeCopy (ci slot : Nat) : Worker :=
  let total := w.sendCopyPool.originalLen slot
  let endOfSend := w.sendCopyPool.isEndOfSend slot
  let r := w.takeAndRelease slot
  let w := r.2.modifySends ci fun s => { s with ackedBytes := wrap32 (s.ackedBytes + total) }
  let w := (w.submitNextQueued ci).2.noteSendFinalized ci
  let w := w.settleCarried r.1 fun logicalLen => .ok logicalLen
  if endOfSend then
    let acked := (w.sendQueues ci).ackedBytes
    (w.modifySends ci fun s => { s with ackedBytes := 0 }).wakeSend ci (.ok acked)
  else w

/-- `handle_send`. -/
def handleSend (ud : UserData) (result : Int) : Worker :=
  let ci := ud.connIndex
  let slot := sendPayloadSlot ud.payload
  if !w.sendCopyPool.inUse slot then w
  else if w.generation ci % 65536 ≠ sendPayloadGen ud.payload then
    (w.takeAndRelease slot).2
  else if (w.chains ci).isSome then
    let r := w.takeAndRelease slot
    let w := r.2.settleCarried r.1 fun logicalLen =>
      if 0 < result then .ok logicalLen else .error (boundedSendError result)
    w.advanceChain ci (chainOperation · result)
  else if 0 < result then
    match w.sendCopyPool.tryAdvance slot result.toNat with
    | some (pool, ptr, remaining) =>
      let w := { w with sendCopyPool := pool }
      if w.closeSubmitted ci then (w.cancelCopy slot).wakeSend ci ecanceledResult
      else w.resubmitCopy .send ci ptr remaining slot
    | none => w.completeCopy ci slot
  else if isEagain result then
    if w.closeSubmitted ci then (w.cancelCopy slot).wakeSend ci ecanceledResult
    else w.armSendPollout ci slot false
  else w.failCopy ci slot (.error (boundedSendError result)) (sendResult result)

/-- `handle_tls_send`. -/
def handleTlsSend (ud : UserData) (result : Int) : Worker :=
  let ci := ud.connIndex
  let slot := sendPayloadSlot ud.payload
  if !w.sendCopyPool.inUse slot then w
  else if w.generation ci % 65536 ≠ sendPayloadGen ud.payload then
    (w.takeAndRelease slot).2
  else
    let finish (w : Worker) : Worker :=
      let r := w.takeAndRelease slot
      let w := r.2.settleCarried r.1 fun logicalLen =>
        if 0 < result then .ok logicalLen else .error (boundedSendError result)
      if 0 ≤ result then (w.submitNextQueued ci).2.noteSendFinalized ci
      else (w.drainConnSendQueue ci).closeConnection ci
    if 0 < result then
      match w.sendCopyPool.tryAdvance slot result.toNat with
      | some (pool, ptr, remaining) =>
        let w := { w with sendCopyPool := pool }
        if w.closeSubmitted ci then w.cancelCopy slot
        else w.resubmitCopy .tlsSend ci ptr remaining slot
      | none => finish w
    else if isEagain result then
      if w.closeSubmitted ci then w.cancelCopy slot
      else w.armSendPollout ci slot true
    else finish w

/-- `handle_send_pollout`. -/
def handleSendPollout (ud : UserData) (result : Int) : Worker :=
  let ci := ud.connIndex
  let slot := sendPayloadSlot ud.payload
  let isTls := sendPolloutIsTls ud.payload
  if !w.sendCopyPool.inUse slot then w
  else if w.generation ci % 32768 ≠ sendPolloutGen ud.payload then
    (w.takeAndRelease slot).2
  else if result < 0 then
    w.failCopy ci slot (.error (.os (errnoOf result))) (.error (.os (errnoOf result)))
  else if w.closeSubmitted ci then (w.cancelCopy slot).wakeSend ci ecanceledResult
  else
    let r := w.sendCopyPool.currentPtrRemaining slot
    w.resubmitCopy (if isTls then .tlsSend else .send) ci r.1 r.2 slot

/-! ## Coalesced sends -/

/-- Push what is left of a coalesced send; a refused push goes to `pendingCoalescedRetries`. -/
def resubmitCoalesced (ci slabIdx : Nat) : Worker :=
  match w.submitSendMsgCoalesced ci slabIdx with
  | (true, w) => w
  | (false, w) =>
    { w with
      pendingCoalescedRetries :=
        w.pendingCoalescedRetries ++ [⟨ci, w.generation ci, slabIdx, 0⟩] }

def cancelCoalesced (slabIdx : Nat) : Worker :=
  let r := w.takeAndReleaseCoalesced slabIdx
  r.2.settleCarried r.1 fun _ => ecanceledResult

def failCoalesced (ci slabIdx : Nat) (bounded : IoResult) (waiter : IoResult) : Worker :=
  let r := w.takeAndReleaseCoalesced slabIdx
  let w := ((r.2.drainConnSendQueue ci).noteSendFinalized ci).settleCarried r.1 fun _ => bounded
  w.wakeSend ci waiter

/-- The whole run is out. -/
def completeCoalesced (ci slabIdx : Nat) : Worker :=
  let total := (w.sendSlab.entries slabIdx).totalLen
  let endOfSend := (w.sendSlab.entries slabIdx).endOfSend
  let r := w.takeAndReleaseCoalesced slabIdx
  let w := r.2.modifySends ci fun s => { s with ackedBytes := wrap32 (s.ackedBytes + total) }
  let w := (w.submitNextQueued ci).2.noteSendFinalized ci
  let w := w.settleCarried r.1 fun logicalLen => .ok logicalLen
  if endOfSend then
    let acked := (w.sendQueues ci).ackedBytes
    (w.modifySends ci fun s => { s with ackedBytes := 0 }).wakeSend ci (.ok acked)
  else w

/-- `handle_send_msg_coalesced`. -/
def handleSendMsgCoalesced (ud : UserData) (result : Int) : Worker :=
  let ci := ud.connIndex
  let slabIdx := ud.payload % 65536
  if !w.sendSlab.inUse slabIdx then w
  else if !w.slabIdentityOk ci slabIdx then (w.takeAndReleaseCoalesced slabIdx).2
  else if 0 < result then
    let r := w.sendSlab.tryAdvance slabIdx result.toNat
    let w := { w with sendSlab := r.2 }
    if r.1 then
      if w.closeSubmitted ci then (w.cancelCoalesced slabIdx).wakeSend ci ecanceledResult
      else w.resubmitCoalesced ci slabIdx
    else w.completeCoalesced ci slabIdx
  else if isEagain result then
    if w.closeSubmitted ci then (w.cancelCoalesced slabIdx).wakeSend ci ecanceledResult
    else
      match w.submitSendMsgCoalescedPollout ci slabIdx with
      | (true, w) => w
      | (false, w) =>
        { w with
          pendingCoalescedRetries :=
            w.pendingCoalescedRetries ++ [⟨ci, w.generation ci, slabIdx, 0⟩] }
  else w.failCoalesced ci slabIdx (.error (boundedSendError result)) (sendResult result)

/-- `handle_send_msg_coalesced_pollout`. -/
def handleSendMsgCoalescedPollout (ud : UserData) (result : Int) : Worker :=
  let ci := ud.connIndex
  let slabIdx := ud.payload % 65536
  if !w.sendSlab.inUse slabIdx then w
  else if !w.slabIdentityOk ci slabIdx then (w.takeAndReleaseCoalesced slabIdx).2
  else if result < 0 then
    w.failCoalesced ci slabIdx (.error (.os (errnoOf result))) (.error (.os (errnoOf result)))
  else if w.closeSubmitted ci then (w.cancelCoalesced slabIdx).wakeSend ci ecanceledResult
  else w.resubmitCoalesced ci slabIdx

/-! ## Zero-copy sends -/

/-- A notification: the kernel no longer reads the memory of one earlier submission. -/
def zcNotification (slabIdx : Nat) : Worker :=
  { w with sendSlab := w.sendSlab.decPendingNotifs slabIdx }.releaseIfDone slabIdx

/-- Count the notification a completion announces. -/
def zcCountNotif (slabIdx : Nat) (more : Bool) : Worker :=
  if more then { w with sendSlab := w.sendSlab.incPendingNotifs slabIdx } else w

/-- `handle_send_msg_zc`; `notif` and `more` are the completion's flags. -/
def handleSendMsgZc (ud : UserData) (result : Int) (notif more : Bool) : Worker :=
  let ci := ud.connIndex
  let slabIdx := ud.payload % 65536
  if !w.sendSlab.inUse slabIdx then w
  else if !w.slabIdentityOk ci slabIdx then
    if notif then w.zcNotification slabIdx
    else (w.zcCountNotif slabIdx more).releaseZcSlab slabIdx
  else if (w.chains ci).isSome then
    if notif then
      (w.zcNotification slabIdx).advanceChain ci chainNotification
    else
      let w :=
        if more then
          let w := w.zcCountNotif slabIdx true
          let w := { w with sendSlab := w.sendSlab.markAwaitingNotifications slabIdx }
          { w with chains := Function.update w.chains ci ((w.chains ci).map fun c =>
              { c with zcNotifsPending := c.zcNotifsPending + 1 }) }
        else
          let w' := { w with sendSlab := (w.sendSlab.release slabIdx).2 }
          match (w.sendSlab.release slabIdx).1 with
          | some ps => w'.releasePoolSlot ps
          | none => w'
      w.advanceChain ci (chainOperation · result)
  else if notif then w.zcNotification slabIdx
  else
    let w := w.zcCountNotif slabIdx more
    let finish (w : Worker) : Worker :=
      let total := (w.sendSlab.entries slabIdx).totalLen
      let w := w.releaseZcSlab slabIdx
      if 0 ≤ result then ((w.submitNextQueued ci).2).wakeSend ci (.ok total)
      else (w.drainConnSendQueue ci).wakeSend ci (.error (.os (errnoOf result)))
    if 0 < result then
      let r := w.sendSlab.tryAdvance slabIdx result.toNat
      let w := { w with sendSlab := r.2 }
      if r.1 then
        if w.closeSubmitted ci then (w.releaseZcSlab slabIdx).wakeSend ci ecanceledResult
        else
          match w.submitSendMsgZc ci slabIdx with
          | (true, w) => w
          | (false, w) =>
            { w with
              pendingZcRetries := w.pendingZcRetries ++ [⟨ci, w.generation ci, slabIdx, 0⟩] }
      else finish w
    else finish w

/-! ## Draining the retry lists

Each drain takes its list, works through it, and collects what is refused again on the list it
leaves behind. -/

/-- Whether a retry entry still belongs to the occupant of its slot. -/
def retryIdentityOk (ci generation : Nat) : Bool :=
  (w.connections ci).active && w.generation ci == generation

/-- One entry of `drain_zc_retries`. -/
def retryZc (e : SlabRetry) : Worker :=
  if !w.sendSlab.inUse e.slabIdx then w
  else if !w.retryIdentityOk e.connIndex e.generation || w.closeSubmitted e.connIndex then
    w.releaseZcSlab e.slabIdx
  else if 2 ≤ e.retries then
    let w := (w.releaseZcSlab e.slabIdx).drainConnSendQueue e.connIndex
    (w.wakeSend e.connIndex
      (.error (.new .other "max retries during zc send resubmit"))).closeConnection e.connIndex
  else
    match w.submitSendMsgZc e.connIndex e.slabIdx with
    | (true, w) => w
    | (false, w) =>
      { w with pendingZcRetries := w.pendingZcRetries ++ [{ e with retries := e.retries + 1 }] }

def drainZcRetries : Worker :=
  w.pendingZcRetries.foldl retryZc { w with pendingZcRetries := [] }

/-- One entry of `drain_coalesced_retries`. -/
def retryCoalesced (e : SlabRetry) : Worker :=
  if !w.sendSlab.inUse e.slabIdx then w
  else if !w.retryIdentityOk e.connIndex e.generation || w.closeSubmitted e.connIndex then
    let r := w.takeAndReleaseCoalesced e.slabIdx
    if w.retryIdentityOk e.connIndex e.generation then
      r.2.settleCarried r.1 fun _ => ecanceledResult
    else r.2
  else if 2 ≤ e.retries then
    let error : IoResult := .error (.new .other "max retries during coalesced send resubmit")
    let r := w.takeAndReleaseCoalesced e.slabIdx
    let w := (r.2.drainConnSendQueue e.connIndex).settleCarried r.1 fun _ => error
    (w.wakeSend e.connIndex error).closeConnection e.connIndex
  else
    match w.submitSendMsgCoalesced e.connIndex e.slabIdx with
    | (true, w) => w
    | (false, w) =>
      { w with
        pendingCoalescedRetries :=
          w.pendingCoalescedRetries ++ [{ e with retries := e.retries + 1 }] }

def drainCoalescedRetries : Worker :=
  w.pendingCoalescedRetries.foldl retryCoalesced { w with pendingCoalescedRetries := [] }

/-- One entry of `drain_copy_retries`. -/
def retryCopy (e : CopyRetry) : Worker :=
  if !w.sendCopyPool.inUse e.poolSlot then w
  else if !w.retryIdentityOk e.connIndex e.generation || w.closeSubmitted e.connIndex then
    let r := w.takeAndRelease e.poolSlot
    if w.retryIdentityOk e.connIndex e.generation then
      r.2.settleCarried r.1 fun _ => ecanceledResult
    else r.2
  else if 2 ≤ e.retries then
    let error : IoResult := .error (.new .other "max retries during send resubmit")
    let r := w.takeAndRelease e.poolSlot
    let w := (r.2.drainConnSendQueue e.connIndex).settleCarried r.1 fun _ => error
    (w.wakeSend e.connIndex error).closeConnection e.connIndex
  else
    let r := w.sendCopyPool.currentPtrRemaining e.poolSlot
    match w.submitCopyTagged e.tag e.connIndex e.generation r.1 r.2 e.poolSlot with
    | (true, w) => w
    | (false, w) =>
      { w with pendingCopyRetries := w.pendingCopyRetries ++ [{ e with retries := e.retries + 1 }] }

def drainCopyRetries : Worker :=
  w.pendingCopyRetries.foldl retryCopy { w with pendingCopyRetries := [] }

/-- One entry of `drain_send_retries`. -/
def retrySend (e : SendRetry) : Worker :=
  let ci := e.connIndex
  if !w.retryIdentityOk ci e.generation || w.closeSubmitted ci then w
  else if !(w.sendQueues ci).parked || (w.sendQueues ci).queue.isEmpty then w
  else if 2 ≤ e.attempts then
    let w := (w.drainConnSendQueue ci).wakeSend ci
      (.error (.new .other "max retries during send submit"))
    (w.wakeRecv ci).closeConnection ci
  else (w.submitNextQueuedInner ci (e.attempts + 1)).2

def drainSendRetries : Worker :=
  w.pendingSendRetries.foldl retrySend { w with pendingSendRetries := [] }

/-- One entry of `drain_send_pollout_retries`; every other turn the entries only wait. -/
def retryPollout (e : PolloutRetry) : Worker :=
  let ci := e.connIndex
  if 3 ≤ e.retries then
    let r := if w.sendCopyPool.inUse e.poolSlot then w.takeAndRelease e.poolSlot else (none, w)
    if !r.2.retryIdentityOk ci e.generation then r.2
    else
      let error : IoResult := .error (.new .other "max retries during send pollout retry")
      let w := (r.2.drainConnSendQueue ci).settleCarried r.1 fun _ => error
      (w.wakeSend ci error).closeConnection ci
  else if w.tickCount % 2 ≠ 0 then
    { w with pendingSendPolloutRetries := w.pendingSendPolloutRetries ++ [e] }
  else if !w.sendCopyPool.inUse e.poolSlot then w
  else if !w.retryIdentityOk ci e.generation || w.closeSubmitted ci then
    let r := w.takeAndRelease e.poolSlot
    if w.retryIdentityOk ci e.generation then r.2.settleCarried r.1 fun _ => ecanceledResult
    else r.2
  else
    match w.submitSendPollout ci e.generation e.poolSlot e.isTls with
    | (true, w) => w
    | (false, w) =>
      { w with
        pendingSendPolloutRetries :=
          w.pendingSendPolloutRetries ++ [{ e with retries := e.retries + 1 }] }

def drainSendPolloutRetries : Worker :=
  w.pendingSendPolloutRetries.foldl retryPollout { w with pendingSendPolloutRetries := [] }

/-- `drain_bounded_send_completions`. -/
def drainBoundedSendCompletions : Worker :=
  { w with
    settled := w.settled ++ w.boundedSendCompletions
    boundedSendCompletions := [] }

end Worker
end Ringline.Uring
