import Ringline.Base.Chunks
import Ringline.Uring.SendQueue

/-!
# Accepting sends

The entry points through which a handler hands bytes to a connection: `send` and `sendBounded` cut
their data into pool slots, `SendBuilder.submit` gathers parts — into one slot when nothing is to
be sent in place, into a slab entry for a zero-copy send otherwise.  Each of them checks the handle
first, and either queues all of its data or none.

On a connection with a TLS session the data is sealed before it is queued.  The TLS engine is not
part of this development: `TlsEngine` is what the code asks of it.
-/

set_option autoImplicit false

namespace Ringline.Uring

open Chunks (chunks)

/-- A handle to a connection: its slot, and the generation the slot had. -/
structure ConnToken where
  index : Nat
  generation : Nat
deriving DecidableEq, Repr

inductive ApiResult where
  | ok
  | error (e : IoError)
  | panicked
deriving DecidableEq, Repr

/-- The answers of the TLS engine of one connection at one moment. -/
structure TlsEngine where
  /-- How many pool slots the ciphertext of that many bytes may need, when a bound is known. -/
  slotsNeeded : Nat → Option Nat
  /-- The ciphertext, in the pieces that go into one pool slot each. -/
  encrypt : List UInt8 → Except IoError (List (List UInt8))
  /-- The smallest slot that holds one whole record. -/
  minSlotSize : Nat
  closeNotify : List (List UInt8)

namespace Worker

variable (w : Worker)

/-- The checks every send makes before it touches anything. -/
def checkSend (tok : ConnToken) : Except IoError Unit :=
  match w.conn? tok.index with
  | none => .error (.new .notConnected "invalid connection")
  | some c =>
    if c.generation ≠ tok.generation then .error (.new .notConnected "stale connection")
    else if (w.sendQueues tok.index).closeSubmitted then
      .error (.new .notConnected "connection closing")
    else .ok ()

/-- A copy send of a whole slot, tagged `tag`. -/
def copySend (tag : OpTag) (tok : ConnToken) (slot len : Nat) : BuiltSend where
  entry := ⟨⟨tag, tok.index, UserData.sendPayload slot tok.generation⟩, .send (.pool slot 0) len⟩
  poolSlot := some slot
  slabIdx := none
  totalLen := len

def queueBuiltSends (ci : Nat) (sends : List BuiltSend) : Worker :=
  sends.foldl (fun w built => w.submitOrQueue ci built) w

/-- `bounded_send_completions_push`. -/
def boundedSendCompletionsPush (id : BoundedSendId) (result : IoResult) : Worker :=
  { w with
    boundedSendCompletions := w.boundedSendCompletions ++ [(id, result)], capacityReleased := true }

/-! ## Plaintext copy sends -/

/-- Stage one chunk after the other and queue it.  The last one ends the logical send, and carries
the bounded send when there is one.  `none` is a panic. -/
def sendChunks (tok : ConnToken) (bounded : Option (BoundedSendId × Nat)) :
    List (List UInt8) → Worker → Option Worker
  | [], w => some w
  | chunk :: rest, w =>
    match w.sendCopyPool.copyInReserved chunk with
    | none => none
    | some (slot, pool) =>
      let pool := pool.setEndOfSend slot rest.isEmpty
      let pool :=
        match bounded, rest with
        | some (id, logicalLen), [] => pool.setBoundedSend slot id logicalLen
        | _, _ => pool
      sendChunks tok bounded rest
        ({ w with sendCopyPool := pool }.submitOrQueue tok.index
          (copySend .send tok slot chunk.length))

/-- Reserve the slots for all of `data`, then stage it. -/
def copySendAll (tok : ConnToken) (data : List UInt8) (bounded : Option (BoundedSendId × Nat)) :
    Worker × ApiResult :=
  let slotSize := w.sendCopyPool.slotSize
  let needed := (data.length + slotSize - 1) / slotSize
  match w.sendCopyPool.reserveSlots needed with
  | .error .exhausted => (w, .error (.new .other "send copy pool exhausted"))
  | .error (.tooLarge needed capacity) =>
    (w, .error (.new .invalidInput
      (s!"send of {data.length} bytes needs {needed} send-pool slots but the pool has " ++
        s!"{capacity} (raise Config::send_pool)")))
  | .ok pool =>
    let pieces := chunks slotSize data
    match sendChunks tok bounded pieces { w with sendCopyPool := pool } with
    | none => (w, .panicked)
    | some w =>
      ({ w with sendCopyPool := w.sendCopyPool.releaseReservation (needed - pieces.length) }, .ok)

/-! ## TLS sends -/

/-- Copy ciphertext into slots, one piece each; on exhaustion everything taken is given back. -/
def stageCiphertext : List (List UInt8) → List Nat → Worker → Option (List Nat) × Worker
  | [], staged, w => (some staged, w)
  | piece :: rest, staged, w =>
    match w.sendCopyPool.copyIn piece with
    | some (slot, pool) =>
      stageCiphertext rest (staged ++ [slot]) { w with sendCopyPool := pool }
    | none => (none, staged.foldl (fun w s =>
        { w with sendCopyPool := w.sendCopyPool.release s }) w)

/-- The sends of staged ciphertext: only the last piece completes the logical send. -/
def ciphertextSends (w : Worker) (tok : ConnToken) : List Nat → List BuiltSend
  | [] => []
  | [slot] => [copySend .send tok slot (w.sendCopyPool.slots slot).remaining]
  | slot :: rest =>
    copySend .tlsSend tok slot (w.sendCopyPool.slots slot).remaining :: ciphertextSends w tok rest

/-- `encrypt_to_sends`. -/
def encryptToSends (tls : TlsEngine) (tok : ConnToken) (data : List UInt8) :
    Except IoError (List BuiltSend) × Worker :=
  match tls.encrypt data with
  | .error e => (.error e, w)
  | .ok pieces =>
    match stageCiphertext pieces [] w with
    | (none, w) => (.error (.new .other "send copy pool exhausted for TLS"), w)
    | (some staged, w) => (.ok (w.ciphertextSends tok staged), w)

/-- Queue the TLS close alert; when the pool cannot hold all of it, none of it is queued. -/
def sendCloseNotifyQueued (tls : TlsEngine) (tok : ConnToken) : Worker :=
  match stageCiphertext tls.closeNotify [] w with
  | (none, w) => w
  | (some staged, w) =>
    w.queueBuiltSends tok.index
      (staged.map fun slot => copySend .tlsSend tok slot (w.sendCopyPool.slots slot).remaining)

/-- `DriverCtx::close`. -/
def close (tls : TlsEngine) (deadline : Nat) (tok : ConnToken) : Worker :=
  match w.conn? tok.index with
  | none => w
  | some c =>
    if c.generation ≠ tok.generation then w
    else if c.lifecycle = .closing then w
    else
      let w := w.modifyConn tok.index fun c => { c with lifecycle := .closing }
      let w :=
        if w.tls tok.index then
          let w := w.sendCloseNotifyQueued tls tok
          let w := w.modifySends tok.index fun s => { s with closeNotifyDeadline := some deadline }
          if w.closeNotifyArmed.contains tok.index then w
          else { w with closeNotifyArmed := w.closeNotifyArmed ++ [tok.index] }
        else w
      let w := w.modifySends tok.index fun s => { s with closePending := true }
      if w.pendingFinalizeCloses.contains tok.index then w
      else { w with pendingFinalizeCloses := w.pendingFinalizeCloses ++ [tok.index] }

/-- `encrypt_tls_send`: admits the ciphertext as a whole, or fail before anything is sealed; a
failure after that closes the connection. -/
def encryptTlsSend (tls : TlsEngine) (deadline : Nat) (tok : ConnToken) (data : List UInt8) :
    Except IoError (List BuiltSend) × Worker :=
  let needed := tls.slotsNeeded data.length
  let capacity := w.sendCopyPool.count
  if needed.any (capacity < ·) then
    (.error (.new .invalidInput
      (s!"a TLS send of {data.length} bytes needs up to {needed.getD 0} send-pool slots of " ++
        s!"ciphertext but the pool has {capacity} (raise Config::send_pool)")), w)
  else if needed.any (w.sendCopyPool.freeCount < ·) then
    (.error (.new .other "send copy pool exhausted"), w)
  else
    match w.encryptToSends tls tok data with
    | (.ok sends, w) => (.ok sends, w)
    | (.error e, w) => (.error e, w.close tls deadline tok)

/-! ## Sends -/

/-- `DriverCtx::send`. -/
def send (tls : TlsEngine) (deadline : Nat) (tok : ConnToken) (data : List UInt8) :
    Worker × ApiResult :=
  match w.checkSend tok with
  | .error e => (w, .error e)
  | .ok () =>
    if w.tls tok.index then
      match w.encryptTlsSend tls deadline tok data with
      | (.error e, w) => (w, .error e)
      | (.ok sends, w) => (w.queueBuiltSends tok.index sends, .ok)
    else w.copySendAll tok data none

/-- `DriverCtx::send_bounded`. -/
def sendBounded (tls : TlsEngine) (deadline : Nat) (tok : ConnToken) (data : List UInt8)
    (id : BoundedSendId) : Worker × ApiResult :=
  match w.checkSend tok with
  | .error e => (w, .error e)
  | .ok () =>
    if w.tls tok.index then
      let slotSize := w.sendCopyPool.slotSize
      let capacity := w.sendCopyPool.count
      match tls.slotsNeeded data.length with
      | none =>
        (w, .error (.new .invalidInput
          (s!"a bounded TLS send needs a send-pool slot of at least {tls.minSlotSize} bytes to " ++
            s!"hold one whole record, but Config::send_copy_slot_size is {slotSize}")))
      | some needed =>
        if capacity < needed then
          (w, .error (.new .invalidInput
            (s!"a bounded send of {data.length} bytes needs up to {needed} send-pool slots but " ++
              s!"the pool has {capacity} (raise Config::send_pool)")))
        else if w.sendCopyPool.freeCount < needed then
          (w, .error (.new .other "send copy pool exhausted"))
        else
          match w.encryptToSends tls tok data with
          | (.error e, w) => (w.close tls deadline tok, .error e)
          | (.ok sends, w) =>
            match sends.getLast?.bind (·.poolSlot) with
            | none => (w.boundedSendCompletionsPush id (.ok (wrap32 data.length)), .ok)
            | some slot =>
              let pool := w.sendCopyPool.setBoundedSend slot id (wrap32 data.length)
              ({ w with sendCopyPool := pool }.queueBuiltSends tok.index sends, .ok)
    else
      match w.copySendAll tok data (some (id, wrap32 data.length)) with
      | (w, .ok) =>
        if data.isEmpty then (w.boundedSendCompletionsPush id (.ok 0), .ok) else (w, .ok)
      | (w, r) => (w, r)

/-! ## Gathered sends -/

end Worker

/-- A part of a gathered send: copied, or sent from the memory of a guard.  A guard of a registered
region carries what the region check says about it. -/
inductive SendPart where
  | copy (data : List UInt8)
  | guard (data : List UInt8) (regionError : Option String)
deriving DecidableEq, Repr

namespace SendPart

def data : SendPart → List UInt8
  | copy d => d
  | guard d _ => d

def isGuard : SendPart → Bool
  | copy _ => false
  | guard _ _ => true

def copied : SendPart → List UInt8
  | copy d => d
  | guard _ _ => []

def regionError : SendPart → Option String
  | copy _ => none
  | guard _ e => e

end SendPart

/-- The error a builder records while parts are added, if any: `parts` and `guards` count those
already accepted. -/
def builderError : Nat → Nat → List SendPart → Option IoError
  | _, _, [] => none
  | parts, guards, p :: rest =>
    if maxIovecs ≤ parts then some (.new .invalidInput "too many send parts (max 32)")
    else if p.isGuard && maxGuards ≤ guards then
      some (.new .invalidInput "too many guards (max 8)")
    else builderError (parts + 1) (guards + p.isGuard.toNat) rest

/-- The iovecs of a gathered send whose copied parts lie in `slot` from `offset` on. -/
def gatherIovecs (slot : Nat) : Nat → List SendPart → List Iovec
  | _, [] => []
  | offset, .copy d :: rest =>
    ⟨.pool slot offset, d.length⟩ :: gatherIovecs slot (offset + d.length) rest
  | offset, .guard d _ :: rest => ⟨.guard d 0, d.length⟩ :: gatherIovecs slot offset rest

/-- The iovecs of a gathered send with nothing copied; an empty copy part has a null iovec. -/
def guardIovecs (parts : List SendPart) : List Iovec :=
  parts.map fun p => if p.isGuard then ⟨.guard p.data 0, p.data.length⟩ else ⟨.guard [] 0, 0⟩

namespace Worker

/-- `total_len` of a builder. -/
def partsTotalLen (parts : List SendPart) : Nat := wrap32 (parts.map fun p => p.data.length).sum

/-- The zero-copy submission of slab entry `slabIdx`. -/
def zcSend (tok : ConnToken) (poolSlot : Option Nat) (slabIdx totalLen : Nat) : BuiltSend where
  entry := ⟨⟨.sendMsgZc, tok.index, slabIdx⟩, .sendMsgZc slabIdx⟩
  poolSlot := poolSlot
  slabIdx := some slabIdx
  totalLen := totalLen

variable (w : Worker)

/-- `build_with_guards`. -/
def buildWithGuards (tok : ConnToken) (parts : List SendPart) : Worker × Except IoError BuiltSend :=
  let copied := parts.map SendPart.copied
  let copyLen := (copied.map List.length).sum
  let total := partsTotalLen parts
  let regionError := parts.findSome? SendPart.regionError
  if w.sendCopyPool.slotSize < copyLen then
    (w, .error (.new .invalidInput "total copy data exceeds send pool slot size"))
  else if 0 < copyLen then
    match w.sendCopyPool.copyInGather copied copyLen with
    | none => (w, .error (.new .other "send copy pool exhausted"))
    | some (slot, pool) =>
      match regionError with
      | some e => ({ w with sendCopyPool := pool.release slot }, .error (.new .invalidInput e))
      | none =>
        match w.sendSlab.allocate tok.index tok.generation (gatherIovecs slot 0 parts)
            (some slot) total with
        | none =>
          ({ w with sendCopyPool := pool.release slot }, .error (.new .other "send slab exhausted"))
        | some (slabIdx, slab) =>
          ({ w with sendCopyPool := pool, sendSlab := slab },
            .ok (zcSend tok (some slot) slabIdx total))
  else
    match regionError with
    | some e => (w, .error (.new .invalidInput e))
    | none =>
      match w.sendSlab.allocate tok.index tok.generation (guardIovecs parts) none total with
      | none => (w, .error (.new .other "send slab exhausted"))
      | some (slabIdx, slab) => ({ w with sendSlab := slab }, .ok (zcSend tok none slabIdx total))

/-- `submit_with_guards`. -/
def submitWithGuards (tok : ConnToken) (parts : List SendPart) : Worker × ApiResult :=
  match w.buildWithGuards tok parts with
  | (w, .error e) => (w, .error e)
  | (w, .ok built) => (w.submitOrQueue tok.index built, .ok)

/-- `SendBuilder::submit`, for a builder that was given `parts` in this order. -/
def sendParts (tls : TlsEngine) (deadline : Nat) (tok : ConnToken) (parts : List SendPart) :
    Worker × ApiResult :=
  match builderError 0 0 parts with
  | some e => (w, .error e)
  | none =>
    if parts = [] then (w, .ok)
    else
      match w.checkSend tok with
      | .error e => (w, .error e)
      | .ok () =>
        let total := partsTotalLen parts
        if w.tls tok.index then
          match w.encryptTlsSend tls deadline tok (parts.map SendPart.data).flatten with
          | (.error e, w) => (w, .error e)
          | (.ok sends, w) => (w.queueBuiltSends tok.index sends, .ok)
        else if parts.all (!·.isGuard) then
          let copyLen := (parts.map fun p => p.data.length).sum
          match w.sendCopyPool.copyInGather (parts.map SendPart.data) copyLen with
          | none => (w, .error (.new .other "send copy pool exhausted"))
          | some (slot, pool) =>
            ({ w with sendCopyPool := pool }.submitOrQueue tok.index
              (copySend .send tok slot copyLen), .ok)
        else if 0 < w.sendZcThreshold && total < w.sendZcThreshold then
          -- Small enough to copy, guards included; a full pool falls through to zero-copy.
          match w.sendCopyPool.copyInGather (parts.map SendPart.data) total with
          | some (slot, pool) =>
            ({ w with sendCopyPool := pool }.submitOrQueue tok.index
              (copySend .send tok slot total), .ok)
          | none => w.submitWithGuards tok parts
        else w.submitWithGuards tok parts

/-- `DriverCtx::shutdown_write`. -/
def shutdownWrite (tok : ConnToken) : Worker :=
  match w.conn? tok.index with
  | none => w
  | some c =>
    if c.generation ≠ tok.generation then w
    else if c.write ≠ .open then w
    else if (w.sendQueues tok.index).closeSubmitted then w
    else if (w.sendQueues tok.index).inFlight || (w.sendQueues tok.index).queue ≠ [] then
      w.modifyConn tok.index fun c => { c with write := .shutdownPending }
    else
      match w.submitShutdown tok.index c.generation with
      | (true, w) =>
        (w.modifyConn tok.index fun c => { c with write := .shutdown }).modifySends tok.index
          fun s => { s with shutdownInflight := true }
      | (false, w) => w

end Worker
end Ringline.Uring
