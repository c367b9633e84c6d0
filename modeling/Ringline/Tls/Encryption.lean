import Mathlib.Algebra.Order.Floor.Div
import Ringline.Base.Run

/-!
# Encrypting a send into pool slots

On the io_uring backend a TLS send is encrypted into slots of the send pool.  It must not run out of
slots half-way, since rustls cannot take a record back, so before the first byte is encrypted
`CiphertextCapacity` says how many slots are enough.

There are two engines.  The *buffered* one hands the plaintext to rustls, which accepts a part of it
at a time, and writes the ciphertext through a `PoolWriter`, which packs the slots.  The *unbuffered*
one encrypts a chunk of plaintext into each slot.  It starts with as many whole records as the slot
can hold, makes the chunk smaller while rustls says that it does not fit, and remembers the chunk it
ended with.

Only lengths matter here, so a send is the number of its bytes.  What rustls does is an input: how
much ciphertext it makes of a piece of plaintext, how much of a write it accepts, and the size of the
record that waits in front of the next one, if any.
-/

set_option autoImplicit false

namespace Ringline.Tls

def tlsRecordHeaderLen : Nat := 5

def minMaxFragmentSize : Nat := 32

def maxMaxFragmentSize : Nat := 16384 + tlsRecordHeaderLen

def defaultMaxPlaintextPerRecord : Nat := maxMaxFragmentSize - tlsRecordHeaderLen

def maxRecordOverhead : Nat := tlsRecordHeaderLen + 8 + 16

def plaintextPerRecord (maxFragmentSize : Option Nat) : Nat :=
  match maxFragmentSize with
  | some sz =>
    if minMaxFragmentSize ≤ sz ∧ sz ≤ maxMaxFragmentSize then sz - tlsRecordHeaderLen
    else defaultMaxPlaintextPerRecord
  | none => defaultMaxPlaintextPerRecord

inductive ProtocolVersion where
  | tls12
  | tls13
deriving DecidableEq

def negotiatedRecordOverhead : Option ProtocolVersion → Nat
  | some .tls13 => tlsRecordHeaderLen + 1 + 16
  | some .tls12 | none => maxRecordOverhead

/-! ## The bound -/

structure CiphertextCapacity where
  records : Nat
  maxPlaintextPerRecord : Nat
  unbuffered : Bool
deriving DecidableEq

namespace CiphertextCapacity

variable (k : CiphertextCapacity)

def bytes : Nat :=
  k.records * (k.maxPlaintextPerRecord + maxRecordOverhead)

def slotsBuffered (slotSize : Nat) : Option Nat :=
  if slotSize = 0 then none else some (k.bytes ⌈/⌉ slotSize)

def slotsUnbuffered (slotSize : Nat) : Option Nat :=
  if slotSize < k.maxPlaintextPerRecord + maxRecordOverhead then none else some k.records

def slots (slotSize : Nat) : Option Nat :=
  if k.unbuffered then k.slotsUnbuffered slotSize else k.slotsBuffered slotSize

end CiphertextCapacity

/-! ## The connection -/

/-- The largest chunk that fitted (`max_plaintext_per_chunk`), and the slot size it was learned for
(`chunk_basis`). -/
structure ChunkCache where
  chunkBasis : Nat
  maxPlaintextPerChunk : Nat
deriving DecidableEq

inductive Engine where
  | buffered
  | unbuffered (cache : ChunkCache)
deriving DecidableEq

structure TlsConn where
  maxPlaintextPerRecord : Nat
  version : Option ProtocolVersion
  engine : Engine
deriving DecidableEq

namespace TlsConn

def new (maxFragmentSize : Option Nat) (version : Option ProtocolVersion) (unbuffered : Bool) :
    TlsConn where
  maxPlaintextPerRecord := plaintextPerRecord maxFragmentSize
  version := version
  engine := if unbuffered then .unbuffered ⟨0, 0⟩ else .buffered

/-- `ciphertext_capacity`. -/
def ciphertextCapacity (c : TlsConn) (plaintextLen : Nat) : CiphertextCapacity where
  records := plaintextLen ⌈/⌉ max c.maxPlaintextPerRecord 1 + 1
  maxPlaintextPerRecord := c.maxPlaintextPerRecord
  unbuffered := c.engine != .buffered

end TlsConn

inductive EncryptError where
  | poolExhausted
  | noProgress
  | tooSmall
  /-- An error of rustls. -/
  | refused
deriving DecidableEq

/-- How an encryption ends: how many slots it took, and the ciphertext in each of them. -/
structure Report where
  allocated : Nat
  result : Except EncryptError (List Nat)

/-- A send, and what it finds. -/
structure Send where
  /-- The bytes of the plaintext. -/
  len : Nat
  /-- The free slots of the pool. -/
  free : Nat
  /-- The record that waits in `sendable_tls`. -/
  queued : Nat
  /-- The ciphertext of some plaintext, without what waits. -/
  wire : Nat → Nat
  /-- How often the unbuffered engine gets an answer before rustls refuses. -/
  calls : Nat
  /-- What rustls accepts of each write of the buffered engine before it refuses. -/
  accepts : List Nat

/-! ## The unbuffered engine -/

def minEncryptDst : Nat := 64

/-- The loop of `encrypt_with`: the chunk that fits, and what was learned.  Each round makes the chunk
smaller. -/
def shrink (required : Nat → Nat) (dst : Nat) : Nat → Nat → Option Nat → Option (Nat × Option Nat)
  | 0, _, _ => none
  | fuel + 1, chunk, learned =>
    if required chunk ≤ dst then some (chunk, learned)
    else
      let next := min (chunk * dst / max (required chunk) 1) (chunk - 1)
      if next = 0 then none else shrink required dst fuel next (some next)

/-- `encrypt_with`. -/
def encryptWith (required : Nat → Nat) (dst chunk : Nat) : Option (Nat × Option Nat) :=
  shrink required dst chunk chunk none

namespace TlsConn

/-- The first chunk to try. -/
def hint (c : TlsConn) (cache : ChunkCache) (dst : Nat) : Nat :=
  if cache.chunkBasis = dst ∧ 0 < cache.maxPlaintextPerChunk then cache.maxPlaintextPerChunk
  else
    let whole := dst / (c.maxPlaintextPerRecord + negotiatedRecordOverhead c.version)
    if whole = 0 then dst else whole * c.maxPlaintextPerRecord

/-- `encrypt_chunk`: the plaintext consumed, the ciphertext written, and what is remembered. -/
def encryptChunk (c : TlsConn) (cache : ChunkCache) (plaintext dst queued : Nat)
    (wire : Nat → Nat) : Except EncryptError (Nat × Nat × ChunkCache) :=
  if plaintext = 0 then .ok (0, 0, cache)
  else if dst < minEncryptDst then .error .tooSmall
  else
    match encryptWith (fun chunk => queued + wire chunk) dst
        (min plaintext (max (c.hint cache dst) 1)) with
    | none => .error .tooSmall
    | some (chunk, learned) =>
      .ok (chunk, queued + wire chunk,
        match learned with
        | some n => ⟨dst, n⟩
        | none => cache)

/-- The loop of `encrypt_to_sends`, with the ciphertext that is in slots already. -/
def encryptChunks (c : TlsConn) (slotSize : Nat) (wire : Nat → Nat) :
    Nat → ChunkCache → (free plaintext queued : Nat) → List Nat → ChunkCache × Report
  | 0, cache, free, plaintext, _, filled =>
    if plaintext = 0 then (cache, ⟨filled.length, .ok filled⟩)
    else if free = 0 then (cache, ⟨filled.length, .error .poolExhausted⟩)
    else (cache, ⟨filled.length + 1, .error .refused⟩)
  | calls + 1, cache, free, plaintext, queued, filled =>
    if plaintext = 0 then (cache, ⟨filled.length, .ok filled⟩)
    else if free = 0 then (cache, ⟨filled.length, .error .poolExhausted⟩)
    else
      match c.encryptChunk cache plaintext slotSize queued wire with
      | .error e => (cache, ⟨filled.length + 1, .error e⟩)
      | .ok (usedPt, usedCt, cache) =>
        if 0 < usedPt ∧ 0 < usedCt then
          c.encryptChunks slotSize wire calls cache (free - 1) (plaintext - usedPt) 0
            (filled ++ [usedCt])
        else (cache, ⟨filled.length + 1, .error .noProgress⟩)

end TlsConn

/-! ## The buffered engine -/

structure PoolWriter where
  free : Nat
  /-- The bytes in the slot that is being filled. -/
  current : Option Nat
  filled : List Nat

namespace PoolWriter

/-- The slots that were taken. -/
def allocated (w : PoolWriter) : Nat := w.filled.length + w.current.toList.length

def sealCurrent (w : PoolWriter) : PoolWriter :=
  match w.current with
  | some 0 => { w with current := none, free := w.free + 1 }
  | some used => { w with current := none, filled := w.filled ++ [used] }
  | none => w

/-- The slot to write to, and the bytes in it. -/
def slot (w : PoolWriter) : Option (PoolWriter × Nat) :=
  match w.current with
  | some used => some (w, used)
  | none => if w.free = 0 then none else some ({ w with free := w.free - 1 }, 0)

/-- `write`, as often as it takes: what could not be written for want of slots.  Every round writes
something. -/
def write (slotSize : Nat) : Nat → PoolWriter → Nat → PoolWriter × Nat
  | 0, w, left => (w, left)
  | fuel + 1, w, left =>
    if left = 0 then (w, 0)
    else
      match w.slot with
      | none => (w, left)
      | some (w, used) =>
        let n := min left (slotSize - used)
        let w := { w with current := some (used + n) }
        write slotSize fuel (if used + n = slotSize then w.sealCurrent else w) (left - n)

end PoolWriter

/-- The loop of `encrypt_to_sends_buffered`. -/
def encryptWrites (slotSize : Nat) (wire : Nat → Nat) :
    List Nat → (plaintext queued : Nat) → PoolWriter → Report
  | [], plaintext, _, w =>
    if plaintext = 0 then ⟨w.allocated, .ok w.sealCurrent.filled⟩ else ⟨w.allocated, .error .refused⟩
  | a :: accepts, plaintext, queued, w =>
    if plaintext = 0 then ⟨w.allocated, .ok w.sealCurrent.filled⟩
    else
      let n := min a plaintext
      let drained := queued + wire n
      match w.write slotSize drained drained with
      | (w, 0) =>
        if n = 0 ∧ drained = 0 then ⟨w.allocated, .error .noProgress⟩
        else encryptWrites slotSize wire accepts (plaintext - n) 0 w
      | (w, _) => ⟨w.allocated, .error .poolExhausted⟩

/-! ## The connection as a machine -/

namespace TlsConn

/-- `encrypt_to_sends`. -/
def encryptToSends (c : TlsConn) (slotSize : Nat) (x : Send) : TlsConn × Report :=
  match c.engine with
  | .buffered => (c, encryptWrites slotSize x.wire x.accepts x.len x.queued ⟨x.free, none, []⟩)
  | .unbuffered cache =>
    let (cache, report) := c.encryptChunks slotSize x.wire x.calls cache x.free x.len x.queued []
    ({ c with engine := .unbuffered cache }, report)

/-- A connection sends one thing after the other. -/
def step (slotSize : Nat) (c : TlsConn) (x : Send) : TlsConn := (c.encryptToSends slotSize x).1

end TlsConn
end Ringline.Tls
