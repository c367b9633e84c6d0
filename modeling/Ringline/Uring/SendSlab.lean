import Ringline.Uring.SendPool

/-!
# The slab of gathered sends

A send of several pieces — a zero-copy send with guards, a coalesced run of queued chunks, a batch
of receive buffers going straight back out — needs an iovec array that outlives the submission.
It lives in an entry of the worker's `InFlightSendSlab`, together with what has to be released
when the kernel is done with it.

Only the part of the iovec array that the message header still points at is kept: a partial send
moves the header's start, and nothing reads what lies before it.
-/

set_option autoImplicit false

namespace Ringline.Uring

open Function

/-- `libc::iovec`. -/
structure Iovec where
  base : Ptr
  len : Nat
deriving DecidableEq, Repr

/-- How many pieces one gathered send may have. -/
def maxIovecs : Nat := 32

/-- How many guards one gathered send may hold. -/
def maxGuards : Nat := 8

/-- The iovecs left after `skip` bytes of them have gone out. -/
def advanceIovecs : List Iovec → Nat → List Iovec
  | [], _ => []
  | v :: vs, skip =>
    if v.len ≤ skip then advanceIovecs vs (skip - v.len)
    else { base := v.base.add skip, len := v.len - skip } :: vs

structure InFlightSendEntry where
  /-- `iovecs[iov_start..iov_count]`, what the message header points at. -/
  iovecs : List Iovec := []
  /-- The pool slot holding the copied parts of a zero-copy send, if it has any. -/
  poolSlot : Option Nat := none
  /-- The pool slots of a coalesced run. -/
  poolSlots : List Nat := []
  /-- The receive buffers of a batch that is being forwarded. -/
  bids : List Nat := []
  connIndex : Nat := 0
  generation : Nat := 0
  totalLen : Nat := 0
  endOfSend : Bool := true
  boundedSend : Option (BoundedSendId × Nat) := none
  pendingNotifs : UInt8 := 0
  awaitingNotifications : Bool := false
  inUse : Bool := false
deriving DecidableEq, Repr

structure InFlightSendSlab where
  entries : Nat → InFlightSendEntry
  capacity : Nat
  /-- The free stack, its top first. -/
  freeList : List Nat

namespace InFlightSendSlab

def new (capacity : Nat) : InFlightSendSlab where
  entries := fun _ => {}
  capacity := capacity
  freeList := List.range capacity

variable (s : InFlightSendSlab)

def setEntry (i : Nat) (e : InFlightSendEntry) : InFlightSendSlab :=
  { s with entries := update s.entries i e }

/-- Pop a free entry and initialise it with `init`. -/
def allocateWith (init : InFlightSendEntry → InFlightSendEntry) : Option (Nat × InFlightSendSlab) :=
  match s.freeList with
  | [] => none
  | idx :: rest => some (idx, { s with freeList := rest }.setEntry idx (init (s.entries idx)))

/-- An entry for a zero-copy send. -/
def allocate (connIndex generation : Nat) (iovecs : List Iovec) (poolSlot : Option Nat)
    (totalLen : Nat) : Option (Nat × InFlightSendSlab) :=
  s.allocateWith fun e =>
    { e with
      iovecs := iovecs
      poolSlot := poolSlot
      poolSlots := []
      connIndex := connIndex
      generation := generation
      totalLen := totalLen
      endOfSend := true
      boundedSend := none
      pendingNotifs := 0
      awaitingNotifications := false
      inUse := true }

/-- An entry for a coalesced run of queued copy sends. -/
def allocateCoalesced (connIndex generation : Nat) (iovecs : List Iovec) (poolSlots : List Nat)
    (totalLen : Nat) (endOfSend : Bool) (boundedSend : Option (BoundedSendId × Nat)) :
    Option (Nat × InFlightSendSlab) :=
  s.allocateWith fun e =>
    { e with
      iovecs := iovecs
      poolSlot := none
      poolSlots := poolSlots
      connIndex := connIndex
      generation := generation
      totalLen := totalLen
      endOfSend := endOfSend
      boundedSend := boundedSend
      pendingNotifs := 0
      awaitingNotifications := false
      inUse := true }

/-- An entry for a batch of receive buffers. -/
def allocateRecvForward (connIndex generation : Nat) (iovecs : List Iovec) (bids : List Nat)
    (totalLen : Nat) : Option (Nat × InFlightSendSlab) :=
  s.allocateWith fun e =>
    { e with
      iovecs := iovecs
      poolSlot := none
      poolSlots := []
      bids := bids
      connIndex := connIndex
      generation := generation
      totalLen := totalLen
      endOfSend := true
      boundedSend := none
      pendingNotifs := 0
      awaitingNotifications := false
      inUse := true }

/-- Account for `bytesSent` more bytes; the answer says whether something is left to resubmit. -/
def tryAdvance (idx bytesSent : Nat) : Bool × InFlightSendSlab :=
  let e := s.entries idx
  let left := advanceIovecs e.iovecs bytesSent
  (!left.isEmpty, s.setEntry idx { e with iovecs := left })

def incPendingNotifs (idx : Nat) : InFlightSendSlab :=
  s.setEntry idx { s.entries idx with pendingNotifs := (s.entries idx).pendingNotifs + 1 }

def decPendingNotifs (idx : Nat) : InFlightSendSlab :=
  s.setEntry idx { s.entries idx with pendingNotifs := (s.entries idx).pendingNotifs - 1 }

def markAwaitingNotifications (idx : Nat) : InFlightSendSlab :=
  s.setEntry idx { s.entries idx with awaitingNotifications := true }

def shouldRelease (idx : Nat) : Bool :=
  (s.entries idx).pendingNotifs == 0 && (s.entries idx).awaitingNotifications

/-- Free an entry; the answer is the pool slot its owner has to release with it. -/
def release (idx : Nat) : Option Nat × InFlightSendSlab :=
  ((s.entries idx).poolSlot,
    { s with
      entries := update s.entries idx
        { s.entries idx with
          poolSlot := none
          poolSlots := []
          bids := []
          boundedSend := none
          inUse := false
          awaitingNotifications := false
          pendingNotifs := 0 }
      freeList := idx :: s.freeList })

def inUse (s : InFlightSendSlab) (idx : Nat) : Bool := (s.entries idx).inUse

def takeCoalescedBoundedSend (idx : Nat) : Option (BoundedSendId × Nat) × InFlightSendSlab :=
  ((s.entries idx).boundedSend, s.setEntry idx { s.entries idx with boundedSend := none })

/-! ## Well-formedness -/

/-- The free stack never holds an entry in use. -/
def Wf : Prop :=
  FreeStack.Sound s.freeList s.capacity fun i => (s.entries i).inUse

theorem wf_new (capacity : Nat) : (new capacity).Wf := FreeStack.sound_range capacity

@[simp] theorem setEntry_entries (i : Nat) (e : InFlightSendEntry) :
    (s.setEntry i e).entries = update s.entries i e := rfl

variable {i : Nat} {s : InFlightSendSlab}

theorem Wf.setEntry (h : s.Wf) {e : InFlightSendEntry} (hi : (s.entries i).inUse = true) :
    (s.setEntry i e).Wf :=
  FreeStack.Sound.update h hi fun j hj => by simp [update_of_ne hj]

theorem Wf.release (h : s.Wf) (hlt : i < s.capacity) (hi : (s.entries i).inUse = true) :
    (s.release i).2.Wf :=
  FreeStack.Sound.push h hlt hi (by simp [InFlightSendSlab.release]) fun j hj => by
    simp [InFlightSendSlab.release, update_of_ne hj]

theorem release_entries_of_ne (s : InFlightSendSlab) {j : Nat} (h : j ≠ i) :
    (s.release i).2.entries j = s.entries j := update_of_ne h ..

@[simp] theorem release_inUse (s : InFlightSendSlab) (i : Nat) :
    ((s.release i).2.entries i).inUse = false := by simp [InFlightSendSlab.release]

theorem allocateWith_eq_some {t : InFlightSendSlab} {init : InFlightSendEntry → InFlightSendEntry}
    (h : s.allocateWith init = some (i, t)) :
    ∃ rest, s.freeList = i :: rest ∧
      t = { s with freeList := rest }.setEntry i (init (s.entries i)) := by
  unfold allocateWith at h
  split at h
  · cases h
  · rename_i idx rest hfree
    obtain ⟨rfl, rfl⟩ := h
    exact ⟨rest, hfree, rfl⟩

/-- Taking the top of the free stack and initialising it keeps the slab sound. -/
theorem Wf.take_top (h : s.Wf) {rest : List Nat} (hfree : s.freeList = i :: rest)
    (e : InFlightSendEntry) : ({ s with freeList := rest }.setEntry i e).Wf := by
  rw [Wf, hfree] at h
  exact FreeStack.Sound.pop h fun j hj => by simp [update_of_ne hj]

end InFlightSendSlab
end Ringline.Uring
