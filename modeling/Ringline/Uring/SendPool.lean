import Ringline.Base.FreeStack

/-!
# The copy pool a connection's sends are staged in

A worker owns one `SendCopyPool`: a fixed number of equally long slots, a stack of the free ones,
and per slot how much of it has already been sent.  A copy send fills a slot, hands the kernel a
pointer into it, and gives the slot back when its last byte is out.

A pointer the kernel holds is a `Ptr`: into a pool slot, into memory a guard keeps alive, or into
a provided receive buffer.  The pool's own part of reading through one is `SendCopyPool.span`.

`SendCopyPool.Wf` is what every operation keeps: the free stack has no duplicates and holds no
slot that is in use.
-/

set_option autoImplicit false

namespace Ringline.Uring

open Function

/-- An address the kernel may be given. -/
inductive Ptr where
  /-- `offset` bytes into the pool slot `slot`. -/
  | pool (slot offset : Nat)
  /-- `offset` bytes into memory that a send guard owns; it does not change while it is held. -/
  | guard (bytes : List UInt8) (offset : Nat)
  /-- `offset` bytes into the provided receive buffer `bid`. -/
  | provided (bid offset : Nat)
deriving DecidableEq, Repr

/-- Pointer arithmetic inside one allocation. -/
def Ptr.add : Ptr → Nat → Ptr
  | pool slot offset, n => .pool slot (offset + n)
  | guard bytes offset, n => .guard bytes (offset + n)
  | provided bid offset, n => .provided bid (offset + n)

/-- The identity of a bounded send.  Its executor hands out each of them once. -/
abbrev BoundedSendId := Nat

/-- One slot, as the parallel vectors of the pool describe it. -/
structure PoolSlot where
  /-- The slot's part of the backing store. -/
  bytes : List UInt8 := []
  offset : Nat := 0
  remaining : Nat := 0
  inUse : Bool := false
  endOfSend : Bool := true
  /-- The bounded send that ends with this slot, and its logical length. -/
  boundedSend : Option (BoundedSendId × Nat) := none
deriving DecidableEq, Repr

structure SendCopyPool where
  slotSize : Nat
  count : Nat
  slots : Nat → PoolSlot
  /-- The free stack, its top first. -/
  freeList : List Nat
  reserved : Nat

inductive ReserveError where
  | exhausted
  | tooLarge (needed capacity : Nat)
deriving DecidableEq, Repr

namespace SendCopyPool

variable {p q : SendCopyPool}

def new (count slotSize : Nat) : SendCopyPool where
  slotSize := slotSize
  count := count
  slots := fun _ => {}
  freeList := List.range count
  reserved := 0

variable (p)

/-- Replace one slot. -/
def setSlot (i : Nat) (s : PoolSlot) : SendCopyPool :=
  { p with slots := update p.slots i s }

/-- The bytes `[offset, offset + len)` of slot `i`. -/
def span (i offset len : Nat) : List UInt8 :=
  ((p.slots i).bytes.drop offset).take len

def freeCount : Nat := p.freeList.length - p.reserved

/-- Pop a free slot that no reservation counts on. -/
def popUnreserved : Option (Nat × SendCopyPool) :=
  if p.freeCount = 0 then none
  else match p.freeList with
    | [] => none
    | idx :: rest => some (idx, { p with freeList := rest })

/-- Copy `data` to the front of slot `idx` and reset the rest of its record.  Whatever the slot
held beyond `data` stays in the backing store. -/
def fillSlot (idx : Nat) (data : List UInt8) (len : Nat) : SendCopyPool :=
  p.setSlot idx
    { bytes := data ++ (p.slots idx).bytes.drop data.length
      offset := 0
      remaining := len
      inUse := true
      endOfSend := true
      boundedSend := none }

def copyIn (data : List UInt8) : Option (Nat × SendCopyPool) :=
  if p.slotSize < data.length then none
  else match p.popUnreserved with
    | none => none
    | some (idx, p) => some (idx, p.fillSlot idx data data.length)

/-- Gather `parts` into one slot; the caller says how long they are together. -/
def copyInGather (parts : List (List UInt8)) (totalLen : Nat) : Option (Nat × SendCopyPool) :=
  if p.slotSize < totalLen then none
  else match p.popUnreserved with
    | none => none
    | some (idx, p) => some (idx, p.fillSlot idx parts.flatten totalLen)

def reserveSlots (n : Nat) : Except ReserveError SendCopyPool :=
  if p.count < n then .error (.tooLarge n p.count)
  else if p.freeCount < n then .error .exhausted
  else .ok { p with reserved := p.reserved + n }

/-- Fill one reserved slot.  `none` is the panic on an empty free list. -/
def copyInReserved (data : List UInt8) : Option (Nat × SendCopyPool) :=
  match p.freeList with
  | [] => none
  | idx :: rest =>
    some (idx,
      { p with freeList := rest, reserved := p.reserved - 1 }.fillSlot idx data data.length)

def releaseReservation (remaining : Nat) : SendCopyPool :=
  { p with reserved := p.reserved - remaining }

/-- Give a slot back.  Any bounded send it still carries is dropped with it, and releasing a free
slot does nothing else. -/
def release (idx : Nat) : SendCopyPool :=
  if (p.slots idx).inUse then
    { p with
      slots := update p.slots idx
        { p.slots idx with boundedSend := none, inUse := false, offset := 0, remaining := 0 }
      freeList := idx :: p.freeList }
  else p.setSlot idx { p.slots idx with boundedSend := none }

/-- Account for `bytesSent` more bytes.  `none` when that was all of them; otherwise the pool with
the slot moved on, the pointer to resubmit and how much is left. -/
def tryAdvance (slot bytesSent : Nat) : Option (SendCopyPool × Ptr × Nat) :=
  let s := p.slots slot
  let newRemaining := s.remaining - bytesSent
  if newRemaining = 0 then none
  else
    some (p.setSlot slot { s with offset := s.offset + bytesSent, remaining := newRemaining },
      .pool slot (s.offset + bytesSent), newRemaining)

def inUse (p : SendCopyPool) (slot : Nat) : Bool := (p.slots slot).inUse

def currentPtrRemaining (slot : Nat) : Ptr × Nat :=
  (.pool slot (p.slots slot).offset, (p.slots slot).remaining)

def originalLen (slot : Nat) : Nat :=
  (p.slots slot).offset + (p.slots slot).remaining

def setEndOfSend (slot : Nat) (endOfSend : Bool) : SendCopyPool :=
  p.setSlot slot { p.slots slot with endOfSend := endOfSend }

def isEndOfSend (slot : Nat) : Bool := (p.slots slot).endOfSend

def setBoundedSend (slot : Nat) (id : BoundedSendId) (logicalLen : Nat) : SendCopyPool :=
  p.setSlot slot { p.slots slot with boundedSend := some (id, logicalLen) }

/-- The bounded send a slot carries, and the pool with the slot stripped of it. -/
def takeBoundedSend (slot : Nat) : Option (BoundedSendId × Nat) × SendCopyPool :=
  ((p.slots slot).boundedSend, p.setSlot slot { p.slots slot with boundedSend := none })

variable {p}

/-! ## Well-formedness -/

/-- Slots have room for something, and the free stack never holds one in use. -/
structure Wf (p : SendCopyPool) : Prop where
  slotSize_pos : 0 < p.slotSize
  free : FreeStack.Sound p.freeList p.count fun i => (p.slots i).inUse

theorem wf_new (count : Nat) {slotSize : Nat} (h : 0 < slotSize) : (new count slotSize).Wf :=
  ⟨h, FreeStack.sound_range count⟩

@[simp] theorem setSlot_slots (p : SendCopyPool) (i : Nat) (s : PoolSlot) :
    (p.setSlot i s).slots = update p.slots i s := rfl

@[simp] theorem setSlot_count (p : SendCopyPool) (i : Nat) (s : PoolSlot) :
    (p.setSlot i s).count = p.count := rfl

variable {i : Nat}

/-- Changing a slot that is in use keeps the stack sound. -/
theorem Wf.setSlot (h : p.Wf) {s : PoolSlot} (hi : (p.slots i).inUse = true) : (p.setSlot i s).Wf :=
  ⟨h.slotSize_pos, h.free.update hi fun j hj => by simp [update_of_ne hj]⟩

/-- Two writes to one slot. -/
@[simp] theorem setSlot_setSlot (p : SendCopyPool) (i : Nat) (s t : PoolSlot) :
    (p.setSlot i s).setSlot i t = p.setSlot i t := by
  simp only [SendCopyPool.setSlot, update_idem]

/-- Releasing a slot in use: it becomes the top of the free stack. -/
theorem Wf.release (h : p.Wf) (hlt : i < p.count) (hi : (p.slots i).inUse = true) :
    (p.release i).Wf := by
  rw [SendCopyPool.release, if_pos hi]
  exact ⟨h.slotSize_pos,
    h.free.push hlt hi (by simp) fun j hj => by simp [update_of_ne hj]⟩

theorem release_slots_of_ne (p : SendCopyPool) {j : Nat} (h : j ≠ i) :
    (p.release i).slots j = p.slots j := by
  unfold release
  split <;> simp [update_of_ne h]

@[simp] theorem release_count (p : SendCopyPool) (i : Nat) : (p.release i).count = p.count := by
  unfold release; split <;> rfl

theorem releaseAll_slots_of_notMem (ss : List Nat) (p : SendCopyPool) {j : Nat} (h : j ∉ ss) :
    (ss.foldl release p).slots j = p.slots j := by
  induction ss generalizing p with
  | nil => rfl
  | cons i ss ih =>
    rw [List.mem_cons, not_or] at h
    rw [List.foldl_cons, ih _ h.2, release_slots_of_ne p h.1]

theorem releaseAll_count (ss : List Nat) (p : SendCopyPool) :
    (ss.foldl release p).count = p.count := by
  induction ss generalizing p with
  | nil => rfl
  | cons i ss ih => rw [List.foldl_cons, ih, release_count]

/-- Releasing different slots in use, one after the other. -/
theorem Wf.releaseAll {ss : List Nat} (h : p.Wf) (hnodup : ss.Nodup)
    (hss : ∀ i ∈ ss, i < p.count ∧ (p.slots i).inUse = true) :
    (ss.foldl SendCopyPool.release p).Wf := by
  induction ss generalizing p with
  | nil => exact h
  | cons i ss ih =>
    obtain ⟨hi, hnodup⟩ := List.nodup_cons.mp hnodup
    obtain ⟨hlt, huse⟩ := hss i (List.mem_cons_self ..)
    rw [List.foldl_cons]
    refine ih (h.release hlt huse) hnodup fun j hj => ?_
    rw [release_count, release_slots_of_ne p (ne_of_mem_of_not_mem hj hi)]
    exact hss j (List.mem_cons_of_mem _ hj)

/-- A slot popped for `data`: the pool afterwards, and that the slot was free. -/
theorem copyInReserved_eq_some {data : List UInt8} (h : p.copyInReserved data = some (i, q)) :
    ∃ rest, p.freeList = i :: rest ∧
      q = { p with freeList := rest, reserved := p.reserved - 1 }.fillSlot i data data.length := by
  unfold copyInReserved at h
  split at h
  · cases h
  · rename_i idx rest hfree
    obtain ⟨rfl, rfl⟩ := h
    exact ⟨rest, hfree, rfl⟩

theorem popUnreserved_eq_some (h : p.popUnreserved = some (i, q)) :
    ∃ rest, p.freeList = i :: rest ∧ q = { p with freeList := rest } := by
  unfold popUnreserved at h
  split at h
  · cases h
  · split at h
    · cases h
    · rename_i idx rest hfree
      obtain ⟨rfl, rfl⟩ := h
      exact ⟨rest, hfree, rfl⟩

theorem copyInGather_eq_some {parts : List (List UInt8)} {total : Nat}
    (h : p.copyInGather parts total = some (i, q)) :
    total ≤ p.slotSize ∧ ∃ rest, p.freeList = i :: rest ∧
      q = { p with freeList := rest }.fillSlot i parts.flatten total := by
  unfold copyInGather at h
  split at h
  · cases h
  · rename_i hsize
    refine ⟨Nat.le_of_not_lt hsize, ?_⟩
    split at h
    · cases h
    · rename_i idx p' hpop
      obtain ⟨rest, hfree, rfl⟩ := popUnreserved_eq_some hpop
      obtain ⟨rfl, rfl⟩ := h
      exact ⟨rest, hfree, rfl⟩

/-- Taking the top of the free stack and filling it keeps the pool sound. -/
theorem Wf.take_top (h : p.Wf) {rest : List Nat} (r : Nat) (hfree : p.freeList = i :: rest)
    (s : PoolSlot) : ({ p with freeList := rest, reserved := r }.setSlot i s).Wf := by
  obtain ⟨hpos, hsound⟩ := h
  rw [hfree] at hsound
  exact ⟨hpos, hsound.pop fun j hj => by simp [update_of_ne hj]⟩

end SendCopyPool
end Ringline.Uring
