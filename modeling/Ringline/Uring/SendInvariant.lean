import Mathlib.Data.List.Forall2
import Mathlib.Data.List.Count
import Ringline.Base.Streams
import Ringline.Uring.SendHandlers

/-!
# Who owns which send

The sends a connection has accepted and not finished form a line: one of them is *active* — in the
kernel, waiting for POLLOUT, or on a retry list — and the others are queued behind it.  A `Ghost`
names them: for each connection the active `Piece` and the queued ones, each with the bytes it has
still to send and the pool slots and slab entries that hold them.

`Core` ties a worker to a ghost.  It has four independent parts, so that each operation is checked
against the parts it touches and the rest is carried over:

* `Res`: every piece is where it claims to be, and no slot or entry belongs to two of them;
* `Que`: the queue of each connection lists its queued pieces, in order;
* `Loc`: an active piece is in exactly one place — the kernel or one retry list — and every
  submission in the kernel covers exactly what is left of it;
* `Quiet`: no connection is being closed, half-closed or driven by a chain.

The list `L` counts as one more place: it holds what a handler has taken out of the kernel or off
a retry list and not yet put back.
-/

set_option autoImplicit false

namespace Ringline.Uring

open List Iovec Function

variable {p p' : SendCopyPool} {prov : Nat → List UInt8} {sl : InFlightSendSlab} {gen : Nat → Nat}

/-! ## Advancing iovecs -/

section

variable {slots : List Nat} {ptr : Ptr} {iovecs : List Iovec}

theorem Ptr.read_add (p : SendCopyPool) (prov : Nat → List UInt8) (ptr : Ptr) (n len : Nat) :
    (ptr.add n).read p prov (len - n) = (ptr.read p prov len).drop n := by
  cases ptr <;> simp only [Ptr.add, Ptr.read, SendCopyPool.span, drop_take, drop_drop]

/-- The address lies in one of `slots`, or in memory a guard owns. -/
def Ptr.InSlots (slots : List Nat) : Ptr → Prop
  | .pool slot _ => slot ∈ slots
  | .guard _ _ => True
  | .provided _ _ => False

theorem Ptr.inSlots_add (h : ptr.InSlots slots) (n : Nat) :
    (ptr.add n).InSlots slots := by cases ptr <;> exact h

theorem Ptr.read_congr (h : ptr.InSlots slots)
    (hs : ∀ s ∈ slots, p'.slots s = p.slots s) (prov : Nat → List UInt8) (len : Nat) :
    ptr.read p' prov len = ptr.read p prov len := by
  cases ptr with
  | pool s o => simp only [Ptr.read, SendCopyPool.span, hs s h]
  | guard b o => rfl
  | provided b o => exact h.elim

/-- Every iovec can be read in full, and lies in `slots` or in guarded memory. -/
def Readable (p : SendCopyPool) (prov : Nat → List UInt8) (slots : List Nat)
    (iovecs : List Iovec) : Prop :=
  ∀ v ∈ iovecs, (v.base.read p prov v.len).length = v.len ∧ v.base.InSlots slots

theorem readAll_advance (h : Readable p prov slots iovecs) (n : Nat) :
    readAll p prov (advanceIovecs iovecs n) = (readAll p prov iovecs).drop n ∧
      Readable p prov slots (advanceIovecs iovecs n) := by
  induction iovecs generalizing n with
  | nil => exact ⟨by simp [advanceIovecs, readAll], fun _ hv => by cases hv⟩
  | cons v vs ih =>
    obtain ⟨hlen, hin⟩ := h v (mem_cons_self ..)
    have htail : Readable p prov slots vs := fun u hu => h u (mem_cons_of_mem _ hu)
    have hsplit : readAll p prov (v :: vs) =
        v.base.read p prov v.len ++ readAll p prov vs := rfl
    rw [advanceIovecs]
    split
    · rw [hsplit, drop_append, hlen, drop_of_length_le (by omega), nil_append]
      exact ih htail _
    · have hhead := Ptr.read_add p prov v.base n v.len
      refine ⟨?_, fun u hu => ?_⟩
      · change (v.base.add n).read p prov (v.len - n) ++ readAll p prov vs = _
        rw [hhead, hsplit, drop_append_of_le_length (by omega)]
      · rcases mem_cons.mp hu with rfl | hu
        · refine ⟨?_, Ptr.inSlots_add hin n⟩
          rw [hhead, length_drop, hlen]
        · exact htail u hu

theorem advanceIovecs_eq_nil_iff (h : Readable p prov slots iovecs) (n : Nat) :
    advanceIovecs iovecs n = [] ↔ (readAll p prov iovecs).length ≤ n := by
  induction iovecs generalizing n with
  | nil => simp [advanceIovecs, readAll]
  | cons v vs ih =>
    have hlen := (h v (mem_cons_self ..)).1
    have hsplit : (readAll p prov (v :: vs)).length =
        v.len + (readAll p prov vs).length := by
      rw [← hlen, ← length_append]
      rfl
    rw [advanceIovecs, hsplit]
    split
    · rw [ih fun u hu => h u (mem_cons_of_mem _ hu)]
      omega
    · simp only [cons_ne_nil, false_iff]
      omega

end

/-! ## Pieces -/

/-- How a piece is held: in one pool slot, or in a slab entry with the slots it gathers. -/
inductive Job where
  | copy (slot : Nat)
  | gather (zc : Bool) (entry : Nat) (slots : List Nat)
deriving DecidableEq

/-- What a submission or a retry entry shows of a piece. -/
inductive Ref where
  | slot (slot : Nat)
  | entry (zc : Bool) (entry : Nat)
deriving DecidableEq

namespace Job

def slots : Job → List Nat
  | copy s => [s]
  | gather _ _ ss => ss

def entries : Job → List Nat
  | copy _ => []
  | gather _ e _ => [e]

def ref : Job → Ref
  | copy s => .slot s
  | gather zc e _ => .entry zc e

def isZc : Job → Bool
  | copy _ => false
  | gather zc _ _ => zc

theorem eq_copy_of_ref {j : Job} {s : Nat} (h : j.ref = .slot s) : j = .copy s := by
  cases j with
  | copy t => rw [Ref.slot.inj h]
  | gather zc e ss => cases h

theorem eq_gather_of_ref {j : Job} {zc : Bool} {e : Nat} (h : j.ref = .entry zc e) :
    ∃ ss, j = .gather zc e ss := by
  cases j with
  | copy t => cases h
  | gather zc' e' ss =>
    obtain ⟨rfl, rfl⟩ := Ref.entry.inj h
    exact ⟨ss, rfl⟩

end Job

/-- An accepted send, or a chunk of one, that is not finished. -/
structure Piece where
  job : Job
  /-- What is left to send of it. -/
  bytes : List UInt8
  eos : Bool
  bounded : Option (BoundedSendId × Nat)

/-- A piece as a segment of its connection's stream. -/
def Piece.segment (x : Piece) : Streams.Segment UInt8 (BoundedSendId × Nat) := ⟨x.bytes, x.bounded⟩

/-- Only a zero-copy send may be empty, and only a copied one that ends a logical send carries a
bounded send. -/
structure Piece.Wf (x : Piece) : Prop where
  ne_nil : x.job.isZc = false → x.bytes ≠ []
  eos : x.eos = false → x.bounded = none
  zc : x.job.isZc = true → x.bounded = none

variable {x : Piece}

theorem Piece.Wf.drop (h : x.Wf) {n : Nat} (hn : n < x.bytes.length) :
    ({ x with bytes := x.bytes.drop n } : Piece).Wf where
  ne_nil _ := by
    rw [← length_pos_iff, length_drop]
    omega
  eos := h.eos
  zc := h.zc

/-- Slot `s` holds exactly what is left of `x`. -/
structure HoldsCopy (p : SendCopyPool) (s : Nat) (x : Piece) : Prop where
  lt : s < p.count
  inUse : (p.slots s).inUse = true
  span : p.span s (p.slots s).offset (p.slots s).remaining = x.bytes
  remaining : (p.slots s).remaining = x.bytes.length
  eos : (p.slots s).endOfSend = x.eos
  bounded : (p.slots s).boundedSend = x.bounded

/-- Entry `e` of connection `c` holds exactly what is left of `x`, gathered from `slots`. -/
structure HoldsGather (p : SendCopyPool) (sl : InFlightSendSlab) (prov : Nat → List UInt8)
    (gen c : Nat) (zc : Bool) (e : Nat) (slots : List Nat) (x : Piece) : Prop where
  lt : e < sl.capacity
  inUse : (sl.entries e).inUse = true
  awaiting : (sl.entries e).awaitingNotifications = false
  connIndex : (sl.entries e).connIndex = c
  generation : (sl.entries e).generation = gen
  poolSlot : (sl.entries e).poolSlot.toList = if zc then slots else []
  poolSlots : (sl.entries e).poolSlots = if zc then [] else slots
  eos : (sl.entries e).endOfSend = x.eos
  bounded : (sl.entries e).boundedSend = x.bounded
  readable : Readable p prov slots (sl.entries e).iovecs
  bytes : readAll p prov (sl.entries e).iovecs = x.bytes
  slot : ∀ s ∈ slots, s < p.count ∧ (p.slots s).inUse = true ∧ (p.slots s).boundedSend = none

/-- The slots and entries of a piece hold exactly what is left of it. -/
def Holds (p : SendCopyPool) (sl : InFlightSendSlab) (prov : Nat → List UInt8) (gen : Nat → Nat)
    (c : Nat) (x : Piece) : Prop :=
  match x.job with
  | .copy s => HoldsCopy p s x
  | .gather zc e slots => HoldsGather p sl prov (gen c) c zc e slots x

variable {c : Nat}

theorem holds_copy_iff {s : Nat} (hjob : x.job = .copy s) :
    Holds p sl prov gen c x ↔ HoldsCopy p s x := by
  cases x
  subst hjob
  exact Iff.rfl

theorem holds_gather_iff {e : Nat} {zc : Bool} {slots : List Nat}
    (hjob : x.job = .gather zc e slots) :
    Holds p sl prov gen c x ↔ HoldsGather p sl prov (gen c) c zc e slots x := by
  cases x
  subst hjob
  exact Iff.rfl

/-- An entry apart from the count of its notifications, which no piece depends on. -/
def InFlightSendEntry.body (e : InFlightSendEntry) : InFlightSendEntry :=
  { e with pendingNotifs := 0 }

section

variable (h : Holds p sl prov gen c x)

include h

theorem Holds.slot_inUse {s : Nat} (hs : s ∈ x.job.slots) :
    s < p.count ∧ (p.slots s).inUse = true := by
  obtain ⟨_ | ⟨zc, e, slots⟩, bytes, eos, bounded⟩ := x
  · obtain rfl := mem_singleton.mp hs
    exact ⟨h.lt, h.inUse⟩
  · exact ⟨(h.slot s hs).1, (h.slot s hs).2.1⟩

theorem Holds.entry_inUse {e : Nat} (he : e ∈ x.job.entries) :
    e < sl.capacity ∧ (sl.entries e).inUse = true ∧
      (sl.entries e).awaitingNotifications = false := by
  obtain ⟨_ | ⟨zc, e', slots⟩, bytes, eos, bounded⟩ := x
  · cases he
  · obtain rfl := mem_singleton.mp he
    exact ⟨h.lt, h.inUse, h.awaiting⟩

/-- A piece only depends on its own slots and entries. -/
theorem Holds.congr {sl' : InFlightSendSlab} (hcount : p'.count = p.count)
    (hcap : sl'.capacity = sl.capacity) (hs : ∀ s ∈ x.job.slots, p'.slots s = p.slots s)
    (he : ∀ e ∈ x.job.entries, (sl'.entries e).body = (sl.entries e).body) :
    Holds p' sl' prov gen c x := by
  obtain ⟨job, bytes, eos, bounded⟩ := x
  cases job with
  | copy s =>
    have hslot : p'.slots s = p.slots s := hs s (mem_singleton_self s)
    have hspan : p'.span s (p'.slots s).offset (p'.slots s).remaining = bytes := by
      rw [SendCopyPool.span, hslot]
      exact h.span
    exact ⟨hcount ▸ h.lt, hslot ▸ h.inUse, hspan, hslot ▸ h.remaining, hslot ▸ h.eos,
      hslot ▸ h.bounded⟩
  | gather zc e slots =>
    have hentry {α : Type} (f : InFlightSendEntry → α) :
        f (sl'.entries e).body = f (sl.entries e).body :=
      congrArg f (he e (mem_singleton_self e))
    have hiov : (sl'.entries e).iovecs = (sl.entries e).iovecs := hentry (·.iovecs)
    have hread : ∀ v ∈ (sl.entries e).iovecs,
        v.base.read p' prov v.len = v.base.read p prov v.len :=
      fun v hv => Ptr.read_congr (h.readable v hv).2 hs prov v.len
    refine ⟨hcap ▸ h.lt, (hentry (·.inUse)).trans h.inUse,
      (hentry (·.awaitingNotifications)).trans h.awaiting,
      (hentry (·.connIndex)).trans h.connIndex, (hentry (·.generation)).trans h.generation,
      (hentry (·.poolSlot.toList)).trans h.poolSlot, (hentry (·.poolSlots)).trans h.poolSlots,
      (hentry (·.endOfSend)).trans h.eos, (hentry (·.boundedSend)).trans h.bounded, ?_, ?_, ?_⟩
    · rw [hiov]
      intro v hv
      rw [hread v hv]
      exact h.readable v hv
    · rw [hiov, ← h.bytes]
      exact flatMap_congr hread
    · intro s hmem
      rw [hcount, hs s hmem]
      exact h.slot s hmem

end

/-! ## Ghosts -/

/-- Who a slot or an entry belongs to: the sends of a connection, or a finished zero-copy send
whose notifications are still to come. -/
inductive Owner where
  | conn (c : Nat)
  | entry (e : Nat)
deriving DecidableEq

structure Ghost where
  act : Nat → Option Piece
  que : Nat → List Piece
  /-- Sends that are built and about to be handed to the queue, counted in `que` already. -/
  built : Nat → List BuiltSend
  slotOwner : Nat → Owner
  entryOwner : Nat → Owner

/-- The line of a connection: what is active, then what is queued. -/
def Ghost.pieces (g : Ghost) (c : Nat) : List Piece := (g.act c).toList ++ g.que c

/-! ## Resources -/

/-- The pieces of connection `c` are held where they claim to be, all in different places. -/
structure Own (p : SendCopyPool) (sl : InFlightSendSlab) (prov : Nat → List UInt8)
    (gen : Nat → Nat) (g : Ghost) (c : Nat) : Prop where
  holds : ∀ x ∈ g.pieces c, Holds p sl prov gen c x ∧ x.Wf
  slots : ((g.pieces c).flatMap fun x => x.job.slots).Nodup
  slotOwner : ∀ x ∈ g.pieces c, ∀ s ∈ x.job.slots, g.slotOwner s = .conn c
  entries : ((g.pieces c).flatMap fun x => x.job.entries).Nodup
  entryOwner : ∀ x ∈ g.pieces c, ∀ e ∈ x.job.entries, g.entryOwner e = .conn c

/-- Entry `e` only waits for notifications; its pool slot waits with it. -/
structure Zombie (p : SendCopyPool) (sl : InFlightSendSlab) (g : Ghost) (e : Nat) : Prop where
  lt : e < sl.capacity
  owner : g.entryOwner e = .entry e
  poolSlots : (sl.entries e).poolSlots = []
  slot : ∀ s, (sl.entries e).poolSlot = some s →
    s < p.count ∧ (p.slots s).inUse = true ∧ g.slotOwner s = .entry e

structure Res (p : SendCopyPool) (sl : InFlightSendSlab) (prov : Nat → List UInt8)
    (gen : Nat → Nat) (g : Ghost) : Prop where
  pool : p.Wf
  slab : sl.Wf
  count_le : p.count ≤ 65535
  capacity_le : sl.capacity ≤ 65535
  own : ∀ c, Own p sl prov gen g c
  zombie : ∀ e, (sl.entries e).inUse = true → (sl.entries e).awaitingNotifications = true →
    Zombie p sl g e

section Res

variable {sl' : InFlightSendSlab} {g g' : Ghost}

theorem Res.slot_inUse (h : Res p sl prov gen g) {s : Nat} (hx : x ∈ g.pieces c)
    (hs : s ∈ x.job.slots) : (p.slots s).inUse = true :=
  ((h.own c).holds x hx).1.slot_inUse hs |>.2

/-- Nothing is held in what changed: slots in use keep their contents, and entries in use all but the
count of their notifications. -/
theorem Res.congr (h : Res p sl prov gen g) (hpool : p'.Wf) (hslab : sl'.Wf)
    (hcount : p'.count = p.count) (hcap : sl'.capacity = sl.capacity)
    (hslot : ∀ s, (p.slots s).inUse = true → p'.slots s = p.slots s)
    (hentry : ∀ e, (sl.entries e).inUse = true → (sl'.entries e).body = (sl.entries e).body)
    (hfree : ∀ e, (sl'.entries e).inUse = true → (sl.entries e).inUse = true) :
    Res p' sl' prov gen g where
  pool := hpool
  slab := hslab
  count_le := hcount ▸ h.count_le
  capacity_le := hcap ▸ h.capacity_le
  own d :=
    { h.own d with
      holds := fun x hx => by
        obtain ⟨hx', hwf⟩ := (h.own d).holds x hx
        exact ⟨hx'.congr hcount hcap (fun s hs => hslot s (hx'.slot_inUse hs).2)
          fun e he => hentry e (hx'.entry_inUse he).2.1, hwf⟩ }
  zombie e hin haw := by
    have hold := hfree e hin
    have hbody {α : Type} (f : InFlightSendEntry → α) :
        f (sl'.entries e).body = f (sl.entries e).body := congrArg f (hentry e hold)
    have hz := h.zombie e hold ((hbody (·.awaitingNotifications)).symm.trans haw)
    refine ⟨hcap ▸ hz.lt, hz.owner, (hbody (·.poolSlots)).trans hz.poolSlots, fun s hs => ?_⟩
    have hzs := hz.slot s ((hbody (·.poolSlot)).symm.trans hs)
    rw [hcount, hslot s hzs.2.1]
    exact hzs

/-- **The frame rule.**  A step that touches only what `o` owns, and what is free, leaves everybody
else's pieces alone: it is enough to look at the pieces of `o`, and at entries that are new. -/
theorem Res.update (h : Res p sl prov gen g) (o : Owner) (hpool : p'.Wf) (hslab : sl'.Wf)
    (hcount : p'.count = p.count) (hcap : sl'.capacity = sl.capacity)
    (hpieces : ∀ d, Owner.conn d ≠ o → g'.pieces d = g.pieces d)
    (hslot : ∀ s, (p.slots s).inUse = true → g.slotOwner s ≠ o →
      p'.slots s = p.slots s ∧ g'.slotOwner s = g.slotOwner s)
    (hentry : ∀ e, (sl.entries e).inUse = true → g.entryOwner e ≠ o →
      sl'.entries e = sl.entries e ∧ g'.entryOwner e = g.entryOwner e)
    (hown : ∀ c, Owner.conn c = o → Own p' sl' prov gen g' c)
    (hzombie : ∀ e, g.entryOwner e = o ∨ (sl.entries e).inUse = false →
      (sl'.entries e).inUse = true → (sl'.entries e).awaitingNotifications = true →
      Zombie p' sl' g' e) : Res p' sl' prov gen g' where
  pool := hpool
  slab := hslab
  count_le := hcount ▸ h.count_le
  capacity_le := hcap ▸ h.capacity_le
  own d := by
    by_cases hd : Owner.conn d = o
    · exact hown d hd
    have hs : ∀ x ∈ g.pieces d, ∀ s ∈ x.job.slots,
        p'.slots s = p.slots s ∧ g'.slotOwner s = g.slotOwner s := fun x hx s hmem =>
      hslot s (h.slot_inUse hx hmem) ((h.own d).slotOwner x hx s hmem ▸ hd)
    have he : ∀ x ∈ g.pieces d, ∀ e ∈ x.job.entries,
        sl'.entries e = sl.entries e ∧ g'.entryOwner e = g.entryOwner e := fun x hx e hmem =>
      hentry e (((h.own d).holds x hx).1.entry_inUse hmem).2.1
        ((h.own d).entryOwner x hx e hmem ▸ hd)
    rw [← hpieces d hd] at hs he
    have hold := h.own d
    constructor
    · intro x hx
      refine ⟨?_, (hold.holds x (hpieces d hd ▸ hx)).2⟩
      exact (hold.holds x (hpieces d hd ▸ hx)).1.congr hcount hcap
        (fun s hmem => (hs x hx s hmem).1) fun e hmem => congrArg _ (he x hx e hmem).1
    · rw [hpieces d hd]
      exact hold.slots
    · intro x hx s hmem
      rw [(hs x hx s hmem).2]
      exact hold.slotOwner x (hpieces d hd ▸ hx) s hmem
    · rw [hpieces d hd]
      exact hold.entries
    · intro x hx e hmem
      rw [(he x hx e hmem).2]
      exact hold.entryOwner x (hpieces d hd ▸ hx) e hmem
  zombie e hin haw := by
    by_cases ho : g.entryOwner e = o ∨ (sl.entries e).inUse = false
    · exact hzombie e ho hin haw
    rw [not_or, Bool.not_eq_false] at ho
    obtain ⟨heq, howner⟩ := hentry e ho.2 ho.1
    rw [heq] at haw
    have hz := h.zombie e ho.2 haw
    refine ⟨hcap ▸ hz.lt, howner ▸ hz.owner, heq ▸ hz.poolSlots, fun s hs => ?_⟩
    obtain ⟨hlt, huse, hso⟩ := hz.slot s (heq ▸ hs)
    have hne : g.slotOwner s ≠ o := by
      rw [hso, ← hz.owner]
      exact ho.1
    obtain ⟨hseq, hsown⟩ := hslot s huse hne
    exact ⟨hcount ▸ hlt, hseq ▸ huse, hsown ▸ hso⟩

end Res

/-! ## Queues -/

/-- `b` is the submission of piece `x`, which has not been touched since it was built. -/
def Queued (p : SendCopyPool) (gen : Nat → Nat) (c : Nat) (b : BuiltSend) (x : Piece) : Prop :=
  match x.job with
  | .copy s =>
    b.poolSlot = some s ∧ b.slabIdx = none ∧ (p.slots s).offset = 0 ∧
      ∃ tag, (tag = .send ∨ tag = .tlsSend) ∧
        b.entry = ⟨⟨tag, c, UserData.sendPayload s (gen c)⟩, .send (.pool s 0) x.bytes.length⟩
  | .gather zc e _ =>
    zc = true ∧ b.slabIdx = some e ∧ b.entry = ⟨⟨.sendMsgZc, c, e⟩, .sendMsgZc e⟩

/-- The queue of each connection, and what is built for it, are its queued pieces in order. -/
def Que (p : SendCopyPool) (gen : Nat → Nat) (queue : Nat → List BuiltSend) (g : Ghost) : Prop :=
  ∀ c, List.Forall₂ (Queued p gen c) (queue c ++ g.built c) (g.que c)

theorem Queued.congr {b : BuiltSend} (h : Queued p gen c b x)
    (hs : ∀ s ∈ x.job.slots, p'.slots s = p.slots s) : Queued p' gen c b x := by
  obtain ⟨job, bytes, eos, bounded⟩ := x
  cases job with
  | copy s =>
    obtain ⟨hpool, hslab, hoff, hentry⟩ := h
    exact ⟨hpool, hslab, (hs s (mem_singleton_self s)).symm ▸ hoff, hentry⟩
  | gather zc e slots => exact h

/-! ## Places -/

/-- What a submission of the send side works on. -/
def Sqe.ref? (e : Sqe) : Option (Nat × Ref) :=
  match e.userData.tag with
  | .send | .tlsSend | .sendPollOut =>
    some (e.userData.connIndex, .slot (UserData.sendPayloadSlot e.userData.payload))
  | .sendMsgCoalesced | .sendMsgCoalescedPollOut =>
    some (e.userData.connIndex, .entry false (e.userData.payload % 65536))
  | .sendMsgZc => some (e.userData.connIndex, .entry true (e.userData.payload % 65536))
  | _ => none

/-- The kernel and the retry lists. -/
structure Places where
  kernel : List Sqe
  zc : List SlabRetry
  coalesced : List SlabRetry
  copy : List CopyRetry
  pollout : List PolloutRetry

def Worker.places (w : Worker) : Places where
  kernel := w.ring.kernel
  zc := w.pendingZcRetries
  coalesced := w.pendingCoalescedRetries
  copy := w.pendingCopyRetries
  pollout := w.pendingSendPolloutRetries

def SlabRetry.ref (zc : Bool) (e : SlabRetry) : Nat × Ref := (e.connIndex, .entry zc e.slabIdx)

def CopyRetry.ref (e : CopyRetry) : Nat × Ref := (e.connIndex, .slot e.poolSlot)

def PolloutRetry.ref (e : PolloutRetry) : Nat × Ref := (e.connIndex, .slot e.poolSlot)

/-- In how many places a piece is. -/
def Places.count (pl : Places) (x : Nat × Ref) : Nat :=
  (pl.kernel.filterMap Sqe.ref?).count x + (pl.zc.map (SlabRetry.ref true)).count x +
    (pl.coalesced.map (SlabRetry.ref false)).count x + (pl.copy.map CopyRetry.ref).count x +
    (pl.pollout.map PolloutRetry.ref).count x

/-- A submission of the send side says which connection and generation it is for, and covers
exactly what is left in its slot. -/
def SqeOk (p : SendCopyPool) (gen : Nat → Nat) (e : Sqe) : Prop :=
  match e.userData.tag with
  | .send | .tlsSend =>
    ∃ s, s < 65536 ∧ e.userData.payload = UserData.sendPayload s (gen e.userData.connIndex) ∧
      e.op = .send (.pool s (p.slots s).offset) (p.slots s).remaining
  | .sendPollOut =>
    ∃ s isTls, s < 65536 ∧
      e.userData.payload = UserData.sendPolloutPayload s isTls (gen e.userData.connIndex)
  | .sendMsgCoalesced => e.userData.payload < 65536 ∧ e.op = .sendMsg e.userData.payload
  | .sendMsgCoalescedPollOut => e.userData.payload < 65536
  | .sendMsgZc => e.userData.payload < 65536 ∧ e.op = .sendMsgZc e.userData.payload
  | _ => True

structure Loc (p : SendCopyPool) (gen : Nat → Nat) (pl : Places) (L : List (Nat × Ref))
    (act : Nat → Option Piece) : Prop where
  count : ∀ x, pl.count x + L.count x = if (act x.1).map (·.job.ref) = some x.2 then 1 else 0
  sqes : ∀ e ∈ pl.kernel, SqeOk p gen e
  zc : ∀ e ∈ pl.zc, e.generation = gen e.connIndex
  coalesced : ∀ e ∈ pl.coalesced, e.generation = gen e.connIndex
  copy : ∀ e ∈ pl.copy, e.generation = gen e.connIndex ∧ (e.tag = .send ∨ e.tag = .tlsSend)
  pollout : ∀ e ∈ pl.pollout, e.generation = gen e.connIndex

section Loc

variable {pl : Places} {L : List (Nat × Ref)} {act : Nat → Option Piece} {r : Ref}

/-- What is in some place is active. -/
theorem Loc.act_of_count (h : Loc p gen pl L act) (hc : 0 < pl.count (c, r) + L.count (c, r)) :
    ∃ x, act c = some x ∧ x.job.ref = r := by
  rw [h.count] at hc
  split at hc
  · rename_i heq
    obtain ⟨x, hx, hr⟩ := Option.map_eq_some_iff.mp heq
    exact ⟨x, hx, hr⟩
  · exact absurd hc (Nat.lt_irrefl 0)

theorem Loc.count_le_one (h : Loc p gen pl L act) (x : Nat × Ref) : pl.count x + L.count x ≤ 1 := by
  rw [h.count]
  split <;> omega

variable {e : Sqe}

theorem Places.count_pos_of_kernel (he : e ∈ pl.kernel) {x : Nat × Ref} (hr : e.ref? = some x) :
    0 < pl.count x := by
  have : 0 < (pl.kernel.filterMap Sqe.ref?).count x :=
    count_pos_iff.mpr (mem_filterMap.mpr ⟨e, he, hr⟩)
  rw [Places.count]
  omega

/-- A slot that the kernel works on is that of an active copy send. -/
theorem Loc.act_of_slot (h : Loc p gen pl L act) (he : e ∈ pl.kernel) {s : Nat}
    (href : e.ref? = some (c, .slot s)) : ∃ x, act c = some x ∧ x.job = .copy s := by
  obtain ⟨x, hx, hr⟩ := h.act_of_count (Nat.add_pos_left (Places.count_pos_of_kernel he href) _)
  exact ⟨x, hx, Job.eq_copy_of_ref hr⟩

/-- Nothing in the kernel works on a piece that has been taken out. -/
theorem Loc.not_in_kernel (h : Loc p gen pl ((c, r) :: L) act) (he : e ∈ pl.kernel) :
    e.ref? ≠ some (c, r) := by
  intro hr
  have hpos := Places.count_pos_of_kernel he hr
  have hle := h.count_le_one (c, r)
  rw [count_cons_self] at hle
  omega

/-- Slots that nothing in the kernel works on may change. -/
theorem Loc.congr_pool (h : Loc p gen pl L act)
    (hs : ∀ e ∈ pl.kernel, ∀ d s, e.ref? = some (d, .slot s) → p'.slots s = p.slots s) :
    Loc p' gen pl L act :=
  { h with
    sqes := fun e he => by
      have hok := h.sqes e he
      have hslot := hs e he e.userData.connIndex
      unfold SqeOk at hok ⊢
      unfold Sqe.ref? at hslot
      split at hok
      iterate 2
        · rename_i htag
          obtain ⟨s, hlt, hpay, hop⟩ := hok
          refine ⟨s, hlt, hpay, ?_⟩
          rw [hslot s (by simp [htag, hpay, UserData.sendPayloadSlot_sendPayload hlt])]
          exact hop
      all_goals exact hok }

/-- Take a submission out of the kernel. -/
theorem Loc.take (h : Loc p gen pl L act) (he : e ∈ pl.kernel) (hr : e.ref? = some (c, r)) :
    Loc p gen { pl with kernel := pl.kernel.erase e } ((c, r) :: L) act :=
  { h with
    count := fun x => by
      rw [← h.count x]
      have hperm := ((perm_cons_erase he).filterMap Sqe.ref?).count_eq x
      rw [filterMap_cons_some hr] at hperm
      simp only [Places.count, hperm, count_cons]
      omega
    sqes := fun e' he' => h.sqes e' (mem_of_mem_erase he') }

theorem count_snoc {α : Type} (f : α → Nat × Ref) (l : List α) (a : α) (x : Nat × Ref) :
    ((l ++ [a]).map f).count x = (l.map f).count x + [f a].count x := by
  rw [map_append, count_append, map_singleton]

theorem forall_mem_snoc {α : Type} {P : α → Prop} {l : List α} {a : α} (h : ∀ x ∈ l, P x)
    (ha : P a) : ∀ x ∈ l ++ [a], P x :=
  forall_mem_append.mpr ⟨h, forall_mem_singleton.mpr ha⟩

section

variable (h : Loc p gen pl ((c, r) :: L) act)

include h

/-- Hand a piece that was taken out to the kernel. -/
theorem Loc.push (hok : SqeOk p gen e) (hr : e.ref? = some (c, r)) :
    Loc p gen { pl with kernel := pl.kernel ++ [e] } L act :=
  { h with
    count := fun x => by
      rw [← h.count x]
      simp only [Places.count, filterMap_append, filterMap_cons_some hr,
        filterMap_nil, count_append, count_cons, count_nil]
      omega
    sqes := forall_mem_snoc h.sqes hok }

theorem Loc.pushCopyRetry {e : CopyRetry} (hr : e.ref = (c, r))
    (hgen : e.generation = gen e.connIndex) (htag : e.tag = .send ∨ e.tag = .tlsSend) :
    Loc p gen { pl with copy := pl.copy ++ [e] } L act :=
  { h with
    count := fun x => by
      rw [← h.count x]
      simp only [Places.count, count_snoc, hr, count_cons, count_nil]
      omega
    copy := forall_mem_snoc h.copy ⟨hgen, htag⟩ }

theorem Loc.pushPolloutRetry {e : PolloutRetry} (hr : e.ref = (c, r))
    (hgen : e.generation = gen e.connIndex) :
    Loc p gen { pl with pollout := pl.pollout ++ [e] } L act :=
  { h with
    count := fun x => by
      rw [← h.count x]
      simp only [Places.count, count_snoc, hr, count_cons, count_nil]
      omega
    pollout := forall_mem_snoc h.pollout hgen }

theorem Loc.pushZcRetry {e : SlabRetry} (hr : e.ref true = (c, r))
    (hgen : e.generation = gen e.connIndex) : Loc p gen { pl with zc := pl.zc ++ [e] } L act :=
  { h with
    count := fun x => by
      rw [← h.count x]
      simp only [Places.count, count_snoc, hr, count_cons, count_nil]
      omega
    zc := forall_mem_snoc h.zc hgen }

theorem Loc.pushCoalescedRetry {e : SlabRetry} (hr : e.ref false = (c, r))
    (hgen : e.generation = gen e.connIndex) :
    Loc p gen { pl with coalesced := pl.coalesced ++ [e] } L act :=
  { h with
    count := fun x => by
      rw [← h.count x]
      simp only [Places.count, count_snoc, hr, count_cons, count_nil]
      omega
    coalesced := forall_mem_snoc h.coalesced hgen }

end

section

variable (h : Loc p gen pl L act)

include h

/-- Take everything off one of the retry lists. -/
theorem Loc.takeList {pl' : Places} {l : List (Nat × Ref)}
    (hl : ∀ x, pl'.count x + l.count x = pl.count x) (x : Nat × Ref) :
    pl'.count x + (l ++ L).count x = if (act x.1).map (·.job.ref) = some x.2 then 1 else 0 := by
  rw [← h.count x, ← hl x, count_append, Nat.add_assoc]

theorem Loc.takeZc : Loc p gen { pl with zc := [] } (pl.zc.map (SlabRetry.ref true) ++ L) act :=
  { h with count := h.takeList fun x => by simp [Places.count]; omega, zc := nofun }

theorem Loc.takeCoalesced :
    Loc p gen { pl with coalesced := [] } (pl.coalesced.map (SlabRetry.ref false) ++ L) act :=
  { h with count := h.takeList fun x => by simp [Places.count]; omega, coalesced := nofun }

theorem Loc.takeCopy : Loc p gen { pl with copy := [] } (pl.copy.map CopyRetry.ref ++ L) act :=
  { h with count := h.takeList fun x => by simp [Places.count]; omega, copy := nofun }

theorem Loc.takePollout :
    Loc p gen { pl with pollout := [] } (pl.pollout.map PolloutRetry.ref ++ L) act :=
  { h with count := h.takeList fun x => by simp [Places.count], pollout := nofun }

/-- The active piece of `c` changes to one that is found in the same place. -/
theorem Loc.replace {y : Piece} (hx : act c = some x) (hr : y.job.ref = x.job.ref) :
    Loc p gen pl L (update act c (some y)) :=
  { h with
    count := fun z => by
      rw [h.count]
      rcases eq_or_ne z.1 c with hz | hz
      · rw [hz, update_self, hx, Option.map_some, Option.map_some, hr]
      · rw [update_of_ne hz] }

end

/-- The active piece of `c`, taken out of its place, is finished. -/
theorem Loc.clear (h : Loc p gen pl ((c, r) :: L) act) (hx : act c = some x)
    (hr : x.job.ref = r) : Loc p gen pl L (update act c none) :=
  { h with
    count := by
      rintro ⟨d, q⟩
      have hcount := h.count (d, q)
      rw [count_cons] at hcount
      rcases eq_or_ne d c with rfl | hd
      · by_cases hq : r = q <;> simp [hx, hr, hq] at hcount ⊢ <;> omega
      · simpa [update_of_ne hd, hd.symm] using hcount }

/-- An idle connection gets an active piece, which is still to be put somewhere. -/
theorem Loc.activate (h : Loc p gen pl L act) (hc : act c = none) (x : Piece) :
    Loc p gen pl ((c, x.job.ref) :: L) (update act c (some x)) :=
  { h with
    count := by
      rintro ⟨d, q⟩
      have hcount := h.count (d, q)
      rw [count_cons]
      rcases eq_or_ne d c with rfl | hd
      · by_cases hq : x.job.ref = q <;> simp [hc, hq] at hcount ⊢ <;> omega
      · simpa [update_of_ne hd, hd.symm] using hcount }

end Loc

/-! ## The invariant -/

/-- No connection is closing, half-closing or driven by a chain, and only active ones have sends. -/
structure Quiet (conns : Nat → ConnectionState) (sq : Nat → ConnSendState)
    (chains : Nat → Option ChainState) (g : Ghost) : Prop where
  closePending : ∀ c, (sq c).closePending = false
  closeSubmitted : ∀ c, (sq c).closeSubmitted = false
  chain : ∀ c, chains c = none
  write : ∀ c, (conns c).write = .open
  active : ∀ c, g.pieces c ≠ [] → (conns c).active = true

structure Core (w : Worker) (g : Ghost) (L : List (Nat × Ref)) : Prop where
  res : Res w.sendCopyPool w.sendSlab w.providedBufs w.generation g
  que : Que w.sendCopyPool w.generation (fun c => (w.sendQueues c).queue) g
  loc : Loc w.sendCopyPool w.generation w.places L g.act
  quiet : Quiet w.connections w.sendQueues w.chains g

/-- The two flags of a send queue say what is going on: something is in flight while there is
anything left, and the queue is parked when nothing of it is active. -/
structure Flags (s : ConnSendState) (act : Option Piece) : Prop where
  inFlight : s.inFlight = (act.isSome || !s.queue.isEmpty)
  parked : s.parked = (act.isNone && !s.queue.isEmpty)

/-- What holds between two steps of a handler, with `L` taken out of its place. -/
structure Live (w : Worker) (g : Ghost) (L : List (Nat × Ref)) : Prop where
  core : Core w g L
  flags : ∀ c, Flags (w.sendQueues c) (g.act c)

end Ringline.Uring
