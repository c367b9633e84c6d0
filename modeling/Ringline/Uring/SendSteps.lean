import Ringline.Uring.SendInvariant

/-!
# What the send side does to its pieces

The invariant `Live` is carried through the operations the handlers are built from:

* a submission is pushed, or put on a retry list (`Live.resubmitCopy` and its siblings);
* an active piece loses its first bytes (`Core.adjust`) or is finished (`Core.retire`);
* the next queued piece becomes active, alone or merged with its successors
  (`Hole.submitNextQueuedInner`);
* a new piece is staged (`Core.stage`) and handed to the queue (`Live.submitOrQueue`).

`Hole w g L c` is the state in the middle of a completion: the active piece of `c` is gone, and
what comes next is still to be decided.
-/

set_option autoImplicit false

namespace Ringline.Uring

open List Function InFlightSendSlab Ghost InFlightSendSlab.Wf

variable {e n s : Nat} {p : SendCopyPool} {sl : InFlightSendSlab} {ss : List Nat}
  {prov : Nat → List UInt8}

theorem Worker.push_cases (w : Worker) (e : Sqe) :
    (∃ room, w.push e = (true, { w with ring := ⟨w.ring.kernel ++ [e], room⟩ })) ∨
      ∃ room, w.push e = (false, { w with ring := ⟨w.ring.kernel, room⟩ }) := by
  rcases hroom : w.ring.room with _ | ⟨_ | _, rest⟩
  · exact .inl ⟨[], by simp [Worker.push, Ring.pushSqe, hroom]⟩
  · exact .inr ⟨rest, by simp [Worker.push, Ring.pushSqe, hroom]⟩
  · exact .inl ⟨rest, by simp [Worker.push, Ring.pushSqe, hroom]⟩

variable {w w' : Worker} {g : Ghost} {L L' : List (Nat × Ref)} {c : Nat} {r : Ref}

/-- The active piece of `c` has gone, and the queue has still to be looked at. -/
structure Hole (w : Worker) (g : Ghost) (L : List (Nat × Ref)) (c : Nat) : Prop where
  core : Core w g L
  idle : g.act c = none
  inFlight : (w.sendQueues c).inFlight = true
  flags : ∀ d, d ≠ c → Flags (w.sendQueues d) (g.act d)

/-! ## Carrying the invariant over -/

/-- What `Core` looks at besides the send queues is the same. -/
structure Alike (w w' : Worker) : Prop where
  pool : w'.sendCopyPool = w.sendCopyPool := by rfl
  slab : w'.sendSlab = w.sendSlab := by rfl
  prov : w'.providedBufs = w.providedBufs := by rfl
  conns : w'.connections = w.connections := by rfl
  chains : w'.chains = w.chains := by rfl
  places : w'.places = w.places := by rfl

/-- Of each send queue `Core` looks at its entries and its closing state. -/
theorem Core.congr (h : Core w g L) (ha : Alike w w')
    (hq : ∀ d, (w'.sendQueues d).queue = (w.sendQueues d).queue ∧
      (w'.sendQueues d).closePending = (w.sendQueues d).closePending ∧
      (w'.sendQueues d).closeSubmitted = (w.sendQueues d).closeSubmitted) : Core w' g L := by
  have hgen : w'.generation = w.generation := by
    funext d
    rw [Worker.generation, Worker.generation, ha.conns]
  have hqueue : (fun d => (w'.sendQueues d).queue) = fun d => (w.sendQueues d).queue :=
    funext fun d => (hq d).1
  constructor
  · rw [ha.pool, ha.slab, ha.prov, hgen]
    exact h.res
  · rw [ha.pool, hgen, hqueue]
    exact h.que
  · rw [ha.pool, hgen, ha.places]
    exact h.loc
  · rw [ha.conns, ha.chains]
    exact ⟨fun d => (hq d).2.1.trans (h.quiet.closePending d),
      fun d => (hq d).2.2.trans (h.quiet.closeSubmitted d), h.quiet.chain, h.quiet.write,
      h.quiet.active⟩

theorem Core.congr_queues (h : Core w g L) (ha : Alike w w') (hq : w'.sendQueues = w.sendQueues) :
    Core w' g L :=
  h.congr ha fun d => by
    rw [hq]
    exact ⟨rfl, rfl, rfl⟩

theorem Live.congr (h : Live w g L) (ha : Alike w w') (hq : w'.sendQueues = w.sendQueues) :
    Live w' g L :=
  ⟨h.core.congr_queues ha hq, hq ▸ h.flags⟩

theorem Hole.congr (h : Hole w g L c) (ha : Alike w w') (hq : w'.sendQueues = w.sendQueues) :
    Hole w' g L c :=
  ⟨h.core.congr_queues ha hq, h.idle, hq ▸ h.inFlight, hq ▸ h.flags⟩

/-- Only the ring and the retry lists changed. -/
theorem Core.moved (h : Core w g L) (ring : Ring) (zc co : List SlabRetry) (cp : List CopyRetry)
    (po : List PolloutRetry)
    (hloc : Loc w.sendCopyPool w.generation ⟨ring.kernel, zc, co, cp, po⟩ L' g.act) :
    Core { w with
      ring := ring, pendingZcRetries := zc, pendingCoalescedRetries := co
      pendingCopyRetries := cp, pendingSendPolloutRetries := po } g L' :=
  ⟨h.res, h.que, hloc, h.quiet⟩

theorem Live.wakeSend (h : Live w g L) (d : Nat) (result : IoResult) :
    Live (w.wakeSend d result) g L := by
  unfold Worker.wakeSend
  split
  · exact h.congr {} rfl
  · exact h

theorem Live.settleCarried (h : Live w g L) (bounded : Option (BoundedSendId × Nat))
    (result : Nat → IoResult) : Live (w.settleCarried bounded result) g L := by
  unfold Worker.settleCarried
  split
  · exact h.congr {} rfl
  · exact h

/-- The byte count of the logical send in progress is not part of the invariant. -/
theorem Core.setAcked (h : Core w g L) (d : Nat) (f : Nat → Nat) :
    Core (w.modifySends d fun s => { s with ackedBytes := f s.ackedBytes }) g L := by
  refine h.congr {} fun d' => ?_
  rcases eq_or_ne d' d with rfl | hd
  · simp [Worker.modifySends]
  · simp [Worker.modifySends, update_of_ne hd]

theorem Live.setAcked (h : Live w g L) (d : Nat) (f : Nat → Nat) :
    Live (w.modifySends d fun s => { s with ackedBytes := f s.ackedBytes }) g L := by
  refine ⟨h.core.setAcked d f, fun d' => ?_⟩
  rcases eq_or_ne d' d with rfl | hd
  · simpa [Worker.modifySends] using ⟨(h.flags d').inFlight, (h.flags d').parked⟩
  · simpa [Worker.modifySends, update_of_ne hd] using h.flags d'

/-- What has been said about bounded sends so far: to their owners, and to the event loop. -/
def Worker.books (w : Worker) :
    List (BoundedSendId × IoResult) × List (BoundedSendId × IoResult) :=
  (w.settled, w.boundedSendCompletions)

/-- Pieces have moved from one place to another, and nothing else has happened. -/
structure Moved (w : Worker) (g : Ghost) (L : List (Nat × Ref)) (w' : Worker) : Prop where
  live : Live w' g L
  books : w'.books = w.books
  generation : w'.generation = w.generation

theorem Live.moved (h : Live w g L) (ring : Ring) (zc co : List SlabRetry) (cp : List CopyRetry)
    (po : List PolloutRetry)
    (hloc : Loc w.sendCopyPool w.generation ⟨ring.kernel, zc, co, cp, po⟩ L' g.act) :
    Moved w g L' { w with
      ring := ring, pendingZcRetries := zc, pendingCoalescedRetries := co
      pendingCopyRetries := cp, pendingSendPolloutRetries := po } :=
  ⟨⟨h.core.moved ring zc co cp po hloc, h.flags⟩, rfl, rfl⟩

/-! ## Submitting an active piece again -/

theorem Core.slot_lt (h : Core w g L) (hs : s < w.sendCopyPool.count) : s < 65536 := by
  have := h.res.count_le
  omega

theorem Core.entry_lt (h : Core w g L) (he : e < w.sendSlab.capacity) : e < 65536 := by
  have := h.res.capacity_le
  omega

/-- The kernel takes a piece that was taken out. -/
theorem Core.pushed (h : Core w g ((c, r) :: L)) {e : Sqe}
    (hok : SqeOk w.sendCopyPool w.generation e) (href : e.ref? = some (c, r)) (room : List Bool) :
    Core { w with ring := ⟨w.ring.kernel ++ [e], room⟩ } g L :=
  h.moved _ _ _ _ _ (h.loc.push hok href)

/-- A submission is pushed, or something else is done if the ring has no room for it. -/
def Worker.pushOr (w : Worker) (e : Sqe) (refused : Worker → Worker) : Worker :=
  match w.push e with
  | (true, w) => w
  | (false, w) => refused w

/-- A piece that was taken out is pushed, or goes where `refused` puts it. -/
theorem Live.push (h : Live w g ((c, r) :: L)) {e : Sqe}
    (hok : SqeOk w.sendCopyPool w.generation e) (href : e.ref? = some (c, r))
    {refused : Worker → Worker}
    (hrefused : ∀ room, Moved w g L (refused { w with ring := ⟨w.ring.kernel, room⟩ })) :
    Moved w g L (w.pushOr e refused) := by
  rw [Worker.pushOr]
  rcases w.push_cases e with ⟨room, hr⟩ | ⟨room, hr⟩
  · rw [hr]
    exact ⟨⟨h.core.pushed hok href room, h.flags⟩, rfl, rfl⟩
  · rw [hr]
    exact hrefused room

/-- The submission of a copy send, on the path of `tag`, for what is left in slot `s`. -/
def copySqe (p : SendCopyPool) (tag : OpTag) (c generation s : Nat) : Sqe :=
  ⟨⟨tag, c, UserData.sendPayload s generation⟩,
    .send (.pool s (p.slots s).offset) (p.slots s).remaining⟩

variable {tag : OpTag} {gen : Nat → Nat} {zc : Bool} {iovecs : List Iovec} {notifs : UInt8}

theorem sqeOk_copySqe (p : SendCopyPool) (gen : Nat → Nat) (c : Nat)
    (htag : tag = .send ∨ tag = .tlsSend) (hs : s < 65536) :
    SqeOk p gen (copySqe p tag c (gen c) s) ∧
      (copySqe p tag c (gen c) s).ref? = some (c, .slot s) := by
  rcases htag with rfl | rfl
  all_goals
    refine ⟨⟨s, hs, rfl, rfl⟩, ?_⟩
    simp only [copySqe, Sqe.ref?, UserData.sendPayloadSlot_sendPayload hs]

theorem submitCopyTagged_eq (htag : tag = .send ∨ tag = .tlsSend) (generation : Nat) :
    w.submitCopyTagged tag c generation (.pool s (w.sendCopyPool.slots s).offset)
      (w.sendCopyPool.slots s).remaining s =
      w.push (copySqe w.sendCopyPool tag c generation s) := by
  rcases htag with rfl | rfl <;> rfl

theorem Live.resubmitCopy (h : Live w g ((c, .slot s) :: L)) (htag : tag = .send ∨ tag = .tlsSend)
    (hs : s < w.sendCopyPool.count) :
    Moved w g L (w.resubmitCopy tag c (.pool s (w.sendCopyPool.slots s).offset)
      (w.sendCopyPool.slots s).remaining s) := by
  obtain ⟨hok, href⟩ :=
    sqeOk_copySqe w.sendCopyPool w.generation c htag (h.core.slot_lt hs)
  rw [Worker.resubmitCopy, submitCopyTagged_eq htag]
  exact h.push hok href fun _ => h.moved _ _ _ _ _ (h.core.loc.pushCopyRetry rfl rfl htag)

theorem sqeOk_pollout (p : SendCopyPool) (gen : Nat → Nat) (c : Nat) (isTls : Bool) (hs : s <
    65536) :
    SqeOk p gen ⟨⟨.sendPollOut, c, UserData.sendPolloutPayload s isTls (gen c)⟩, .pollAdd⟩ ∧
      Sqe.ref? ⟨⟨.sendPollOut, c, UserData.sendPolloutPayload s isTls (gen c)⟩, .pollAdd⟩ =
        some (c, .slot s) := by
  refine ⟨⟨s, isTls, hs, rfl⟩, ?_⟩
  simp only [Sqe.ref?, UserData.sendPayloadSlot_sendPolloutPayload hs]

theorem Live.armSendPollout (h : Live w g ((c, .slot s) :: L)) (isTls : Bool)
    (hs : s < w.sendCopyPool.count) : Moved w g L (w.armSendPollout c s isTls) := by
  obtain ⟨hok, href⟩ :=
    sqeOk_pollout w.sendCopyPool w.generation c isTls (h.core.slot_lt hs)
  exact h.push hok href fun _ => h.moved _ _ _ _ _ (h.core.loc.pushPolloutRetry rfl rfl)

/-- The submissions that name a slab entry. -/
theorem sqeOk_entry (p : SendCopyPool) (gen : Nat → Nat) (c : Nat) (he : e < 65536) :
    (SqeOk p gen ⟨⟨.sendMsgCoalesced, c, e⟩, .sendMsg e⟩ ∧
      Sqe.ref? ⟨⟨.sendMsgCoalesced, c, e⟩, .sendMsg e⟩ = some (c, .entry false e)) ∧
    (SqeOk p gen ⟨⟨.sendMsgCoalescedPollOut, c, e⟩, .pollAdd⟩ ∧
      Sqe.ref? ⟨⟨.sendMsgCoalescedPollOut, c, e⟩, .pollAdd⟩ = some (c, .entry false e)) ∧
    (SqeOk p gen ⟨⟨.sendMsgZc, c, e⟩, .sendMsgZc e⟩ ∧
      Sqe.ref? ⟨⟨.sendMsgZc, c, e⟩, .sendMsgZc e⟩ = some (c, .entry true e)) := by
  have hmod : e % 65536 = e := Nat.mod_eq_of_lt he
  refine ⟨⟨⟨he, rfl⟩, ?_⟩, ⟨he, ?_⟩, ⟨he, rfl⟩, ?_⟩ <;> simp only [Sqe.ref?, hmod]

theorem Live.resubmitCoalesced (h : Live w g ((c, .entry false e) :: L))
    (he : e < w.sendSlab.capacity) : Moved w g L (w.resubmitCoalesced c e) := by
  obtain ⟨⟨hok, href⟩, -, -⟩ := sqeOk_entry w.sendCopyPool w.generation c (h.core.entry_lt he)
  exact h.push hok href fun _ => h.moved _ _ _ _ _ (h.core.loc.pushCoalescedRetry rfl rfl)

/-! ## Changing the active piece -/

section Res

variable {p' : SendCopyPool} {sl' : InFlightSendSlab} {prov : Nat → List UInt8} {x y : Piece} {d : Nat}

theorem Ghost.mem_pieces_act (hx : g.act c = some x) : x ∈ g.pieces c := by
  rw [pieces, hx]
  exact mem_cons_self ..

theorem Ghost.mem_pieces_que (hx : x ∈ g.que c) : x ∈ g.pieces c := mem_append_right _ hx

/-- What is queued lies in other slots than what is active. -/
theorem Res.notMem_slots_act (h : Res p sl prov gen g) (hx : g.act c = some x)
    (hy : y ∈ g.que d) (hs : s ∈ y.job.slots) : s ∉ x.job.slots := by
  intro hsx
  have hd := (h.own d).slotOwner y (mem_pieces_que hy) s hs
  rw [(h.own c).slotOwner x (mem_pieces_act hx) s hsx] at hd
  obtain rfl : c = d := Owner.conn.inj hd
  have hnodup := (h.own c).slots
  rw [pieces, hx] at hnodup
  exact disjoint_of_nodup_append hnodup hsx (mem_flatMap.mpr ⟨y, hy, hs⟩)

theorem Res.notMem_entries_act (h : Res p sl prov gen g) (hx : g.act c = some x)
    (hy : y ∈ g.que d) (he : e ∈ y.job.entries) : e ∉ x.job.entries := by
  intro hex
  have hd := (h.own d).entryOwner y (mem_pieces_que hy) e he
  rw [(h.own c).entryOwner x (mem_pieces_act hx) e hex] at hd
  obtain rfl : c = d := Owner.conn.inj hd
  have hnodup := (h.own c).entries
  rw [pieces, hx] at hnodup
  exact disjoint_of_nodup_append hnodup hex (mem_flatMap.mpr ⟨y, hy, he⟩)

/-- The active piece of `c` becomes `y`, which uses the same slots and entries, or is gone.  What it
leaves behind may go to other owners. -/
theorem Res.setAct (h : Res p sl prov gen g) (hx : g.act c = some x) {y : Option Piece}
    {so eo : Nat → Owner} (hpool : p'.Wf) (hslab : sl'.Wf) (hcount : p'.count = p.count)
    (hcap : sl'.capacity = sl.capacity)
    (hslot : ∀ s, s ∉ x.job.slots → p'.slots s = p.slots s ∧ so s = g.slotOwner s)
    (hentry : ∀ e, e ∉ x.job.entries → sl'.entries e = sl.entries e ∧ eo e = g.entryOwner e)
    (hy : ∀ z ∈ y, z.job = x.job ∧ Holds p' sl' prov gen c z ∧ z.Wf ∧
      (∀ s ∈ x.job.slots, so s = .conn c) ∧ ∀ e ∈ x.job.entries, eo e = .conn c)
    (hzombie : ∀ e ∈ x.job.entries, (sl'.entries e).inUse = true →
      (sl'.entries e).awaitingNotifications = true →
      Zombie p' sl' { g with act := Function.update g.act c y, slotOwner := so, entryOwner := eo }
        e) :
    Res p' sl' prov gen
      { g with act := Function.update g.act c y, slotOwner := so, entryOwner := eo } := by
  have hmem := mem_pieces_act hx
  have hold := h.own c
  have hpieces : g.pieces c = x :: g.que c := by rw [pieces, hx]; rfl
  refine h.update (.conn c) hpool hslab hcount hcap ?_ ?_ ?_ ?_ ?_
  · intro d hd
    simp only [pieces, Function.update_of_ne fun hdc => hd (congrArg Owner.conn hdc)]
  · intro s _ hs
    exact hslot s fun hsx => hs (hold.slotOwner x hmem s hsx)
  · intro e _ he
    exact hentry e fun hex => he (hold.entryOwner x hmem e hex)
  · intro d hd
    obtain rfl : d = c := Owner.conn.inj hd
    -- The queued pieces are in other slots and entries, so nothing happens to them.
    have hque : ∀ z ∈ g.que d, (Holds p' sl' prov gen d z ∧ z.Wf) ∧
        (∀ s ∈ z.job.slots, so s = .conn d) ∧ ∀ e ∈ z.job.entries, eo e = .conn d := by
      intro z hz
      have hzmem := mem_pieces_que hz
      have hs := fun s hs => hslot s (h.notMem_slots_act hx hz hs)
      have he := fun e he => hentry e (h.notMem_entries_act hx hz he)
      refine ⟨⟨(hold.holds z hzmem).1.congr hcount hcap (fun s hm => (hs s hm).1)
        fun e hm => congrArg _ (he e hm).1, (hold.holds z hzmem).2⟩, fun s hm => ?_, fun e hm => ?_⟩
      · rw [(hs s hm).2]
        exact hold.slotOwner z hzmem s hm
      · rw [(he e hm).2]
        exact hold.entryOwner z hzmem e hm
    have hact : ∀ z, y = some z → (Holds p' sl' prov gen d z ∧ z.Wf) ∧
        (∀ s ∈ z.job.slots, so s = .conn d) ∧ ∀ e ∈ z.job.entries, eo e = .conn d := by
      intro z hz
      obtain ⟨hjob, hholds, hwf, hso, heo⟩ := hy z hz
      rw [hjob]
      exact ⟨⟨hholds, hwf⟩, hso, heo⟩
    have hall : ∀ z ∈ y.toList ++ g.que d, (Holds p' sl' prov gen d z ∧ z.Wf) ∧
        (∀ s ∈ z.job.slots, so s = .conn d) ∧ ∀ e ∈ z.job.entries, eo e = .conn d := by
      intro z hz
      rcases mem_append.mp hz with hz | hz
      · exact hact z (Option.mem_toList.mp hz)
      · exact hque z hz
    have hslots := hold.slots
    have hentries := hold.entries
    rw [hpieces, flatMap_cons] at hslots hentries
    constructor
    · simpa [pieces] using fun z hz => (hall z hz).1
    · rcases y with _ | z
      · simpa [pieces] using (nodup_append.mp hslots).2.1
      · simpa [pieces, flatMap_cons, (hy z rfl).1] using hslots
    · simpa [pieces] using fun z hz => (hall z hz).2.1
    · rcases y with _ | z
      · simpa [pieces] using (nodup_append.mp hentries).2.1
      · simpa [pieces, flatMap_cons, (hy z rfl).1] using hentries
    · simpa [pieces] using fun z hz => (hall z hz).2.2
  · intro e ho hin haw
    by_cases he : e ∈ x.job.entries
    · exact hzombie e he hin haw
    rw [(hentry e he).1] at hin haw
    have howner := (h.zombie e hin haw).owner
    rcases ho with ho | ho
    · rw [howner] at ho
      cases ho
    · rw [hin] at ho
      cases ho

end Res

theorem forall₂_queued_congr {p' : SendCopyPool} {l : List BuiltSend} {m : List Piece}
    (h : List.Forall₂ (Queued p gen c) l m)
    (hs : ∀ y ∈ m, ∀ s ∈ y.job.slots, p'.slots s = p.slots s) :
    List.Forall₂ (Queued p' gen c) l m := by
  induction h with
  | nil => exact .nil
  | cons hq _ ih =>
    exact .cons (hq.congr (hs _ (mem_cons_self ..)))
      (ih fun y hy => hs y (mem_cons_of_mem _ hy))

variable {x : Piece}

section

variable (h : Core w g ((c, x.job.ref) :: L)) (hx : g.act c = some x)

include h hx

/-- Nothing in the kernel works on the slots of a piece that was taken out. -/
theorem Core.notMem_slots_of_kernel {e : Sqe} (he : e ∈ w.ring.kernel) {d : Nat}
    (href : e.ref? = some (d, .slot s)) : s ∉ x.job.slots := by
  intro hs
  obtain ⟨z, hz, hjob⟩ := h.loc.act_of_slot he href
  have hd := (h.res.own d).slotOwner _ (mem_pieces_act hz) s
    (by rw [hjob]; exact mem_singleton_self s)
  rw [(h.res.own c).slotOwner x (mem_pieces_act hx) s hs] at hd
  obtain rfl : c = d := Owner.conn.inj hd
  rw [hx] at hz
  obtain rfl := Option.some_inj.mp hz
  refine h.loc.not_in_kernel he ?_
  rw [href, hjob]
  rfl

/-- The part of `Core` about the pool and the slab changes with the active piece. -/
theorem Core.setAct {y : Option Piece} {so eo : Nat → Owner}
    (hres : Res p sl w.providedBufs w.generation
      { g with act := update g.act c y, slotOwner := so, entryOwner := eo })
    (hslot : ∀ s, s ∉ x.job.slots → p.slots s = w.sendCopyPool.slots s)
    (hloc : Loc w.sendCopyPool w.generation w.places L' (update g.act c y)) :
    Core { w with sendCopyPool := p, sendSlab := sl }
      { g with act := update g.act c y, slotOwner := so, entryOwner := eo } L' where
  res := hres
  que := fun d => forall₂_queued_congr (h.que d) fun y hy s hs =>
    hslot s (h.res.notMem_slots_act hx hy hs)
  loc := hloc.congr_pool fun e he d s href => hslot s (h.notMem_slots_of_kernel hx he href)
  quiet := { h.quiet with
    active := fun d hd => by
      rcases eq_or_ne d c with rfl | hdc
      · refine h.quiet.active d ?_
        rw [pieces, hx]
        exact cons_ne_nil _ _
      · refine h.quiet.active d ?_
        simpa only [pieces, update_of_ne hdc] using hd }

/-- **Progress.**  The active piece of `c`, which was taken out of its place, becomes `y`. -/
theorem Core.adjust {y : Piece} (hpool : p.Wf) (hslab : sl.Wf)
    (hcount : p.count = w.sendCopyPool.count) (hcap : sl.capacity = w.sendSlab.capacity)
    (hslot : ∀ s, s ∉ x.job.slots → p.slots s = w.sendCopyPool.slots s)
    (hentry : ∀ e, e ∉ x.job.entries → sl.entries e = w.sendSlab.entries e) (hjob : y.job = x.job)
    (hholds : Holds p sl w.providedBufs w.generation c y) (hwf : y.Wf) :
    Core { w with sendCopyPool := p, sendSlab := sl }
      { g with act := update g.act c (some y) } ((c, x.job.ref) :: L) := by
  have hmem := mem_pieces_act hx
  refine h.setAct hx ?_ hslot (h.loc.replace hx (congrArg Job.ref hjob))
  refine h.res.setAct hx hpool hslab hcount hcap (fun s hs => ⟨hslot s hs, rfl⟩)
    (fun e he => ⟨hentry e he, rfl⟩) ?_ ?_
  · intro z hz
    obtain rfl := Option.some_inj.mp hz
    exact ⟨hjob, hholds, hwf, (h.res.own c).slotOwner x hmem, (h.res.own c).entryOwner x hmem⟩
  · intro e he hin haw
    rw [← hjob] at he
    rw [(hholds.entry_inUse he).2.2] at haw
    cases haw

/-- **Completion.**  The active piece of `c`, which was taken out of its place, is gone. -/
theorem Core.retire (so eo : Nat → Owner) (hpool : p.Wf) (hslab : sl.Wf)
    (hcount : p.count = w.sendCopyPool.count) (hcap : sl.capacity = w.sendSlab.capacity)
    (hslot : ∀ s, s ∉ x.job.slots → p.slots s = w.sendCopyPool.slots s ∧ so s = g.slotOwner s)
    (hentry : ∀ e, e ∉ x.job.entries → sl.entries e = w.sendSlab.entries e ∧ eo e = g.entryOwner e)
    (hzombie : ∀ e ∈ x.job.entries, (sl.entries e).inUse = true →
      (sl.entries e).awaitingNotifications = true →
        Zombie p sl { g with act := update g.act c none, slotOwner := so, entryOwner := eo } e) :
    Core { w with sendCopyPool := p, sendSlab := sl }
      { g with act := Function.update g.act c none, slotOwner := so, entryOwner := eo } L :=
  h.setAct hx (h.res.setAct hx hpool hslab hcount hcap hslot hentry (fun _ hz => by cases hz) hzombie)
    (fun s hs => (hslot s hs).1) (h.loc.clear hx rfl)

end

theorem Live.adjust (h : Live w g ((c, x.job.ref) :: L)) (hx : g.act c = some x) {y : Piece}
    (hcore : Core { w with sendCopyPool := p, sendSlab := sl }
      { g with act := update g.act c (some y) } ((c, x.job.ref) :: L)) :
    Live { w with sendCopyPool := p, sendSlab := sl }
      { g with act := update g.act c (some y) } ((c, x.job.ref) :: L) := by
  refine ⟨hcore, fun d => ?_⟩
  rcases eq_or_ne d c with rfl | hd
  · have hflags := h.flags d
    rw [hx] at hflags
    simpa only [update_self] using ⟨hflags.inFlight, hflags.parked⟩
  · simpa only [update_of_ne hd] using h.flags d

theorem Live.hole (h : Live w g ((c, x.job.ref) :: L)) (hx : g.act c = some x) {so eo : Nat → Owner}
    (hcore : Core { w with sendCopyPool := p, sendSlab := sl }
      { g with act := update g.act c none, slotOwner := so, entryOwner := eo } L) :
    Hole { w with sendCopyPool := p, sendSlab := sl }
      { g with act := update g.act c none, slotOwner := so, entryOwner := eo } L c where
  core := hcore
  idle := update_self ..
  inFlight := by
    rw [(h.flags c).inFlight, hx]
    rfl
  flags d hd := by simpa only [update_of_ne hd] using h.flags d

theorem Core.holds_act (h : Core w g L) (hx : g.act c = some x) :
    Holds w.sendCopyPool w.sendSlab w.providedBufs w.generation c x ∧ x.Wf :=
  (h.res.own c).holds x (mem_pieces_act hx)

/-! ### Copy sends -/

theorem Core.holdsCopy (h : Core w g L) (hx : g.act c = some x) (hjob : x.job = .copy s) :
    HoldsCopy w.sendCopyPool s x ∧ x.Wf :=
  (h.holds_act hx).imp_left (holds_copy_iff hjob).mp

theorem HoldsCopy.advance (h : HoldsCopy p s x) (hn : n < x.bytes.length) :
    ∃ q, p.tryAdvance s n = some (q, .pool s (q.slots s).offset, (q.slots s).remaining) ∧
      (∃ rec, q = p.setSlot s rec) ∧
      HoldsCopy q s { x with bytes := x.bytes.drop n } := by
  have hrem : (p.slots s).remaining - n ≠ 0 := by
    rw [h.remaining]
    omega
  refine ⟨p.setSlot s
    { p.slots s with
      offset := (p.slots s).offset + n, remaining := (p.slots s).remaining - n }, ?_, ⟨_, rfl⟩, ?_⟩
  · simp only [SendCopyPool.tryAdvance, if_neg hrem, SendCopyPool.setSlot_slots,
      update_self]
  · refine ⟨h.lt, ?_, ?_, ?_, ?_, ?_⟩ <;>
      simp only [SendCopyPool.setSlot_slots, update_self]
    · exact h.inUse
    · rw [← h.span]
      simp [SendCopyPool.span, drop_take, drop_drop]
    · rw [h.remaining, length_drop]
    · exact h.eos
    · exact h.bounded

theorem HoldsCopy.advance_eq_none (h : HoldsCopy p s x) (hn : x.bytes.length ≤ n) :
    p.tryAdvance s n = none := by
  have hrem : (p.slots s).remaining - n = 0 := by
    rw [h.remaining]
    omega
  simp only [SendCopyPool.tryAdvance, if_pos hrem]

/-- Part of a copy send is out. -/
theorem Live.advanceCopy (h : Live w g ((c, .slot s) :: L)) (hx : g.act c = some x)
    (hjob : x.job = .copy s) (hn : n < x.bytes.length) :
    ∃ p, w.sendCopyPool.tryAdvance s n =
        some (p, .pool s (p.slots s).offset, (p.slots s).remaining) ∧
      s < p.count ∧
      Live { w with sendCopyPool := p }
        { g with act := update g.act c (some { x with bytes := x.bytes.drop n }) }
        ((c, .slot s) :: L) := by
  obtain ⟨hholds, hwf⟩ := h.core.holdsCopy hx hjob
  obtain ⟨p, htry, ⟨rec, hp⟩, hnew⟩ := hholds.advance hn
  have hslot : ∀ t, t ∉ x.job.slots → p.slots t = w.sendCopyPool.slots t := by
    intro t ht
    rw [hjob, Job.slots, mem_singleton] at ht
    rw [hp, SendCopyPool.setSlot_slots, update_of_ne ht]
  have hpwf : p.Wf := hp ▸ h.core.res.pool.setSlot hholds.inUse
  have hcount : p.count = w.sendCopyPool.count := by rw [hp, SendCopyPool.setSlot_count]
  have href : Ref.slot s = x.job.ref := by rw [hjob]; rfl
  rw [href] at h ⊢
  exact ⟨p, htry, hnew.lt, h.adjust hx (h.core.adjust hx hpwf h.core.res.slab hcount rfl hslot
    (fun _ _ => rfl) rfl
    ((holds_copy_iff (x := { x with bytes := x.bytes.drop n }) hjob).mpr hnew) (hwf.drop hn))⟩

/-- All of a copy send is out: its slot goes back to the pool. -/
theorem Live.releaseCopy (h : Live w g ((c, .slot s) :: L)) (hx : g.act c = some x)
    (hjob : x.job = .copy s) :
    (w.takeAndRelease s).1 = x.bounded ∧
      Hole (w.takeAndRelease s).2 { g with act := update g.act c none } L c := by
  obtain ⟨hholds, -⟩ := h.core.holdsCopy hx hjob
  refine ⟨hholds.bounded, ?_⟩
  have href : Ref.slot s = x.job.ref := by rw [hjob]; rfl
  rw [href] at h
  let q := (w.sendCopyPool.takeBoundedSend s).2
  have huse : (q.slots s).inUse = true := by
    simpa [q, SendCopyPool.takeBoundedSend] using hholds.inUse
  have hq : q.Wf := h.core.res.pool.setSlot hholds.inUse
  have hslot : ∀ t, t ∉ x.job.slots → (q.release s).slots t = w.sendCopyPool.slots t := by
    intro t ht
    rw [hjob, Job.slots, mem_singleton] at ht
    rw [SendCopyPool.release_slots_of_ne q ht]
    exact update_of_ne ht ..
  have hhole := h.hole hx (h.core.retire hx g.slotOwner g.entryOwner (hq.release hholds.lt huse)
    h.core.res.slab (SendCopyPool.release_count q s) rfl (fun t ht => ⟨hslot t ht, rfl⟩)
    (fun _ _ => ⟨rfl, rfl⟩) (by rw [hjob]; exact fun _ he => by cases he))
  exact hhole.congr {} rfl

/-! ### Gathered sends -/

theorem Core.holdsGather (h : Core w g L) (hx : g.act c = some x) (hjob : x.job = .gather zc e ss) :
    HoldsGather w.sendCopyPool w.sendSlab w.providedBufs (w.generation c) c zc e ss x ∧ x.Wf :=
  (h.holds_act hx).imp_left (holds_gather_iff hjob).mp

variable (sl)

/-- Set the iovecs and the notifications of an entry. -/
def InFlightSendSlab.touch (e : Nat) (iovecs : List Iovec) (notifs : UInt8) : InFlightSendSlab :=
  sl.setEntry e { sl.entries e with iovecs := iovecs, pendingNotifs := notifs }

theorem InFlightSendSlab.touch_entries (e : Nat) (iovecs : List Iovec) (notifs : UInt8) :
    (sl.touch e iovecs notifs).entries e =
      { sl.entries e with iovecs := iovecs, pendingNotifs := notifs } := update_self ..

theorem InFlightSendSlab.touch_entries_of_ne {e' : Nat} (iovecs : List Iovec) (notifs : UInt8)
    (h : e' ≠ e) : (sl.touch e iovecs notifs).entries e' = sl.entries e' := update_of_ne h ..

theorem InFlightSendSlab.touch_self (e : Nat) :
    sl.touch e (sl.entries e).iovecs (sl.entries e).pendingNotifs = sl := by
  change { sl with entries := update sl.entries e (sl.entries e) } = sl
  rw [update_eq_self]

variable {sl}

/-- Touching an entry changes what is left of its piece, and nothing else. -/
theorem HoldsGather.touch {gen : Nat} (h : HoldsGather p sl prov gen c zc e ss x)
    {bytes : List UInt8} (hread : Readable p prov ss iovecs)
    (hbytes : Iovec.readAll p prov iovecs = bytes) :
    HoldsGather p (sl.touch e iovecs notifs) prov gen c zc e ss { x with bytes := bytes } := by
  refine ⟨h.lt, ?_, ?_, ?_, ?_, ?_, ?_, ?_, ?_, ?_, ?_, h.slot⟩ <;>
    simp only [touch_entries]
  exacts [h.inUse, h.awaiting, h.connIndex, h.generation, h.poolSlot, h.poolSlots, h.eos, h.bounded,
    hread, hbytes]

theorem Live.touch (h : Live w g ((c, .entry zc e) :: L)) (hx : g.act c = some x)
    (hjob : x.job = .gather zc e ss) (notifs : UInt8) {bytes : List UInt8}
    (hread : Readable w.sendCopyPool w.providedBufs ss iovecs)
    (hbytes : Iovec.readAll w.sendCopyPool w.providedBufs iovecs = bytes)
    (hwf : ({ x with bytes := bytes } : Piece).Wf) :
    Live { w with sendSlab := w.sendSlab.touch e iovecs notifs }
      { g with act := update g.act c (some { x with bytes := bytes }) }
      ((c, .entry zc e) :: L) := by
  obtain ⟨hholds, -⟩ := h.core.holdsGather hx hjob
  have href : Ref.entry zc e = x.job.ref := by rw [hjob]; rfl
  rw [href] at h ⊢
  refine h.adjust hx (h.core.adjust hx h.core.res.pool (h.core.res.slab.setEntry hholds.inUse) rfl
    rfl (fun _ _ => rfl) ?_ rfl
    ((holds_gather_iff (x := { x with bytes := bytes }) hjob).mpr (hholds.touch hread hbytes)) hwf)
  intro e' he'
  rw [hjob, Job.entries, mem_singleton] at he'
  exact w.sendSlab.touch_entries_of_ne iovecs notifs he'

/-- Part of a gathered send is out. -/
theorem Live.advanceGather (h : Live w g ((c, .entry zc e) :: L)) (hx : g.act c = some x)
    (hjob : x.job = .gather zc e ss) (hn : n < x.bytes.length) :
    (w.sendSlab.tryAdvance e n).1 = true ∧
      Live { w with sendSlab := (w.sendSlab.tryAdvance e n).2 }
        { g with act := update g.act c (some { x with bytes := x.bytes.drop n }) }
        ((c, .entry zc e) :: L) := by
  obtain ⟨hholds, hwf⟩ := h.core.holdsGather hx hjob
  obtain ⟨hbytes, hread⟩ := readAll_advance hholds.readable n
  constructor
  · have hne : advanceIovecs (w.sendSlab.entries e).iovecs n ≠ [] := by
      rw [Ne, advanceIovecs_eq_nil_iff hholds.readable, hholds.bytes]
      omega
    simpa [tryAdvance] using hne
  · rw [hholds.bytes] at hbytes
    exact h.touch hx hjob _ hread hbytes (hwf.drop hn)

theorem HoldsGather.advance_done {gen : Nat} (h : HoldsGather p sl prov gen c zc e ss x)
    (hn : x.bytes.length ≤ n) : (sl.tryAdvance e n).1 = false := by
  have hnil : advanceIovecs (sl.entries e).iovecs n = [] := by
    rw [advanceIovecs_eq_nil_iff h.readable, h.bytes]
    exact hn
  simp [tryAdvance, hnil]

theorem releasePoolSlots_eq (ss : List Nat) (w : Worker) :
    ∃ b, ss.foldl (fun w s => w.releasePoolSlot s) w =
      { w with
        sendCopyPool := ss.foldl SendCopyPool.release w.sendCopyPool, capacityReleased := b } := by
  induction ss generalizing w with
  | nil => exact ⟨w.capacityReleased, rfl⟩
  | cons s ss ih => exact ih (w.releasePoolSlot s)

/-- All of a coalesced send is out, and its entry has moved on: its slots and its entry go back. -/
theorem Live.releaseCoalesced (w' : Worker) (h : Live w g ((c, .entry false e) :: L))
    (hx : g.act c = some x) (hjob : x.job = .gather false e ss)
    (hw : w' = { w with sendSlab := w.sendSlab.touch e iovecs notifs }) :
    (w'.takeAndReleaseCoalesced e).1 = x.bounded ∧
      Hole (w'.takeAndReleaseCoalesced e).2 { g with act := update g.act c none } L c ∧
      (w'.takeAndReleaseCoalesced e).2.books = w.books := by
  obtain ⟨hholds, -⟩ := h.core.holdsGather hx hjob
  have href : Ref.entry false e = x.job.ref := by rw [hjob]; rfl
  rw [href] at h
  let sl₀ := w.sendSlab.touch e iovecs notifs
  let sl := (sl₀.takeCoalescedBoundedSend e).2
  have hsl₀ : sl₀.entries e =
      { w.sendSlab.entries e with iovecs := iovecs, pendingNotifs := notifs } :=
    w.sendSlab.touch_entries e iovecs notifs
  have hsl : sl.entries e =
      { w.sendSlab.entries e with
        iovecs := iovecs, pendingNotifs := notifs, boundedSend := none } := by
    change update sl₀.entries e { sl₀.entries e with boundedSend := none } e = _
    rw [update_self, hsl₀]
  have hpoolSlots : (sl.entries e).poolSlots = ss := by rw [hsl]; exact hholds.poolSlots
  have hinUse : (sl.entries e).inUse = true := by rw [hsl]; exact hholds.inUse
  have hinUse₀ : (sl₀.entries e).inUse = true := by rw [hsl₀]; exact hholds.inUse
  obtain ⟨b, hfold⟩ := releasePoolSlots_eq ss { w with sendSlab := sl }
  have heq : (w'.takeAndReleaseCoalesced e).2 =
      { w with
        sendCopyPool := ss.foldl SendCopyPool.release w.sendCopyPool
        sendSlab := (sl.release e).2
        capacityReleased := b } := by
    rw [hw]
    change Worker.releaseCoalesced { w with sendSlab := sl } e = _
    rw [Worker.releaseCoalesced, hpoolSlots, hfold]
  have hnodup : ss.Nodup := by
    have := (h.core.res.own c).slots
    rw [pieces, hx, Option.toList_some, singleton_append, flatMap_cons, hjob] at this
    exact (nodup_append.mp this).1
  have hslots : ∀ s ∈ ss, s < w.sendCopyPool.count ∧ (w.sendCopyPool.slots s).inUse = true :=
    fun s hs => ⟨(hholds.slot s hs).1, (hholds.slot s hs).2.1⟩
  have hentry : ∀ e', e' ∉ x.job.entries → (sl.release e).2.entries e' = w.sendSlab.entries e' := by
    intro e' he'
    rw [hjob, Job.entries, mem_singleton] at he'
    rw [release_entries_of_ne sl he']
    exact (update_of_ne he' ..).trans
      (w.sendSlab.touch_entries_of_ne iovecs notifs he')
  have hslab : (sl.release e).2.Wf :=
    release
      (setEntry (h.core.res.slab.setEntry hholds.inUse) hinUse₀) hholds.lt hinUse
  have hcore := h.core.retire hx g.slotOwner g.entryOwner
    (h.core.res.pool.releaseAll hnodup hslots) hslab (SendCopyPool.releaseAll_count ss _) rfl
    (fun t ht => ⟨SendCopyPool.releaseAll_slots_of_notMem ss _ (by rwa [hjob] at ht), rfl⟩)
    (fun e' he' => ⟨hentry e' he', rfl⟩) ?_
  · have hhole := h.hole hx hcore
    rw [heq]
    refine ⟨?_, hhole.congr {} rfl, rfl⟩
    rw [hw]
    change (sl₀.entries e).boundedSend = x.bounded
    rw [hsl₀]
    exact hholds.bounded
  · rw [hjob]
    intro e' he' hin
    rw [mem_singleton.mp he', release_inUse] at hin
    cases hin

/-- The owners once a zero-copy piece is finished: what it leaves behind belongs to its entry. -/
def Ghost.leave (g : Ghost) (c e : Nat) (ss : List Nat) : Ghost :=
  { g with
    act := update g.act c none
    slotOwner := fun s => if s ∈ ss then .entry e else g.slotOwner s
    entryOwner := update g.entryOwner e (.entry e) }

/-- All of a zero-copy send is out, and its entry has moved on: its entry and slot go back once the
notifications are in. -/
theorem Live.releaseZc (h : Live w g ((c, .entry true e) :: L))
    (hx : g.act c = some x) (hjob : x.job = .gather true e ss)
    (hw : w' = { w with sendSlab := w.sendSlab.touch e iovecs notifs }) :
    Hole (w'.releaseZcSlab e) (g.leave c e ss) L c ∧ (w'.releaseZcSlab e).books = w.books := by
  obtain ⟨hholds, -⟩ := h.core.holdsGather hx hjob
  have href : Ref.entry true e = x.job.ref := by rw [hjob]; rfl
  rw [href] at h
  let sl₀ := w.sendSlab.touch e iovecs notifs
  let sl := sl₀.markAwaitingNotifications e
  have hsl₀ : sl₀.entries e =
      { w.sendSlab.entries e with iovecs := iovecs, pendingNotifs := notifs } :=
    w.sendSlab.touch_entries e iovecs notifs
  have hsl : sl.entries e =
      { w.sendSlab.entries e with
        iovecs := iovecs, pendingNotifs := notifs, awaitingNotifications := true } := by
    change update sl₀.entries e { sl₀.entries e with awaitingNotifications := true } e = _
    rw [update_self, hsl₀]
  have hinUse₀ : (sl₀.entries e).inUse = true := by rw [hsl₀]; exact hholds.inUse
  have hwf : sl.Wf :=
    setEntry (h.core.res.slab.setEntry hholds.inUse) hinUse₀
  have hpoolSlot : (sl.entries e).poolSlot.toList = ss := by
    rw [hsl]
    exact hholds.poolSlot
  have hslots : ∀ s ∈ ss, s < w.sendCopyPool.count ∧ (w.sendCopyPool.slots s).inUse = true :=
    fun s hs => ⟨(hholds.slot s hs).1, (hholds.slot s hs).2.1⟩
  have hentry : ∀ e', e' ∉ x.job.entries → sl.entries e' = w.sendSlab.entries e' ∧
      update g.entryOwner e (.entry e) e' = g.entryOwner e' := by
    intro e' he'
    rw [hjob, Job.entries, mem_singleton] at he'
    exact ⟨(update_of_ne he' ..).trans (w.sendSlab.touch_entries_of_ne iovecs notifs he'),
      update_of_ne he' ..⟩
  have howner : ∀ s, s ∉ x.job.slots →
      (if s ∈ ss then Owner.entry e else g.slotOwner s) = g.slotOwner s := by
    intro s hs
    rw [hjob] at hs
    exact if_neg hs
  have hinUse : (sl.entries e).inUse = true := by rw [hsl]; exact hholds.inUse
  -- The entry as it is freed, for whatever the pool becomes.
  have hfreed : ∀ p : SendCopyPool, p.Wf → p.count = w.sendCopyPool.count →
      (∀ s, s ∉ x.job.slots → p.slots s = w.sendCopyPool.slots s) →
      Hole { w with sendCopyPool := p, sendSlab := (sl.release e).2 } (g.leave c e ss) L c := by
    intro p hp hcount hslot
    refine h.hole hx (h.core.retire hx _ _ hp (hwf.release hholds.lt hinUse) hcount rfl
      (fun s hs => ⟨hslot s hs, howner s hs⟩) (fun e' he' => ⟨?_, (hentry e' he').2⟩) ?_)
    · rw [← (hentry e' he').1]
      rw [hjob, Job.entries, mem_singleton] at he'
      exact release_entries_of_ne sl he'
    · rw [hjob]
      intro e' he' hin
      rw [mem_singleton.mp he', release_inUse] at hin
      cases hin
  rw [hw]
  change Hole (Worker.releaseIfDone { w with sendSlab := sl } e) _ L c ∧
    (Worker.releaseIfDone { w with sendSlab := sl } e).books = w.books
  rw [Worker.releaseIfDone]
  split
  · rcases hps : (sl.entries e).poolSlot with _ | s
    · have hrel : (sl.release e).1 = none := hps
      simp only [hrel]
      exact ⟨hfreed w.sendCopyPool h.core.res.pool rfl fun _ _ => rfl, rfl⟩
    · have hrel : (sl.release e).1 = some s := hps
      have hss : ss = [s] := by rw [← hpoolSlot, hps]; rfl
      obtain ⟨hlt, huse⟩ := hslots s (by rw [hss]; exact mem_singleton_self s)
      simp only [hrel]
      refine ⟨?_, rfl⟩
      have hhole := hfreed (w.sendCopyPool.release s) (h.core.res.pool.release hlt huse)
        (SendCopyPool.release_count _ _) fun t ht => by
          rw [hjob, Job.slots, hss, mem_singleton] at ht
          exact SendCopyPool.release_slots_of_ne _ ht
      exact hhole.congr {} rfl
  · refine ⟨h.hole hx (h.core.retire hx _ _ h.core.res.pool hwf rfl rfl
      (fun s hs => ⟨rfl, howner s hs⟩) hentry ?_), rfl⟩
    rw [hjob]
    intro e' he' _ _
    obtain rfl := mem_singleton.mp he'
    refine ⟨hholds.lt, update_self .., ?_, fun s hs => ?_⟩
    · rw [hsl]
      exact hholds.poolSlots
    · have hmem : s ∈ ss := by rw [← hpoolSlot, hs]; exact mem_singleton_self s
      exact ⟨(hslots s hmem).1, (hslots s hmem).2, if_pos hmem⟩

/-! ### Notifications -/

/-- Only the pool and the slab changed, and not where anything in a queue or in the kernel is. -/
theorem Core.setRes (h : Core w g L) (hres : Res p sl w.providedBufs w.generation g)
    (hslot : ∀ d, ∀ y ∈ g.pieces d, ∀ s ∈ y.job.slots, p.slots s = w.sendCopyPool.slots s) :
    Core { w with sendCopyPool := p, sendSlab := sl } g L where
  res := hres
  que d := forall₂_queued_congr (h.que d) fun y hy => hslot d y (mem_pieces_que hy)
  loc := h.loc.congr_pool fun e he d s href => by
    obtain ⟨z, hz, hjob⟩ := h.loc.act_of_slot he href
    exact hslot d z (mem_pieces_act hz) s (by rw [hjob]; exact mem_singleton_self s)
  quiet := h.quiet

/-- The notifications of an entry only count for what is finished. -/
theorem Res.setNotifs (h : Res p sl prov gen g) (hin : (sl.entries e).inUse = true) (n : UInt8) :
    Res p (sl.setEntry e { sl.entries e with pendingNotifs := n }) prov gen g := by
  refine h.congr h.pool (h.slab.setEntry hin) rfl rfl (fun _ _ => rfl) (fun e' _ => ?_) fun e' => ?_
  · rcases eq_or_ne e' e with rfl | he
    · rw [setEntry_entries, update_self]
      rfl
    · rw [setEntry_entries, update_of_ne he]
  · rcases eq_or_ne e' e with rfl | he
    · exact fun _ => hin
    · rw [setEntry_entries, update_of_ne he]
      exact id

/-- What a finished zero-copy send left behind goes back. -/
theorem Res.releaseZombie {p' : SendCopyPool} (h : Res p sl prov gen g) (hz : Zombie p sl g e)
    (hin : (sl.entries e).inUse = true) (hpool : p'.Wf) (hcount : p'.count = p.count)
    (hslot : ∀ s, g.slotOwner s ≠ .entry e → p'.slots s = p.slots s) :
    Res p' (sl.release e).2 prov gen g := by
  refine h.update (.entry e) hpool (h.slab.release hz.lt hin) hcount rfl (fun _ _ => rfl)
    (fun s _ hs => ⟨hslot s hs, rfl⟩) (fun e' _ he' => ⟨?_, rfl⟩) (fun _ hc => by cases hc) ?_
  · refine release_entries_of_ne sl ?_
    rintro rfl
    exact he' hz.owner
  · intro e' ho hin' haw'
    have hne : e' ≠ e := by
      rintro rfl
      rw [release_inUse] at hin'
      cases hin'
    rw [release_entries_of_ne sl hne] at hin' haw'
    rcases ho with ho | ho
    · rw [(h.zombie e' hin' haw').owner] at ho
      exact absurd (Owner.entry.inj ho) hne
    · rw [hin'] at ho
      cases ho

theorem Live.setRes (h : Live w g L) (hres : Res p sl w.providedBufs w.generation g)
    (hslot : ∀ d, ∀ y ∈ g.pieces d, ∀ s ∈ y.job.slots, p.slots s = w.sendCopyPool.slots s) :
    Live { w with sendCopyPool := p, sendSlab := sl } g L :=
  ⟨h.core.setRes hres hslot, h.flags⟩

/-- A notification, for whatever entry. -/
theorem Live.zcNotification (h : Live w g L) (hin : (w.sendSlab.entries e).inUse = true) :
    Live (w.zcNotification e) g L ∧ (w.zcNotification e).books = w.books := by
  let sl := w.sendSlab.decPendingNotifs e
  have hsl : sl.entries e =
      { w.sendSlab.entries e with pendingNotifs := (w.sendSlab.entries e).pendingNotifs - 1 } :=
    update_self ..
  have hres : Res w.sendCopyPool sl w.providedBufs w.generation g := h.core.res.setNotifs hin _
  have hin' : (sl.entries e).inUse = true := by rw [hsl]; exact hin
  change Live (Worker.releaseIfDone { w with sendSlab := sl } e) g L ∧
    (Worker.releaseIfDone { w with sendSlab := sl } e).books = w.books
  rw [Worker.releaseIfDone]
  split
  · rename_i hdone
    have haw : (sl.entries e).awaitingNotifications = true := (Bool.and_eq_true _ _ ▸ hdone).2
    have hz := hres.zombie e hin' haw
    rcases hps : (sl.entries e).poolSlot with _ | s
    · have hrel : (sl.release e).1 = none := hps
      simp only [hrel]
      exact ⟨h.setRes (hres.releaseZombie hz hin' hres.pool rfl fun _ _ => rfl)
        fun _ _ _ _ _ => rfl, rfl⟩
    · have hrel : (sl.release e).1 = some s := hps
      obtain ⟨hlt, huse, howner⟩ := hz.slot s hps
      simp only [hrel]
      have hslot : ∀ t, g.slotOwner t ≠ .entry e →
          (w.sendCopyPool.release s).slots t = w.sendCopyPool.slots t := by
        intro t ht
        refine SendCopyPool.release_slots_of_ne _ ?_
        rintro rfl
        exact ht howner
      have hlive := h.setRes (hres.releaseZombie hz hin' (hres.pool.release hlt huse)
        (SendCopyPool.release_count _ _) hslot) fun d y hy t ht => hslot t (by
          rw [(h.core.res.own d).slotOwner y hy t ht]
          exact nofun)
      exact ⟨hlive.congr {} rfl, rfl⟩
  · exact ⟨h.setRes hres fun _ _ _ _ _ => rfl, rfl⟩

end Ringline.Uring
