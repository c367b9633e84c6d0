import Ringline.Uring.SendSteps

/-!
# What a connection sends next

Two operations decide what becomes active: `submitNextQueued` after a completion, and
`submitOrQueue` for a send that was just built.  Both leave the line of the connection as it is,
up to merging a run of copied pieces into one coalesced piece (`Streams.Same`), and both leave
`Live` behind (`Hole.submitNextQueuedInner`, `Live.submitOrQueue`).

A piece enters the line through `Core.stage`, which puts it behind everything else while its
submission is still in the hands of the caller.
-/

set_option autoImplicit false

namespace Ringline.Uring

open Streams (Same)
open Worker (coalescableSlots)
open List Function

variable {w : Worker} {g : Ghost} {L : List (Nat × Ref)} {c : Nat} {x : Piece}
variable {p : SendCopyPool}

/-- What is left to send on a connection. -/
def Ghost.pend (g : Ghost) (c : Nat) : List (Streams.Segment UInt8 (BoundedSendId × Nat)) :=
  (g.pieces c).map Piece.segment

/-- Nothing is lost or said: the lines are the same, up to merged pieces. -/
structure Kept (w : Worker) (g : Ghost) (w' : Worker) (g' : Ghost) : Prop where
  built : g'.built = g.built
  same : ∀ d, Same (g.pend d) (g'.pend d)
  books : w'.books = w.books

/-- The invariant holds again, and nothing has left a line. -/
def Keeps (w : Worker) (g : Ghost) (L : List (Nat × Ref)) (w' : Worker) : Prop :=
  ∃ g', Live w' g' L ∧ Kept w g w' g'

/-! ## Queues and flags -/

variable {gen : Nat → Nat} {sl : InFlightSendSlab} {sq : Nat → ConnSendState} {st : ConnSendState}

/-- Only how the line is split into an active piece and a queue changed. -/
theorem Res.congr_ghost {prov : Nat → List UInt8} {g' : Ghost} (h : Res p sl prov gen g)
    (hpieces : ∀ d, g'.pieces d = g.pieces d) (hslot : g'.slotOwner = g.slotOwner)
    (hentry : g'.entryOwner = g.entryOwner) : Res p sl prov gen g' where
  pool := h.pool
  slab := h.slab
  count_le := h.count_le
  capacity_le := h.capacity_le
  own d := by
    obtain ⟨hholds, hslots, hso, hentries, heo⟩ := h.own d
    constructor <;> rw [hpieces d]
    · exact hholds
    · exact hslots
    · rw [hslot]
      exact hso
    · exact hentries
    · rw [hentry]
      exact heo
  zombie e hin haw := by
    obtain ⟨hlt, howner, hpool, hs⟩ := h.zombie e hin haw
    exact ⟨hlt, hentry ▸ howner, hpool, hslot ▸ hs⟩

/-- A new send state for `c` that keeps what `Quiet` says. -/
theorem Quiet.setSends {conns : Nat → ConnectionState} {chains : Nat → Option ChainState}
    {g' : Ghost} (h : Quiet conns sq chains g)
    (hst : st.closePending = false ∧ st.closeSubmitted = false)
    (hpieces : ∀ d, g'.pieces d = g.pieces d) : Quiet conns (update sq c st) chains g' where
  closePending d := by
    rcases eq_or_ne d c with rfl | hd
    · rw [update_self, hst.1]
    · rw [update_of_ne hd, h.closePending]
  closeSubmitted d := by
    rcases eq_or_ne d c with rfl | hd
    · rw [update_self, hst.2]
    · rw [update_of_ne hd, h.closeSubmitted]
  chain := h.chain
  write := h.write
  active d hd := h.active d (hpieces d ▸ hd)

theorem Que.setSends (h : Que p gen (fun d => (sq d).queue) g) (g' : Ghost)
    (hc : List.Forall₂ (Queued p gen c) (st.queue ++ g'.built c) (g'.que c))
    (hd : ∀ d, d ≠ c → g'.built d = g.built d ∧ g'.que d = g.que d) :
    Que p gen (fun d => (update sq c st d).queue) g' := by
  intro d
  rcases eq_or_ne d c with rfl | hdc
  · simpa only [update_self] using hc
  · simpa only [update_of_ne hdc, hd d hdc] using h d

/-- The queue of `c` and what is built for it change, and its line does not. -/
theorem Core.setQueue (h : Core w g L) (st : ConnSendState) (built : List BuiltSend)
    (hst : st.closePending = false ∧ st.closeSubmitted = false)
    (hque : List.Forall₂ (Queued w.sendCopyPool w.generation c) (st.queue ++ built) (g.que c)) :
    Core { w with sendQueues := update w.sendQueues c st }
      { g with built := update g.built c built } L where
  res := h.res.congr_ghost (fun _ => rfl) rfl rfl
  que := h.que.setSends _ (by simpa only [update_self] using hque)
    fun d hd => ⟨update_of_ne hd .., rfl⟩
  loc := h.loc
  quiet := h.quiet.setSends hst fun _ => rfl

/-- The head of the queue of an idle connection becomes active. -/
theorem Core.activate (h : Core w g L) (hidle : g.act c = none) {xs : List Piece}
    (hx : g.que c = x :: xs) (st : ConnSendState) (built : List BuiltSend)
    (hst : st.closePending = false ∧ st.closeSubmitted = false)
    (hque : List.Forall₂ (Queued w.sendCopyPool w.generation c) (st.queue ++ built) xs) :
    Core { w with sendQueues := update w.sendQueues c st }
        { g with
          act := update g.act c (some x)
          que := update g.que c xs
          built := update g.built c built } ((c, x.job.ref) :: L) ∧
      ∀ d, Ghost.pieces
        { g with
          act := update g.act c (some x)
          que := update g.que c xs
          built := update g.built c built } d = g.pieces d := by
  have hpieces : ∀ d, Ghost.pieces
      { g with
        act := update g.act c (some x)
        que := update g.que c xs
        built := update g.built c built } d = g.pieces d := by
    intro d
    rcases eq_or_ne d c with rfl | hd
    · simp only [Ghost.pieces, update_self, hidle, hx, Option.toList_some,
        Option.toList_none, nil_append, singleton_append]
    · simp only [Ghost.pieces, update_of_ne hd]
  refine ⟨⟨h.res.congr_ghost hpieces rfl rfl, h.que.setSends _ ?_ fun d hd => ?_,
    h.loc.activate hidle x, h.quiet.setSends hst hpieces⟩, hpieces⟩
  · simpa only [update_self] using hque
  · exact ⟨update_of_ne hd .., update_of_ne hd ..⟩

/-- What is queued may be submitted as it is. -/
theorem Queued.sqeOk {prov : Nat → List UInt8} {b : BuiltSend} (h : Queued p gen c b x)
    (hholds : Holds p sl prov gen c x) (hcount : p.count ≤ 65535) (hcap : sl.capacity ≤ 65535) :
    SqeOk p gen b.entry ∧ b.entry.ref? = some (c, x.job.ref) := by
  obtain ⟨job, bytes, eos, bounded⟩ := x
  cases job with
  | copy s =>
    obtain ⟨-, -, hoff, tag, htag, hentry⟩ := h
    have hcopy : b.entry = copySqe p tag c (gen c) s := by
      rw [hentry, copySqe, hoff, hholds.remaining]
    rw [hcopy]
    exact sqeOk_copySqe p gen c htag (by have := hholds.lt; omega)
  | gather zc e slots =>
    obtain ⟨rfl, -, hentry⟩ := h
    rw [hentry]
    exact (sqeOk_entry p gen c (by have := hholds.lt; omega)).2.2

/-! ## The end of the queue -/

theorem Core.tryFinalizeClose_eq (h : Core w g L) (d : Nat) : w.tryFinalizeClose d = w := by
  simp [Worker.tryFinalizeClose, h.quiet.closePending d]

theorem Core.finishQueue_eq (h : Core w g L) :
    w.finishQueue c = w.modifySends c fun s => { s with inFlight := false, parked := false } := by
  have hwrite : (w.conn? c).any (·.write = .shutdownPending) = false := by
    rw [Worker.conn?]
    split <;> simp [h.quiet.write c]
  have hpending : (w.sendQueues c).closePending = false := h.quiet.closePending c
  simp only [Worker.finishQueue, Worker.modifySends]
  have hconn : ∀ s, Worker.conn? { w with sendQueues := s } c = w.conn? c := fun _ => rfl
  simp [hconn, hwrite, Worker.tryFinalizeClose, hpending]

theorem Hole.finishQueue (h : Hole w g L c) (hq : (w.sendQueues c).queue = []) :
    Live (w.finishQueue c) g L ∧ (w.finishQueue c).books = w.books := by
  rw [h.core.finishQueue_eq]
  refine ⟨⟨?_, fun d => ?_⟩, rfl⟩
  · have hcore := h.core.setQueue { w.sendQueues c with inFlight := false, parked := false }
      (g.built c) ⟨h.core.quiet.closePending c, h.core.quiet.closeSubmitted c⟩ (h.core.que c)
    rwa [update_eq_self] at hcore
  · rcases eq_or_ne d c with rfl | hd
    · constructor <;> simp [Worker.modifySends, h.idle, hq]
    · simpa only [Worker.modifySends, update_of_ne hd] using h.flags d hd

/-! ## The head of the queue -/

/-- The head of a queue that is not empty, with the piece it stands for. -/
theorem Core.que_cons (h : Core w g L) {front : BuiltSend} {rest : List BuiltSend}
    (hq : (w.sendQueues c).queue ++ g.built c = front :: rest) :
    ∃ y ys, g.que c = y :: ys ∧
      (SqeOk w.sendCopyPool w.generation front.entry ∧
        front.entry.ref? = some (c, y.job.ref)) ∧
      List.Forall₂ (Queued w.sendCopyPool w.generation c) rest ys := by
  have hque := h.que c
  rw [hq] at hque
  obtain ⟨y, ys, hy, hys, heq⟩ := forall₂_cons_left_iff.mp hque
  have hmem : y ∈ g.que c := heq ▸ mem_cons_self ..
  have hholds := ((h.res.own c).holds y (Ghost.mem_pieces_que hmem)).1
  exact ⟨y, ys, heq, hy.sqeOk hholds h.res.count_le h.res.capacity_le, hys⟩

/-- Flags that only change at `c`. -/
theorem flags_update {act act' : Nat → Option Piece} {a : Option Piece}
    (h : ∀ d, d ≠ c → Flags (sq d) (act d)) (hact : ∀ d, d ≠ c → act' d = act d) (ha : act' c = a)
    (hc : Flags st a) (d : Nat) : Flags (update sq c st d) (act' d) := by
  rcases eq_or_ne d c with rfl | hd
  · rwa [update_self, ha]
  · rw [update_of_ne hd, hact d hd]
    exact h d hd

/-- The head could not be pushed. -/
theorem Hole.parkQueue (h : Hole w g L c) (hq : (w.sendQueues c).queue ≠ []) (attempts : Nat) :
    Live (w.parkQueue c attempts) g L ∧ (w.parkQueue c attempts).books = w.books := by
  have hcore := h.core.setQueue { w.sendQueues c with parked := true } (g.built c)
    ⟨h.core.quiet.closePending c, h.core.quiet.closeSubmitted c⟩ (h.core.que c)
  rw [update_eq_self] at hcore
  refine ⟨⟨hcore.congr_queues {} rfl, ?_⟩, rfl⟩
  refine flags_update h.flags (fun _ _ => rfl) h.idle ⟨?_, ?_⟩
  · simpa [h.inFlight] using hq
  · simpa using hq

theorem Hole.submitQueueHead (h : Hole w g L c) (attempts : Nat) :
    ∃ g', Live (w.submitQueueHead c attempts).2 g' L ∧ g'.built = g.built ∧
      (∀ d, g'.pieces d = g.pieces d) ∧ (w.submitQueueHead c attempts).2.books = w.books := by
  rw [Worker.submitQueueHead]
  rcases hq : (w.sendQueues c).queue with _ | ⟨front, rest⟩
  · obtain ⟨hlive, hbooks⟩ := h.finishQueue hq
    exact ⟨g, hlive, rfl, fun _ => rfl, hbooks⟩
  obtain ⟨y, ys, hy, ⟨hok, href⟩, hys⟩ := h.core.que_cons (by rw [hq, cons_append])
  rcases w.push_cases front.entry with ⟨room, hr⟩ | ⟨room, hr⟩
  · obtain ⟨hcore, hpieces⟩ := h.core.activate h.idle hy
      { w.sendQueues c with queue := rest, parked := false } (g.built c)
      ⟨h.core.quiet.closePending c, h.core.quiet.closeSubmitted c⟩ hys
    simp only [hr]
    refine ⟨_, ⟨hcore.pushed hok href room, ?_⟩, update_eq_self .., hpieces, rfl⟩
    exact flags_update h.flags (fun d hd => update_of_ne hd ..) (update_self ..)
      ⟨h.inFlight, rfl⟩
  · simp only [hr]
    have hroom : Hole { w with ring := ⟨w.ring.kernel, room⟩ } g L c :=
      h.congr {} rfl
    obtain ⟨hlive, hbooks⟩ := hroom.parkQueue (by rw [hq]; exact nofun) attempts
    exact ⟨g, hlive, rfl, fun _ => rfl, hbooks⟩

/-! ## A send that was just built -/

/-- **Queueing.**  The first send built for `c` goes out at once or waits its turn. -/
theorem Live.submitOrQueue (h : Live w g L) {b : BuiltSend} {rest : List BuiltSend}
    (hb : g.built c = b :: rest) :
    ∃ g', Live (w.submitOrQueue c b) g' L ∧ g'.built = update g.built c rest ∧
      (∀ d, g'.pieces d = g.pieces d) ∧ (w.submitOrQueue c b).books = w.books := by
  have hchain : (w.chains c).isSome = false := by rw [h.core.quiet.chain c]; rfl
  have hclose := And.intro (h.core.quiet.closePending c) (h.core.quiet.closeSubmitted c)
  have hothers : ∀ d, d ≠ c → Flags (w.sendQueues d) (g.act d) := fun d _ => h.flags d
  have hflags := h.flags c
  have hque := h.core.que c
  rw [hb] at hque
  rw [Worker.submitOrQueue, hchain, Bool.or_false]
  by_cases hin : (w.sendQueues c).inFlight = true
  · rw [if_pos hin]
    refine ⟨_, ⟨h.core.setQueue
      { w.sendQueues c with queue := (w.sendQueues c).queue ++ [b], inFlight := true } rest hclose
      (by simpa using hque), flags_update hothers (fun _ _ => rfl) rfl ⟨?_, ?_⟩⟩, rfl, fun _ => rfl,
      rfl⟩
    · simp
    · -- A connection in flight with nothing active was parked already.
      rw [hflags.inFlight] at hin
      rcases hact : g.act c with _ | y
      · rw [hact] at hin
        have hne : (w.sendQueues c).queue ≠ [] := by simpa using hin
        simp [hflags.parked, hact, isEmpty_eq_false_iff.mpr hne]
      · simp [hflags.parked, hact]
  · rw [if_neg hin]
    have hidle : g.act c = none ∧ (w.sendQueues c).queue = [] := by
      rw [hflags.inFlight] at hin
      simpa using hin
    have hparked : (w.sendQueues c).parked = false := by rw [hflags.parked, hidle.2]; simp
    obtain ⟨y, ys, hy, ⟨hok, href⟩, hys⟩ := h.core.que_cons (by rw [hidle.2, hb, nil_append])
    rcases w.push_cases b.entry with ⟨room, hr⟩ | ⟨room, hr⟩
    · obtain ⟨hcore, hpieces⟩ := h.core.activate hidle.1 hy
        { w.sendQueues c with inFlight := true } rest hclose (by simpa [hidle.2] using hys)
      simp only [hr]
      refine ⟨_, ⟨hcore.pushed hok href room, ?_⟩, rfl, hpieces, rfl⟩
      exact flags_update hothers (fun d hd => update_of_ne hd ..) (update_self ..)
        ⟨rfl, hparked⟩
    · simp only [hr]
      have hcore := h.core.setQueue
        { w.sendQueues c with
          queue := (w.sendQueues c).queue ++ [b], inFlight := true, parked := true } rest hclose
        (by simpa using hque)
      refine ⟨_, ⟨hcore.congr_queues {} rfl, ?_⟩, rfl,
        fun _ => rfl, rfl⟩
      refine flags_update hothers (fun _ _ => rfl) hidle.1 ⟨?_, ?_⟩ <;> simp

/-! ## Coalescing -/

section Run

variable {prov : Nat → List UInt8}

/-- The run at the head of a queue: copied pieces, of which only the last may end a logical send. -/
structure IsRun (slots : List Nat) (init : List Piece) (last : Piece) (s : Nat) : Prop where
  jobs : (init ++ [last]).map Piece.job = slots.map Job.copy
  last : last.job = .copy s
  getLast : slots.getLastD 0 = s
  eos : ∀ y ∈ init, y.eos = false

theorem coalescableSlots_spec (limit : Nat) {queue built : List BuiltSend} {xs : List Piece}
    (h : List.Forall₂ (Queued p gen c) (queue ++ built) xs)
    (hholds : ∀ x ∈ xs, Holds p sl prov gen c x) :
    coalescableSlots p limit queue = [] ∨
      ∃ init last s rest, xs = init ++ last :: rest ∧
        IsRun (coalescableSlots p limit queue) init last s ∧
        List.Forall₂ (Queued p gen c)
          (queue.drop (coalescableSlots p limit queue).length ++ built) rest := by
  induction queue generalizing limit xs with
  | nil => cases limit <;> exact .inl rfl
  | cons b queue ih =>
    rcases limit with _ | limit
    · exact .inl rfl
    obtain ⟨x, xs, hx, hxs, rfl⟩ := forall₂_cons_left_iff.mp h
    rw [coalescableSlots]
    split
    · rename_i slot hpool hslab
      obtain ⟨job, bytes, eos, bounded⟩ := x
      cases job with
      | gather zc e slots =>
        rw [hx.2.1] at hslab
        cases hslab
      | copy s =>
        obtain rfl : s = slot := by simpa using hx.1.symm.trans hpool
        have heos : p.isEndOfSend s = eos := (hholds _ (mem_cons_self ..)).eos
        rw [heos]
        cases eos with
        | true =>
          refine .inr ⟨[], ⟨.copy s, bytes, true, bounded⟩, s, xs, rfl, ⟨rfl, rfl, rfl, ?_⟩, hxs⟩
          exact fun _ hy => by cases hy
        | false =>
          rcases ih limit hxs fun y hy => hholds y (mem_cons_of_mem _ hy) with
            hnil | ⟨init, last, t, rest, rfl, hrun, hrest⟩
          · simp only [hnil, Bool.false_eq_true, if_false]
            refine .inr ⟨[], ⟨.copy s, bytes, false, bounded⟩, s, xs, rfl, ⟨rfl, rfl, rfl, ?_⟩, hxs⟩
            exact fun _ hy => by cases hy
          · simp only [Bool.false_eq_true, if_false]
            refine .inr ⟨⟨.copy s, bytes, false, bounded⟩ :: init, last, t, rest, rfl,
              ⟨?_, hrun.last, ?_, ?_⟩, by simpa using hrest⟩
            · rw [cons_append, map_cons, hrun.jobs, map_cons]
            · have hne : coalescableSlots p limit queue ≠ [] := by
                intro hnil
                have := hrun.jobs
                rw [hnil] at this
                simp at this
              have hlast := hrun.getLast
              rw [getLastD_eq_getLast?, getLast?_cons] at *
              rw [getLast?_eq_some_getLast hne] at *
              simpa using hlast
            · intro y hy
              rcases mem_cons.mp hy with rfl | hy
              · rfl
              · exact hrun.eos y hy
    · exact .inl rfl

variable {slots : List Nat}

theorem IsRun.holdsCopy {init : List Piece} {last : Piece} {s : Nat} (h : IsRun slots init last s)
    (hholds : ∀ x ∈ init ++ [last], Holds p sl prov gen c x) {t : Nat} (ht : t ∈ slots) :
    ∃ x ∈ init ++ [last], x.job = .copy t ∧ HoldsCopy p t x := by
  have hmem : Job.copy t ∈ (init ++ [last]).map Piece.job := by
    rw [h.jobs]
    exact mem_map_of_mem ht
  obtain ⟨x, hx, hjob⟩ := mem_map.mp hmem
  exact ⟨x, hx, hjob, (holds_copy_iff hjob).mp (hholds x hx)⟩

theorem IsRun.flatMap_slots {init : List Piece} {last : Piece} {s : Nat}
    (h : IsRun slots init last s) : (init ++ [last]).flatMap (fun x => x.job.slots) = slots := by
  have hmap : (init ++ [last]).flatMap (fun x => x.job.slots) =
      ((init ++ [last]).map Piece.job).flatMap Job.slots := by rw [flatMap_map]
  rw [hmap, h.jobs, flatMap_map]
  exact flatMap_singleton' slots

theorem flatMap_entries_copies {l : List Piece} (h : l.map Piece.job = slots.map Job.copy) :
    l.flatMap (fun x => x.job.entries) = [] := by
  have hmap : l.flatMap (fun x => x.job.entries) = (l.map Piece.job).flatMap Job.entries := by
    rw [flatMap_map]
  rw [hmap, h, flatMap_map]
  exact flatMap_eq_nil_iff.mpr fun _ _ => rfl

/-- The iovec that covers what is left in a slot. -/
def slotIovec (p : SendCopyPool) (s : Nat) : Iovec :=
  ⟨(p.currentPtrRemaining s).1, (p.currentPtrRemaining s).2⟩

theorem readAll_slotIovecs {run : List Piece} (hjobs : run.map Piece.job = slots.map Job.copy)
    (hholds : ∀ x ∈ run, Holds p sl prov gen c x) :
    Iovec.readAll p prov (slots.map (slotIovec p)) = run.flatMap Piece.bytes := by
  induction run generalizing slots with
  | nil =>
    obtain rfl : slots = [] := by simpa using hjobs.symm
    rfl
  | cons x run ih =>
    rcases slots with _ | ⟨s, slots⟩
    · simp at hjobs
    obtain ⟨hjob, hjobs⟩ := cons.inj hjobs
    have hcopy := (holds_copy_iff hjob).mp (hholds x (mem_cons_self ..))
    rw [flatMap_cons, ← ih hjobs fun y hy => hholds y (mem_cons_of_mem _ hy), ← hcopy.span]
    rfl

end Run

theorem Ptr.read_congr_bytes {p' : SendCopyPool} (h : ∀ s, (p'.slots s).bytes = (p.slots s).bytes)
    (prov : Nat → List UInt8) (len : Nat) (ptr : Ptr) :
    ptr.read p' prov len = ptr.read p prov len := by
  cases ptr <;> simp only [Ptr.read, SendCopyPool.span, h]

/-- The piece a run is merged into. -/
def mergedPiece (e : Nat) (slots : List Nat) (init : List Piece) (last : Piece) : Piece where
  job := .gather false e slots
  bytes := (init ++ [last]).flatMap Piece.bytes
  eos := last.eos
  bounded := last.bounded

section Coalesce

variable {sl' : InFlightSendSlab} {prov : Nat → List UInt8} {slots : List Nat}
  {init rest : List Piece} {last : Piece} {s e total : Nat}

theorem takeBoundedSend_slots_of_ne (p : SendCopyPool) {t : Nat} (h : t ≠ s) :
    (p.takeBoundedSend s).2.slots t = p.slots t := update_of_ne h ..

theorem takeBoundedSend_bytes (p : SendCopyPool) (s t : Nat) :
    ((p.takeBoundedSend s).2.slots t).bytes = (p.slots t).bytes := by
  rcases eq_or_ne t s with rfl | h
  · simp [SendCopyPool.takeBoundedSend]
  · rw [takeBoundedSend_slots_of_ne p h]

/-- The slab with a run in it: a free entry was taken, and says what the run is. -/
structure Gathered (p : SendCopyPool) (sl sl' : InFlightSendSlab) (c gen e : Nat)
    (slots : List Nat) (init : List Piece) (last : Piece) : Prop where
  wf : sl'.Wf
  capacity : sl'.capacity = sl.capacity
  lt : e < sl.capacity
  free : (sl.entries e).inUse = false
  others : ∀ e', e' ≠ e → sl'.entries e' = sl.entries e'
  inUse : (sl'.entries e).inUse = true
  awaiting : (sl'.entries e).awaitingNotifications = false
  connIndex : (sl'.entries e).connIndex = c
  generation : (sl'.entries e).generation = gen
  poolSlot : (sl'.entries e).poolSlot = none
  poolSlots : (sl'.entries e).poolSlots = slots
  eos : (sl'.entries e).endOfSend = last.eos
  bounded : (sl'.entries e).boundedSend = last.bounded
  iovecs : (sl'.entries e).iovecs = slots.map (slotIovec p)

theorem holds_merged (hrun : IsRun slots init last s)
    (hholds : ∀ x ∈ init ++ [last], Holds p sl prov gen c x ∧ x.Wf)
    (hg : Gathered p sl sl' c (gen c) e slots init last) :
    Holds (p.takeBoundedSend s).2 sl' prov gen c (mergedPiece e slots init last) ∧
      (mergedPiece e slots init last).Wf := by
  have hread : ∀ (ptr : Ptr) (len : Nat),
      ptr.read (p.takeBoundedSend s).2 prov len = ptr.read p prov len :=
    fun ptr len => Ptr.read_congr_bytes (takeBoundedSend_bytes p s) prov len ptr
  have hcopies := fun x hx => (hholds x hx).1
  have hlast := hholds last (mem_append_right _ (mem_singleton_self _))
  constructor
  · refine ⟨hg.capacity ▸ hg.lt, hg.inUse, hg.awaiting, hg.connIndex, hg.generation, ?_, ?_, hg.eos,
      hg.bounded, ?_, ?_, ?_⟩
    · rw [hg.poolSlot]
      rfl
    · simpa using hg.poolSlots
    · rw [hg.iovecs]
      intro v hv
      obtain ⟨t, ht, rfl⟩ := mem_map.mp hv
      obtain ⟨x, -, -, hx⟩ := hrun.holdsCopy hcopies ht
      rw [hread]
      refine ⟨?_, ht⟩
      change (p.span t (p.slots t).offset (p.slots t).remaining).length = (p.slots t).remaining
      rw [hx.span, hx.remaining]
    · rw [hg.iovecs]
      refine Eq.trans ?_ (readAll_slotIovecs hrun.jobs hcopies)
      exact flatMap_congr fun v _ => hread v.base v.len
    · intro t ht
      obtain ⟨x, hx, hjob, hcopy⟩ := hrun.holdsCopy hcopies ht
      rcases eq_or_ne t s with rfl | hts
      · exact ⟨hcopy.lt, by simpa [SendCopyPool.takeBoundedSend] using hcopy.inUse,
          by simp [SendCopyPool.takeBoundedSend]⟩
      · rw [takeBoundedSend_slots_of_ne p hts]
        refine ⟨hcopy.lt, hcopy.inUse, ?_⟩
        -- A piece before the last does not end its send, and so carries nothing.
        rw [hcopy.bounded]
        refine (hholds x hx).2.eos ?_
        rcases mem_append.mp hx with hx | hx
        · exact hrun.eos x hx
        · rw [mem_singleton.mp hx, hrun.last] at hjob
          exact absurd (Job.copy.inj hjob).symm hts
  · refine ⟨fun _ hnil => hlast.2.ne_nil ?_ ?_, hlast.2.eos, fun hzc => by cases hzc⟩
    · rw [hrun.last]
      rfl
    · exact flatMap_eq_nil_iff.mp hnil last (mem_append_right _ (mem_singleton_self _))

theorem Res.coalesce (h : Res p sl prov gen g) (hidle : g.act c = none)
    (hque : g.que c = init ++ last :: rest) (hrun : IsRun slots init last s)
    (hg : Gathered p sl sl' c (gen c) e slots init last) :
    Res (p.takeBoundedSend s).2 sl' prov gen
      { g with
        act := Function.update g.act c (some (mergedPiece e slots init last))
        que := Function.update g.que c rest
        entryOwner := Function.update g.entryOwner e (.conn c) } := by
  have hpieces : g.pieces c = (init ++ [last]) ++ rest := by
    rw [Ghost.pieces, hidle, hque]
    simp
  have hold := h.own c
  have hmem : ∀ x ∈ init ++ [last], x ∈ g.pieces c := fun x hx => by
    rw [hpieces]
    exact mem_append_left _ hx
  have hmem' : ∀ x ∈ rest, x ∈ g.pieces c := fun x hx => by
    rw [hpieces]
    exact mem_append_right _ hx
  have hlast := hmem last (mem_append_right _ (mem_singleton_self _))
  have hslots := hold.slots
  rw [hpieces, flatMap_append, hrun.flatMap_slots] at hslots
  have hsmem : s ∈ slots := by
    rw [← hrun.flatMap_slots]
    refine mem_flatMap.mpr ⟨last, mem_append_right _ (mem_singleton_self _), ?_⟩
    rw [hrun.last]
    exact mem_singleton_self s
  have howner : g.slotOwner s = .conn c :=
    hold.slotOwner last hlast s (by rw [hrun.last]; exact mem_singleton_self s)
  have hcopy := (holds_copy_iff hrun.last).mp (hold.holds last hlast).1
  -- Entries in use are not the one that was just taken.
  have hne : ∀ {e'}, (sl.entries e').inUse = true → e' ≠ e := by
    rintro e' hin rfl
    rw [hg.free] at hin
    cases hin
  have hrest : ∀ x ∈ rest, ∀ t ∈ x.job.slots, t ≠ s := by
    rintro x hx t ht rfl
    exact disjoint_of_nodup_append hslots hsmem (mem_flatMap.mpr ⟨x, hx, ht⟩)
  have hrest' : ∀ x ∈ rest, ∀ e' ∈ x.job.entries, e' ≠ e := fun x hx e' he' =>
    hne ((hold.holds x (hmem' x hx)).1.entry_inUse he').2.1
  refine h.update (.conn c) (h.pool.setSlot hcopy.inUse) hg.wf rfl hg.capacity ?_ ?_ ?_ ?_ ?_
  · intro d hd
    have hdc : d ≠ c := fun hdc => hd (congrArg Owner.conn hdc)
    simp only [Ghost.pieces, Function.update_of_ne hdc]
  · intro t _ ht
    refine ⟨takeBoundedSend_slots_of_ne p ?_, rfl⟩
    rintro rfl
    exact ht howner
  · intro e' hin _
    exact ⟨hg.others e' (hne hin), update_of_ne (hne hin) ..⟩
  · intro d hd
    obtain rfl : d = c := Owner.conn.inj hd
    have hnew : Ghost.pieces
        { g with
          act := Function.update g.act d (some (mergedPiece e slots init last))
          que := Function.update g.que d rest
          entryOwner := Function.update g.entryOwner e (.conn d) } d =
        mergedPiece e slots init last :: rest := by
      simp only [Ghost.pieces, Function.update_self, Option.toList_some, singleton_append]
    constructor <;> rw [hnew]
    · intro x hx
      rcases mem_cons.mp hx with rfl | hx
      · exact holds_merged hrun (fun x hx => hold.holds x (hmem x hx)) hg
      · refine ⟨(hold.holds x (hmem' x hx)).1.congr rfl hg.capacity
          (fun t ht => takeBoundedSend_slots_of_ne p (hrest x hx t ht))
          fun e' he' => congrArg _ (hg.others e' (hrest' x hx e' he')),
          (hold.holds x (hmem' x hx)).2⟩
    · exact hslots
    · intro x hx t ht
      rcases mem_cons.mp hx with rfl | hx
      · obtain ⟨y, hy, hjob, -⟩ :=
          hrun.holdsCopy (fun x hx => (hold.holds x (hmem x hx)).1) (show t ∈ slots from ht)
        exact hold.slotOwner y (hmem y hy) t (by rw [hjob]; exact mem_singleton_self t)
      · exact hold.slotOwner x (hmem' x hx) t ht
    · have hentries := hold.entries
      rw [hpieces, flatMap_append, flatMap_entries_copies hrun.jobs, nil_append] at hentries
      refine nodup_cons.mpr ⟨fun he => ?_, hentries⟩
      obtain ⟨x, hx, hex⟩ := mem_flatMap.mp he
      exact hrest' x hx e hex rfl
    · intro x hx e' he'
      rcases mem_cons.mp hx with rfl | hx
      · obtain rfl : e' = e := mem_singleton.mp he'
        exact update_self ..
      · exact (update_of_ne (hrest' x hx e' he') ..).trans
          (hold.entryOwner x (hmem' x hx) e' he')
  · intro e' ho hin haw
    rcases eq_or_ne e' e with rfl | hee
    · rw [hg.awaiting] at haw
      cases haw
    · rw [hg.others e' hee] at hin haw
      rcases ho with ho | ho
      · rw [(h.zombie e' hin haw).owner] at ho
        cases ho
      · rw [hin] at ho
        cases ho

/-- A run of queued pieces becomes one active piece. -/
theorem Core.coalesce (h : Core w g L) (hidle : g.act c = none)
    (hque : g.que c = init ++ last :: rest) (hrun : IsRun slots init last s)
    (hg : Gathered w.sendCopyPool w.sendSlab sl' c (w.generation c) e slots init last)
    (st : ConnSendState) (hst : st.closePending = false ∧ st.closeSubmitted = false)
    (hrest : List.Forall₂ (Queued w.sendCopyPool w.generation c) (st.queue ++ g.built c) rest) :
    Core { w with
        sendCopyPool := (w.sendCopyPool.takeBoundedSend s).2
        sendSlab := sl'
        sendQueues := update w.sendQueues c st }
      { g with
        act := update g.act c (some (mergedPiece e slots init last))
        que := update g.que c rest
        entryOwner := update g.entryOwner e (.conn c) }
      ((c, .entry false e) :: L) := by
  have hold := h.res.own c
  have hlast : last ∈ g.que c := by
    rw [hque]
    exact mem_append_right _ (mem_cons_self ..)
  have howner : g.slotOwner s = .conn c :=
    hold.slotOwner last (Ghost.mem_pieces_que hlast) s
      (by rw [hrun.last]; exact mem_singleton_self s)
  have hother : ∀ d, d ≠ c → ∀ y ∈ g.pieces d, ∀ t ∈ y.job.slots, t ≠ s := by
    rintro d hd y hy t ht rfl
    rw [(h.res.own d).slotOwner y hy t ht] at howner
    exact hd (Owner.conn.inj howner)
  have hrestslots : ∀ y ∈ rest, ∀ t ∈ y.job.slots, t ≠ s := by
    rintro y hy t ht rfl
    have hnodup := hold.slots
    rw [Ghost.pieces, hidle, hque, Option.toList_none, nil_append, flatMap_append,
      flatMap_cons, hrun.last, ← append_assoc] at hnodup
    exact disjoint_of_nodup_append hnodup
      (mem_append_right _ (mem_singleton_self t)) (mem_flatMap.mpr ⟨y, hy, ht⟩)
  refine ⟨h.res.coalesce hidle hque hrun hg, fun d => ?_, ?_, ?_⟩
  · refine forall₂_queued_congr (p := w.sendCopyPool) ?_ fun y hy t ht =>
      takeBoundedSend_slots_of_ne w.sendCopyPool ?_
    · refine (h.que.setSends (c := c) { g with que := update g.que c rest } ?_ ?_) d
      · simpa only [update_self] using hrest
      · exact fun d hd => ⟨rfl, update_of_ne hd ..⟩
    · rcases eq_or_ne d c with rfl | hd
      · simp only [update_self] at hy
        exact hrestslots y hy t ht
      · simp only [update_of_ne hd] at hy
        exact hother d hd y (Ghost.mem_pieces_que hy) t ht
  · refine (h.loc.activate hidle (mergedPiece e slots init last)).congr_pool fun q hq d t href =>
      takeBoundedSend_slots_of_ne w.sendCopyPool ?_
    obtain ⟨z, hz, hjob⟩ := h.loc.act_of_slot hq href
    have hd : d ≠ c := by
      rintro rfl
      rw [hidle] at hz
      cases hz
    exact hother d hd z (Ghost.mem_pieces_act hz) t (by rw [hjob]; exact mem_singleton_self t)
  · exact
      { closePending := (h.quiet.setSends (c := c) hst fun _ => rfl).closePending
        closeSubmitted := (h.quiet.setSends (c := c) hst fun _ => rfl).closeSubmitted
        chain := h.quiet.chain
        write := h.quiet.write
        active := fun d hd => by
          refine h.quiet.active d ?_
          rcases eq_or_ne d c with rfl | hdc
          · rw [Ghost.pieces, hque]
            simp
          · simpa only [Ghost.pieces, update_of_ne hdc] using hd }

end Coalesce

/-! ## The next send -/

/-- Lifting a bounded send off a slot and putting it back. -/
theorem restoreBoundedSend_take (w : Worker) (s : Nat) :
    Worker.restoreBoundedSend { w with sendCopyPool := (w.sendCopyPool.takeBoundedSend s).2 } s
      (w.sendCopyPool.takeBoundedSend s).1 = w := by
  have hslots : ∀ b, (w.sendCopyPool.slots s).boundedSend = b →
      update w.sendCopyPool.slots s { w.sendCopyPool.slots s with boundedSend := b } =
        w.sendCopyPool.slots := by
    rintro b rfl
    exact update_eq_self ..
  simp only [Worker.restoreBoundedSend, SendCopyPool.takeBoundedSend]
  rcases hb : (w.sendCopyPool.slots s).boundedSend with _ | ⟨id, len⟩
  · simp only [SendCopyPool.setSlot, hslots none hb]
  · simp only [SendCopyPool.setBoundedSend, SendCopyPool.setSlot, update_self,
      update_idem, hslots _ hb]

theorem gathered_allocate {sl' : InFlightSendSlab} (hsl : sl.Wf) {gen e : Nat} {slots : List Nat}
    (init : List Piece) {last : Piece} {total : Nat}
    (h : sl.allocateCoalesced c gen (slots.map (slotIovec p)) slots total last.eos last.bounded =
      some (e, sl')) :
    Gathered p sl sl' c gen e slots init last ∧
      (sl'.release e).2.Wf ∧ (sl'.release e).2.capacity = sl.capacity ∧
      ∀ e', e' ≠ e → (sl'.release e).2.entries e' = sl.entries e' := by
  obtain ⟨rest, hfree, rfl⟩ := InFlightSendSlab.allocateWith_eq_some h
  obtain ⟨hlt, hunused⟩ := hsl.unused e (hfree ▸ mem_cons_self ..)
  have hwf := hsl.take_top hfree
  refine ⟨⟨hwf _, rfl, hlt, hunused, fun e' he' => update_of_ne he' .., ?_, ?_, ?_, ?_, ?_,
    ?_, ?_, ?_, ?_⟩, (hwf _).release hlt ?_, rfl, fun e' he' =>
    (InFlightSendSlab.release_entries_of_ne _ he').trans (update_of_ne he' ..)⟩
  all_goals simp

/-- Merging a run leaves what is left to send as it is. -/
theorem same_mergedPiece {slots : List Nat} {init : List Piece} {last : Piece} {s : Nat}
    (rest : List Piece) (e : Nat) (hrun : IsRun slots init last s) (hwf : ∀ y ∈ init, y.Wf) :
    Same ((init ++ last :: rest).map Piece.segment)
      ((mergedPiece e slots init last :: rest).map Piece.segment) := by
  have hmerge := Streams.same_merge (init.map Piece.segment) last.segment fun y hy => by
    obtain ⟨z, hz, rfl⟩ := mem_map.mp hy
    exact (hwf z hz).eos (hrun.eos z hz)
  have hcontent : Streams.content (init.map Piece.segment ++ [last.segment]) =
      (init ++ [last]).flatMap Piece.bytes := by
    have hmap : init.map Piece.segment ++ [last.segment] = (init ++ [last]).map Piece.segment := by
      rw [map_append, map_singleton]
    rw [hmap, Streams.content, flatMap_map]
    rfl
  rw [hcontent] at hmerge
  have := hmerge.append_right (rest.map Piece.segment)
  simpa [mergedPiece, Piece.segment] using this

/-- **The next send.**  After a completion something of the queue goes out, the queue is parked, or
it was empty; in every case what is left to send stays the same. -/
theorem Hole.submitNextQueuedInner (h : Hole w g L c) (attempts : Nat) :
    Keeps w g L (w.submitNextQueuedInner c attempts).2 := by
  have halone : Keeps w g L (w.submitQueueHead c attempts).2 := by
    obtain ⟨g', hlive, hbuilt, hpieces, hbooks⟩ := h.submitQueueHead attempts
    refine ⟨g', hlive, hbuilt, fun d => ?_, hbooks⟩
    rw [Ghost.pend, Ghost.pend, hpieces]
    exact Same.refl _
  rw [Worker.submitNextQueuedInner]
  split
  swap
  · exact halone
  rename_i htwo
  have hholds : ∀ x ∈ g.que c, Holds w.sendCopyPool w.sendSlab w.providedBufs w.generation c x :=
    fun x hx => ((h.core.res.own c).holds x (Ghost.mem_pieces_que hx)).1
  rcases coalescableSlots_spec maxIovecs (h.core.que c) hholds with
    hnil | ⟨init, last, s, rest, hque, hrun, hrest⟩
  · rw [hnil] at htwo
    simp at htwo
  have hne : (w.sendQueues c).queue ≠ [] := by
    intro hnil
    rw [hnil] at htwo
    simp [coalescableSlots, maxIovecs] at htwo
  generalize coalescableSlots w.sendCopyPool maxIovecs (w.sendQueues c).queue = slots at *
  have hlast := (holds_copy_iff hrun.last).mp
    (hholds last (by rw [hque]; exact mem_append_right _ (mem_cons_self ..)))
  have heos : w.sendCopyPool.isEndOfSend s = last.eos := hlast.eos
  have hbounded : (w.sendCopyPool.takeBoundedSend s).1 = last.bounded := hlast.bounded
  simp only [hrun.getLast, heos]
  split
  swap
  · -- No entry is left: the head goes out alone.
    rw [restoreBoundedSend_take]
    exact halone
  rename_i e sl' halloc
  rw [hbounded] at halloc
  obtain ⟨hg, hwf, hcap, hentries⟩ := gathered_allocate h.core.res.slab init halloc
  have hclose := And.intro (h.core.quiet.closePending c) (h.core.quiet.closeSubmitted c)
  rcases Worker.push_cases
      { w with sendCopyPool := (w.sendCopyPool.takeBoundedSend s).2, sendSlab := sl' }
      ⟨⟨.sendMsgCoalesced, c, e⟩, .sendMsg e⟩ with ⟨room, hr⟩ | ⟨room, hr⟩
  · have hcore := h.core.coalesce h.idle hque hrun hg
      { w.sendQueues c with queue := (w.sendQueues c).queue.drop slots.length, parked := false }
      hclose hrest
    obtain ⟨⟨hok, href⟩, -, -⟩ := sqeOk_entry _ _ c (h.core.entry_lt hg.lt)
    simp only [Worker.submitSendMsgCoalesced, hr]
    refine ⟨{ g with
        act := update g.act c (some (mergedPiece e slots init last))
        que := update g.que c rest
        entryOwner := update g.entryOwner e (.conn c) },
      ⟨hcore.pushed hok href room, ?_⟩, rfl, fun d => ?_, rfl⟩
    · exact flags_update h.flags (fun d hd => update_of_ne hd ..)
        (update_self ..) ⟨h.inFlight, rfl⟩
    · rcases eq_or_ne d c with rfl | hd
      · have hinit : ∀ y ∈ init, y.Wf := fun y hy => ((h.core.res.own d).holds y
          (Ghost.mem_pieces_que (by rw [hque]; exact mem_append_left _ hy))).2
        have hsame := same_mergedPiece rest e hrun hinit
        simpa [Ghost.pend, Ghost.pieces, h.idle, hque] using hsame
      · simp only [Ghost.pend, Ghost.pieces, update_of_ne hd]
        exact Same.refl _
  · simp only [Worker.submitSendMsgCoalesced, hr]
    -- The entry is given back, and the bounded send returns to its slot.
    have hrestore := restoreBoundedSend_take
      { w with ring := ⟨w.ring.kernel, room⟩, sendSlab := (sl'.release e).2 } s
    have hres : Res w.sendCopyPool (sl'.release e).2 w.providedBufs w.generation g := by
      refine h.core.res.congr h.core.res.pool hwf rfl hcap (fun _ _ => rfl) (fun e' hin => ?_)
        fun e' hin => ?_
      · rw [hentries e']
        rintro rfl
        rw [hg.free] at hin
        cases hin
      · rwa [hentries e'] at hin
        rintro rfl
        rw [InFlightSendSlab.release_inUse] at hin
        cases hin
    have hhole : Hole { w with ring := ⟨w.ring.kernel, room⟩, sendSlab := (sl'.release e).2 } g L c :=
      ⟨(h.core.setRes hres fun _ _ _ _ _ => rfl).congr {}
        fun _ => ⟨rfl, rfl, rfl⟩, h.idle, h.inFlight, h.flags⟩
    obtain ⟨hlive, hbooks⟩ := hhole.parkQueue hne attempts
    refine ⟨g, ?_, rfl, fun _ => Same.refl _, ?_⟩
    · exact (congrArg (fun v => Live (v.parkQueue c attempts) g L) hrestore).mpr hlive
    · exact (congrArg (fun v => (v.parkQueue c attempts).books) hrestore).trans hbooks

/-! ## Staging -/

/-- The slots and the entries that pieces are made of. -/
def slotsOf (xs : List Piece) : List Nat := xs.flatMap fun x => x.job.slots

def entriesOf (xs : List Piece) : List Nat := xs.flatMap fun x => x.job.entries

/-- `xs` join the line of `c`, and their submissions `bs` are in the hands of the caller. -/
def Ghost.stage (g : Ghost) (c : Nat) (bs : List BuiltSend) (xs : List Piece) : Ghost :=
  { g with
    que := update g.que c (g.que c ++ xs)
    built := update g.built c (g.built c ++ bs)
    slotOwner := fun s => if s ∈ slotsOf xs then .conn c else g.slotOwner s
    entryOwner := fun e => if e ∈ entriesOf xs then .conn c else g.entryOwner e }

theorem Ghost.built_stage (g : Ghost) (c : Nat) (bs : List BuiltSend) (xs : List Piece) :
    (g.stage c bs xs).built = update g.built c (g.built c ++ bs) := rfl

theorem Ghost.pieces_stage (g : Ghost) (c : Nat) (bs : List BuiltSend) (xs : List Piece) (d : Nat) :
    (g.stage c bs xs).pieces d = if d = c then g.pieces c ++ xs else g.pieces d := by
  rcases eq_or_ne d c with rfl | hd
  · simp [Ghost.pieces, Ghost.stage]
  · simp [Ghost.pieces, Ghost.stage, hd]

/-- **Staging.**  Pieces made of free slots and entries join the line of an active connection. -/
theorem Core.stage (h : Core w g L) (bs : List BuiltSend) (xs : List Piece)
    (hactive : (w.connections c).active = true) (hpool : p.Wf) (hslab : sl.Wf)
    (hcount : p.count = w.sendCopyPool.count) (hcap : sl.capacity = w.sendSlab.capacity)
    (hfree : ∀ s ∈ slotsOf xs, (w.sendCopyPool.slots s).inUse = false)
    (hfree' : ∀ e ∈ entriesOf xs, (w.sendSlab.entries e).inUse = false)
    (hslot : ∀ s, s ∉ slotsOf xs → p.slots s = w.sendCopyPool.slots s)
    (hentry : ∀ e, e ∉ entriesOf xs → sl.entries e = w.sendSlab.entries e)
    (hnodup : (slotsOf xs).Nodup ∧ (entriesOf xs).Nodup)
    (hholds : ∀ x ∈ xs, Holds p sl w.providedBufs w.generation c x ∧ x.Wf)
    (hq : List.Forall₂ (Queued p w.generation c) bs xs) :
    Core { w with sendCopyPool := p, sendSlab := sl } (g.stage c bs xs) L := by
  have hslots : ∀ {s}, (w.sendCopyPool.slots s).inUse = true → s ∉ slotsOf xs := by
    intro s hin hs
    rw [hfree s hs] at hin
    cases hin
  have hentries : ∀ {e}, (w.sendSlab.entries e).inUse = true → e ∉ entriesOf xs := by
    intro e hin he
    rw [hfree' e he] at hin
    cases hin
  have hold : ∀ d, ∀ y ∈ g.pieces d,
      (∀ s ∈ y.job.slots, s ∉ slotsOf xs) ∧ ∀ e ∈ y.job.entries, e ∉ entriesOf xs :=
    fun d y hy => ⟨fun s hs => hslots (h.res.slot_inUse hy hs), fun e he =>
      hentries (((h.res.own d).holds y hy).1.entry_inUse he).2.1⟩
  constructor
  · refine h.res.update (.conn c) hpool hslab hcount hcap ?_ ?_ ?_ ?_ ?_
    · intro d hd
      rw [Ghost.pieces_stage, if_neg fun hdc => hd (congrArg Owner.conn hdc)]
    · exact fun s hin _ => ⟨hslot s (hslots hin), if_neg (hslots hin)⟩
    · exact fun e hin _ => ⟨hentry e (hentries hin), if_neg (hentries hin)⟩
    · intro d hd
      obtain rfl : d = c := Owner.conn.inj hd
      have hown := h.res.own d
      have hpieces : (g.stage d bs xs).pieces d = g.pieces d ++ xs := by
        rw [Ghost.pieces_stage, if_pos rfl]
      constructor <;> rw [hpieces]
      · intro y hy
        rcases mem_append.mp hy with hy | hy
        · exact ⟨(hown.holds y hy).1.congr hcount hcap
            (fun s hs => hslot s ((hold d y hy).1 s hs))
            fun e he => congrArg _ (hentry e ((hold d y hy).2 e he)), (hown.holds y hy).2⟩
        · exact hholds y hy
      · rw [flatMap_append]
        refine nodup_append.mpr ⟨hown.slots, hnodup.1, fun s hs t ht hst => ?_⟩
        obtain ⟨y, hy, hsy⟩ := mem_flatMap.mp hs
        exact (hold d y hy).1 s hsy (hst ▸ ht)
      · intro y hy s hs
        rcases mem_append.mp hy with hy | hy
        · exact (if_neg ((hold d y hy).1 s hs)).trans (hown.slotOwner y hy s hs)
        · exact if_pos (mem_flatMap.mpr ⟨y, hy, hs⟩)
      · rw [flatMap_append]
        refine nodup_append.mpr ⟨hown.entries, hnodup.2, fun e he e' he' hee => ?_⟩
        obtain ⟨y, hy, hey⟩ := mem_flatMap.mp he
        exact (hold d y hy).2 e hey (hee ▸ he')
      · intro y hy e he
        rcases mem_append.mp hy with hy | hy
        · exact (if_neg ((hold d y hy).2 e he)).trans (hown.entryOwner y hy e he)
        · exact if_pos (mem_flatMap.mpr ⟨y, hy, he⟩)
    · intro e ho hin haw
      by_cases he : e ∈ entriesOf xs
      · obtain ⟨y, hy, hey⟩ := mem_flatMap.mp he
        rw [((hholds y hy).1.entry_inUse hey).2.2] at haw
        cases haw
      · rw [hentry e he] at hin haw
        rcases ho with ho | ho
        · rw [(h.res.zombie e hin haw).owner] at ho
          cases ho
        · rw [hin] at ho
          cases ho
  · intro d
    have hque := forall₂_queued_congr (h.que d) fun y hy s hs =>
      hslot s ((hold d y (Ghost.mem_pieces_que hy)).1 s hs)
    rcases eq_or_ne d c with rfl | hd
    · simp only [Ghost.stage, update_self, ← append_assoc]
      exact rel_append hque hq
    · simp only [Ghost.stage, update_of_ne hd]
      exact hque
  · refine h.loc.congr_pool fun e he d s href => hslot s ?_
    obtain ⟨z, hz, hjob⟩ := h.loc.act_of_slot he href
    exact (hold d z (Ghost.mem_pieces_act hz)).1 s (by rw [hjob]; exact mem_singleton_self s)
  · refine { h.quiet with active := fun d hd => ?_ }
    rw [Ghost.pieces_stage] at hd
    rcases eq_or_ne d c with rfl | hdc
    · exact hactive
    · rw [if_neg hdc] at hd
      exact h.quiet.active d hd

end Ringline.Uring
