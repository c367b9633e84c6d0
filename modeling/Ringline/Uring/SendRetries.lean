import Ringline.Uring.SendCompletions

/-!
# Draining the retry lists

Each turn of the event loop takes the retry lists one by one and works through what was on them.
As long as no entry has used up its tries, a drain moves every piece it finds into the kernel or
back onto its list, and starts a parked queue again; nothing leaves a line (`Kept`).

`Live.drain` is the induction that the drains of pieces share: a step that deals with one entry, for
as long as what it needs to know about the others survives.
-/

set_option autoImplicit false

namespace Ringline.Uring

open Streams (Same)
open Live

variable {w : Worker} {g : Ghost} {L : List (Nat × Ref)} {c : Nat} {x : Piece}

/-- What dealing with one entry leaves: nothing has left a line, and every connection is in the
hands it was in. -/
def Retried (w : Worker) (g : Ghost) (L : List (Nat × Ref)) (w' : Worker) : Prop :=
  ∃ g', Live w' g' L ∧ Kept w g w' g' ∧ w'.generation = w.generation

theorem Moved.retried {w' : Worker} (h : Moved w g L w') : Retried w g L w' :=
  ⟨g, h.live, .of_books h.books, h.generation⟩

/-- Work through a list: each entry `e` stands for the piece `ref e`, and `P` is what has to be
known about it when its turn comes. -/
theorem Live.drain {ε : Type} {ref : ε → Nat × Ref} {step : Worker → ε → Worker}
    {P : Worker → ε → Prop} {w₀ : Worker}
    (hstep : ∀ w g e L, Live w g (ref e :: L) → P w e → Retried w g L (step w e))
    (hcongr : ∀ w w' e, w'.generation = w.generation → P w e → P w' e)
    {l : List ε} (h : Live w g (l.map ref ++ L)) (hbooks : w.books = w₀.books)
    (hP : ∀ e ∈ l, P w e) :
    Keeps w₀ g L (l.foldl step w) := by
  induction l generalizing w w₀ g with
  | nil => exact ⟨g, h, .of_books hbooks⟩
  | cons e l ih =>
    obtain ⟨g₁, hlive, hkept, hgen⟩ := hstep w g e _ h (hP e (List.mem_cons_self ..))
    obtain ⟨g', hlive', hkept'⟩ :=
      ih hlive rfl fun e' he' => hcongr w _ e' hgen (hP e' (List.mem_cons_of_mem _ he'))
    exact ⟨g', hlive', (Kept.of_books hbooks).trans (hkept.trans hkept')⟩

/-! ## Entries that still belong to somebody -/

theorem Live.act_of_entry {zc : Bool} {e : Nat} (h : Live w g ((c, .entry zc e) :: L)) :
    ∃ x ss, g.act c = some x ∧ x.job = .gather zc e ss := by
  obtain ⟨x, hx, hr⟩ := h.core.loc.act_of_count
    (Nat.add_pos_right _ (List.count_pos_iff.mpr (List.mem_cons_self ..)))
  obtain ⟨ss, hjob⟩ := Job.eq_gather_of_ref hr
  exact ⟨x, ss, hx, hjob⟩

theorem Live.act_of_slot {s : Nat} (h : Live w g ((c, .slot s) :: L)) :
    ∃ x, g.act c = some x ∧ x.job = .copy s := by
  obtain ⟨x, hx, hr⟩ := h.core.loc.act_of_count
    (Nat.add_pos_right _ (List.count_pos_iff.mpr (List.mem_cons_self ..)))
  exact ⟨x, hx, Job.eq_copy_of_ref hr⟩

theorem Live.retryIdentityOk (h : Live w g L) (hx : g.act c = some x) {generation : Nat}
    (hgen : generation = w.generation c) : w.retryIdentityOk c generation = true := by
  have hactive : (w.connections c).active = true := by
    refine h.core.quiet.active c ?_
    rw [Ghost.pieces_act hx]
    exact List.cons_ne_nil _ _
  simp [Worker.retryIdentityOk, hactive, hgen]

/-! ## The retry lists of the pieces -/

theorem Live.retryZc (w : Worker) (g : Ghost) (e : SlabRetry) (L : List (Nat × Ref))
    (h : Live w g (e.ref true :: L)) (hP : e.generation = w.generation e.connIndex ∧ e.retries < 2) :
    Retried w g L (w.retryZc e) := by
  obtain ⟨x, ss, hx, hjob⟩ := act_of_entry h
  obtain ⟨hholds, -⟩ := h.core.holdsGather hx hjob
  have hin : w.sendSlab.inUse e.slabIdx = true := hholds.inUse
  obtain ⟨-, -, ⟨hok, href⟩⟩ :=
    sqeOk_entry w.sendCopyPool w.generation e.connIndex (h.core.entry_lt hholds.lt)
  simp only [Worker.retryZc, hin, h.retryIdentityOk hx hP.1, h.closeSubmitted_eq, Bool.not_true,
    Bool.or_self, Bool.false_eq_true, if_false, if_neg (Nat.not_le.mpr hP.2)]
  refine Moved.retried ?_
  exact h.push hok href fun _ => h.moved _ _ _ _ _ (h.core.loc.pushZcRetry rfl hP.1)

theorem Live.retryCoalesced (w : Worker) (g : Ghost) (e : SlabRetry) (L : List (Nat × Ref))
    (h : Live w g (e.ref false :: L))
    (hP : e.generation = w.generation e.connIndex ∧ e.retries < 2) :
    Retried w g L (w.retryCoalesced e) := by
  obtain ⟨x, ss, hx, hjob⟩ := act_of_entry h
  obtain ⟨hholds, -⟩ := h.core.holdsGather hx hjob
  have hin : w.sendSlab.inUse e.slabIdx = true := hholds.inUse
  obtain ⟨⟨hok, href⟩, -⟩ :=
    sqeOk_entry w.sendCopyPool w.generation e.connIndex (h.core.entry_lt hholds.lt)
  simp only [Worker.retryCoalesced, hin, h.retryIdentityOk hx hP.1, h.closeSubmitted_eq,
    Bool.not_true, Bool.or_self, Bool.false_eq_true, if_false, if_neg (Nat.not_le.mpr hP.2)]
  refine Moved.retried ?_
  exact h.push hok href fun _ => h.moved _ _ _ _ _ (h.core.loc.pushCoalescedRetry rfl hP.1)

theorem Live.retryCopy (w : Worker) (g : Ghost) (e : CopyRetry) (L : List (Nat × Ref))
    (h : Live w g (e.ref :: L))
    (hP : e.generation = w.generation e.connIndex ∧ (e.tag = .send ∨ e.tag = .tlsSend) ∧
      e.retries < 2) : Retried w g L (w.retryCopy e) := by
  obtain ⟨hgen, htag, hretries⟩ := hP
  obtain ⟨x, hx, hjob⟩ := act_of_slot h
  obtain ⟨hholds, -⟩ := h.core.holdsCopy hx hjob
  have hin : w.sendCopyPool.inUse e.poolSlot = true := hholds.inUse
  obtain ⟨hok, href⟩ :=
    sqeOk_copySqe w.sendCopyPool w.generation e.connIndex htag (h.core.slot_lt hholds.lt)
  simp only [Worker.retryCopy, hin, h.retryIdentityOk hx hgen, h.closeSubmitted_eq, Bool.not_true,
    Bool.or_self, Bool.false_eq_true, if_false, if_neg (Nat.not_le.mpr hretries),
    SendCopyPool.currentPtrRemaining, submitCopyTagged_eq htag]
  rw [← hgen] at hok href
  refine Moved.retried ?_
  exact h.push hok href fun _ => h.moved _ _ _ _ _ (h.core.loc.pushCopyRetry rfl hgen htag)

theorem Live.retryPollout (w : Worker) (g : Ghost) (e : PolloutRetry) (L : List (Nat × Ref))
    (h : Live w g (e.ref :: L)) (hP : e.generation = w.generation e.connIndex ∧ e.retries < 3) :
    Retried w g L (w.retryPollout e) := by
  obtain ⟨x, hx, hjob⟩ := act_of_slot h
  obtain ⟨hholds, -⟩ := h.core.holdsCopy hx hjob
  have hin : w.sendCopyPool.inUse e.poolSlot = true := hholds.inUse
  obtain ⟨hok, href⟩ :=
    sqeOk_pollout w.sendCopyPool w.generation e.connIndex e.isTls (h.core.slot_lt hholds.lt)
  rw [← hP.1] at hok href
  simp only [Worker.retryPollout, hin, h.retryIdentityOk hx hP.1, h.closeSubmitted_eq, Bool.not_true,
    Bool.or_self, Bool.false_eq_true, if_false, if_neg (Nat.not_le.mpr hP.2)]
  refine Moved.retried ?_
  split
  · exact h.moved _ _ _ _ _ (h.core.loc.pushPolloutRetry rfl hP.1)
  · exact h.push hok href fun _ => h.moved _ _ _ _ _ (h.core.loc.pushPolloutRetry rfl hP.1)

/-! ## Parked queues -/

/-- A parked connection is one whose queue is waiting to be looked at. -/
theorem Live.hole_of_parked (h : Live w g L) (hpark : (w.sendQueues c).parked = true) :
    Hole w g L c := by
  have hflags := h.flags c
  rw [hflags.parked, Bool.and_eq_true, Option.isNone_iff_eq_none] at hpark
  refine ⟨h.core, hpark.1, ?_, fun d _ => h.flags d⟩
  rw [hflags.inFlight, hpark.2, Bool.or_true]

theorem Live.retrySend (w : Worker) (g : Ghost) (e : SendRetry) (L : List (Nat × Ref))
    (h : Live w g L) (hP : e.attempts < 2) : Keeps w g L (w.retrySend e) := by
  rw [Worker.retrySend]
  split
  · exact ⟨g, h, .of_books rfl⟩
  · split
    · exact ⟨g, h, .of_books rfl⟩
    · rename_i hpark
      rw [if_neg (Nat.not_le.mpr hP)]
      have hparked : (w.sendQueues e.connIndex).parked = true := by
        rw [Bool.or_eq_true, not_or, Bool.not_eq_true', Bool.not_eq_false] at hpark
        exact hpark.1
      exact (h.hole_of_parked hparked).submitNextQueuedInner (e.attempts + 1)

/-! ## The drains -/

section

variable (h : Live w g [])

include h

theorem Live.drainZcRetries (hP : ∀ e ∈ w.pendingZcRetries, e.retries < 2) :
    Keeps w g [] w.drainZcRetries := by
  have htaken : Live { w with pendingZcRetries := [] } g
      (w.pendingZcRetries.map (SlabRetry.ref true) ++ []) :=
    (h.moved _ _ _ _ _ h.core.loc.takeZc).live
  exact drain retryZc (fun _ _ _ hgen hP => hgen ▸ hP) htaken rfl
    fun e he => ⟨h.core.loc.zc e he, hP e he⟩

theorem Live.drainCoalescedRetries (hP : ∀ e ∈ w.pendingCoalescedRetries, e.retries < 2) :
    Keeps w g [] w.drainCoalescedRetries := by
  have htaken : Live { w with pendingCoalescedRetries := [] } g
      (w.pendingCoalescedRetries.map (SlabRetry.ref false) ++ []) :=
    (h.moved _ _ _ _ _ h.core.loc.takeCoalesced).live
  exact drain retryCoalesced (fun _ _ _ hgen hP => hgen ▸ hP) htaken rfl
    fun e he => ⟨h.core.loc.coalesced e he, hP e he⟩

theorem Live.drainCopyRetries (hP : ∀ e ∈ w.pendingCopyRetries, e.retries < 2) :
    Keeps w g [] w.drainCopyRetries := by
  have htaken : Live { w with pendingCopyRetries := [] } g
      (w.pendingCopyRetries.map CopyRetry.ref ++ []) :=
    (h.moved _ _ _ _ _ h.core.loc.takeCopy).live
  exact drain retryCopy (fun _ _ _ hgen hP => hgen ▸ hP) htaken rfl
    fun e he => ⟨(h.core.loc.copy e he).1, (h.core.loc.copy e he).2, hP e he⟩

theorem Live.drainSendPolloutRetries (hP : ∀ e ∈ w.pendingSendPolloutRetries, e.retries < 3) :
    Keeps w g [] w.drainSendPolloutRetries := by
  have htaken : Live { w with pendingSendPolloutRetries := [] } g
      (w.pendingSendPolloutRetries.map PolloutRetry.ref ++ []) :=
    (h.moved _ _ _ _ _ h.core.loc.takePollout).live
  exact drain retryPollout (fun _ _ _ hgen hP => hgen ▸ hP) htaken rfl
    fun e he => ⟨h.core.loc.pollout e he, hP e he⟩

theorem Live.drainSendRetries (hP : ∀ e ∈ w.pendingSendRetries, e.attempts < 2) :
    Keeps w g [] w.drainSendRetries := by
  refine List.foldlRecOn (motive := Keeps w g [])
    w.pendingSendRetries _ ⟨g, h.congr {} rfl, .of_books rfl⟩
    fun w' hw' e he => ?_
  obtain ⟨g₁, hlive, hkept⟩ := hw'
  obtain ⟨g', hlive', hkept'⟩ := retrySend w' g₁ e [] hlive (hP e he)
  exact ⟨g', hlive', hkept.trans hkept'⟩

end

end Ringline.Uring
