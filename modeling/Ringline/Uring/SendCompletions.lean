import Ringline.Uring.SendNext

/-!
# What a completion does to a connection's line

A completion of a send reports `n` bytes of the active piece.  Either the piece stays at the head of
the line with those bytes gone (`Progressed`), or that was all of it: it leaves the line, and a
bounded send it carried is settled with its logical length (`Finished`).  Every handler of the send
side does one of the two, as long as the completion reports bytes or asks for another try, and
every retry list only moves pieces from one place to another (`Kept`).
-/

set_option autoImplicit false

namespace Ringline.Uring

open Streams (Same)
open UserData
open Ghost
open Function

variable {w : Worker} {g : Ghost} {L : List (Nat × Ref)} {c : Nat} {x : Piece}
variable {e n s : Nat} {ss : List Nat} {ud : UserData}

/-! ## The outcomes -/

/-- The first `n` bytes of the head of `c`'s line are out. -/
def Progressed (w : Worker) (g : Ghost) (w' : Worker) (g' : Ghost) (c n : Nat) : Prop :=
  ∃ x rest, g.pieces c = x :: rest ∧ n ≤ x.bytes.length ∧ g'.built = g.built ∧
    (∀ d, Same (update g.pend c
      (⟨x.bytes.drop n, x.bounded⟩ :: rest.map Piece.segment) d) (g'.pend d)) ∧
    w'.books = w.books

/-- The head of `c`'s line is out, all `n` bytes of it, and what it carried is settled. -/
def Finished (w : Worker) (g : Ghost) (w' : Worker) (g' : Ghost) (c n : Nat) : Prop :=
  ∃ x rest, g.pieces c = x :: rest ∧ n = x.bytes.length ∧ g'.built = g.built ∧
    (∀ d, Same (update g.pend c (rest.map Piece.segment) d) (g'.pend d)) ∧
    w'.books =
      (w.settled ++ (x.bounded.map fun b => (b.1, (.ok b.2 : IoResult))).toList,
        w.boundedSendCompletions)

/-- One of the two outcomes of a completion that reports `n` bytes. -/
def Sent (w : Worker) (g : Ghost) (w' : Worker) (g' : Ghost) (c n : Nat) : Prop :=
  Progressed w g w' g' c n ∨ Finished w g w' g' c n

/-- The invariant holds again, and `n` bytes of `c`'s line are out. -/
def Sends (w : Worker) (g : Ghost) (L : List (Nat × Ref)) (c n : Nat) (w' : Worker) : Prop :=
  ∃ g', Live w' g' L ∧ Sent w g w' g' c n

variable {w' : Worker} {g' g'' : Ghost} {result : Int}

theorem Kept.of_books (h : w'.books = w.books) : Kept w g w' g :=
  ⟨rfl, fun _ => Same.refl _, h⟩

theorem Kept.trans {w'' : Worker} (h : Kept w g w' g') (h' : Kept w' g' w'' g'') : Kept w g w'' g'' :=
  ⟨h'.built.trans h.built, fun d => (h.same d).trans (h'.same d), h'.books.trans h.books⟩

/-- Replacing the active piece of `c` replaces the head of its line. -/
theorem Ghost.pend_setAct (g : Ghost) (c : Nat) (y : Option Piece) (so eo : Nat → Owner) (d : Nat) :
    pend { g with act := update g.act c y, slotOwner := so, entryOwner := eo } d =
      update g.pend c ((y.toList ++ g.que c).map Piece.segment) d := by
  rcases eq_or_ne d c with rfl | hd
  · simp only [pend, pieces, update_self]
  · simp only [pend, pieces, update_of_ne hd]

section

variable (hx : g.act c = some x)

include hx

theorem Ghost.pieces_act : g.pieces c = x :: g.que c := by
  rw [pieces, hx]
  rfl

/-- The active piece loses its first bytes, and then something moves. -/
theorem Progressed.of_kept (hn : n ≤ x.bytes.length) {w'' : Worker}
    (hbooks : w'.books = w.books)
    (h : Kept w' { g with act := update g.act c (some { x with bytes := x.bytes.drop n }) }
      w'' g'') : Progressed w g w'' g'' c n := by
  refine ⟨x, g.que c, pieces_act hx, hn, h.built, fun d => ?_, h.books.trans hbooks⟩
  have hsame := h.same d
  rwa [pend_setAct g c _ g.slotOwner g.entryOwner] at hsame

/-- Nothing was sent. -/
theorem Progressed.of_kept_zero (h : Kept w g w' g') : Progressed w g w' g' c 0 := by
  refine ⟨x, g.que c, pieces_act hx, Nat.zero_le _, h.built, fun d => ?_, h.books⟩
  rcases eq_or_ne d c with rfl | hd
  · have hsame := h.same d
    rw [pend, pieces_act hx] at hsame
    simpa only [update_self, List.drop_zero, List.map_cons, Piece.segment] using hsame
  · rw [update_of_ne hd]
    exact h.same d

/-- The active piece is gone, and then something moves and what it carried is settled. -/
theorem Finished.of_kept {w'' : Worker} {so eo : Nat → Owner}
    (hbooks : w'.books = w.books)
    (h : Kept w' { g with act := update g.act c none, slotOwner := so, entryOwner := eo }
      w'' g'') {v : Worker} (hv : v.books =
      (w''.settled ++ (x.bounded.map fun b => (b.1, (.ok b.2 : IoResult))).toList,
        w''.boundedSendCompletions)) : Finished w g v g'' c x.bytes.length := by
  refine ⟨x, g.que c, pieces_act hx, rfl, h.built, fun d => ?_, ?_⟩
  · have hsame := h.same d
    rwa [pend_setAct] at hsame
  · have hsettled : w''.settled = w.settled := congrArg Prod.fst (h.books.trans hbooks)
    have hqueued : w''.boundedSendCompletions = w.boundedSendCompletions :=
      congrArg Prod.snd (h.books.trans hbooks)
    rw [hv, hsettled, hqueued]

end

/-! ## Tails the handlers share -/

@[simp] theorem Worker.books_wakeSend (w : Worker) (d : Nat) (result : IoResult) :
    (w.wakeSend d result).books = w.books := by
  rw [Worker.wakeSend]
  split <;> rfl

@[simp] theorem Worker.books_settleCarried (w : Worker) (bounded : Option (BoundedSendId × Nat))
    (result : Nat → IoResult) :
    (w.settleCarried bounded result).books =
      (w.settled ++ (bounded.map fun b => (b.1, result b.2)).toList, w.boundedSendCompletions) := by
  rcases bounded with _ | ⟨id, len⟩
  · simp [Worker.settleCarried, Worker.books]
  · rfl

theorem Hole.setAcked (h : Hole w g L c) (f : Nat → Nat) :
    Hole (w.modifySends c fun s => { s with ackedBytes := f s.ackedBytes }) g L c where
  core := h.core.setAcked c f
  idle := h.idle
  inFlight := by simpa [Worker.modifySends] using h.inFlight
  flags d hd := by simpa [Worker.modifySends, update_of_ne hd] using h.flags d hd

/-- After a completion the next send goes out, and a pending close gets its turn. -/
theorem Hole.next (h : Hole w g L c) :
    ∃ g', Live (w.submitNextQueued c).2 g' L ∧ Kept w g (w.submitNextQueued c).2 g' ∧
      (w.submitNextQueued c).2.noteSendFinalized c = (w.submitNextQueued c).2 := by
  obtain ⟨g', hlive, hkept⟩ := h.submitNextQueuedInner 0
  exact ⟨g', hlive, hkept, hlive.core.tryFinalizeClose_eq c⟩

/-- What follows once a copied or coalesced send is out and released. -/
def Worker.afterRelease (w : Worker) (ci total : Nat) (endOfSend : Bool)
    (bounded : Option (BoundedSendId × Nat)) : Worker :=
  let w := w.modifySends ci fun s => { s with ackedBytes := wrap32 (s.ackedBytes + total) }
  let w := (w.submitNextQueued ci).2.noteSendFinalized ci
  let w := w.settleCarried bounded fun logicalLen => .ok logicalLen
  if endOfSend then
    let acked := (w.sendQueues ci).ackedBytes
    (w.modifySends ci fun s => { s with ackedBytes := 0 }).wakeSend ci (.ok acked)
  else w

theorem completeCopy_eq (w : Worker) (ci slot : Nat) :
    w.completeCopy ci slot = (w.takeAndRelease slot).2.afterRelease ci
      (w.sendCopyPool.originalLen slot) (w.sendCopyPool.isEndOfSend slot)
      (w.takeAndRelease slot).1 := rfl

theorem completeCoalesced_eq (w : Worker) (ci slabIdx : Nat) :
    w.completeCoalesced ci slabIdx = (w.takeAndReleaseCoalesced slabIdx).2.afterRelease ci
      (w.sendSlab.entries slabIdx).totalLen (w.sendSlab.entries slabIdx).endOfSend
      (w.takeAndReleaseCoalesced slabIdx).1 := rfl

theorem Hole.afterRelease {so eo : Nat → Owner}
    (h : Hole w' { g with act := update g.act c none, slotOwner := so, entryOwner := eo }
      L c) (hx : g.act c = some x) (hbooks : w'.books = w.books) (total : Nat) (endOfSend : Bool) :
    Sends w g L c x.bytes.length (w'.afterRelease c total endOfSend x.bounded) := by
  obtain ⟨g', hlive, hkept, hclose⟩ := (h.setAcked fun a => wrap32 (a + total)).next
  have hset := hlive.settleCarried x.bounded fun logicalLen => .ok logicalLen
  rw [Worker.afterRelease]
  simp only [hclose]
  refine ⟨g', ?_, .inr (Finished.of_kept hx ?_ hkept ?_)⟩
  · split
    · exact (hset.setAcked c fun _ => 0).wakeSend c _
    · exact hset
  · exact hbooks
  · split
    · rw [Worker.books_wakeSend]
      exact Worker.books_settleCarried _ _ _
    · exact Worker.books_settleCarried _ _ _

theorem Hole.settleCarried (h : Hole w g L c) (bounded : Option (BoundedSendId × Nat))
    (result : Nat → IoResult) : Hole (w.settleCarried bounded result) g L c := by
  rcases bounded with _ | ⟨id, len⟩
  · exact h
  · exact h.congr {} rfl

/-- What a completion may report for a piece with `left` bytes to go: some of them, or that the
socket was not ready. -/
def Reports (result : Int) (left : Nat) : Prop :=
  (0 < result ∧ result.toNat ≤ left) ∨ isEagain result = true

theorem isEagain_neg (h : isEagain result = true) : ¬ 0 < result ∧ result.toNat = 0 := by
  have hneg : result < 0 := of_decide_eq_true (Bool.and_eq_true _ _ ▸ h).1
  omega

/-- The socket was not ready, and the piece waits. -/
theorem Moved.waits (h : Moved w g L w') (hx : g.act c = some x) : Sends w g L c 0 w' :=
  ⟨g, h.live, .inl (Progressed.of_kept_zero hx (.of_books h.books))⟩

/-- Some bytes are out, and the piece moves with the others. -/
theorem Moved.progressed {v : Worker} (hx : g.act c = some x) (hn : n < x.bytes.length)
    (h : Moved v { g with act := update g.act c (some { x with bytes := x.bytes.drop n }) } L w')
    (hbooks : v.books = w.books) : Sends w g L c n w' :=
  ⟨_, h.live, .inl (Progressed.of_kept hx hn.le hbooks (.of_books h.books))⟩

theorem Live.closeSubmitted_eq (h : Live w g L) (d : Nat) : w.closeSubmitted d = false :=
  h.core.quiet.closeSubmitted d

/-! ## Copy sends -/

section

variable (h : Live w g ((c, .slot s) :: L)) (hx : g.act c = some x) (hjob : x.job = .copy s)

include h hx hjob

theorem Live.completeCopy : Sends w g L c x.bytes.length (w.completeCopy c s) := by
  obtain ⟨hbounded, hhole⟩ := h.releaseCopy hx hjob
  rw [completeCopy_eq, hbounded]
  exact hhole.afterRelease hx rfl _ _

/-- Part of a copy send is out, and the rest is submitted again. -/
theorem Live.resumeCopy {tag : OpTag} (htag : tag = .send ∨ tag = .tlsSend)
    (hn : n < x.bytes.length) :
    ∃ p ptr len, w.sendCopyPool.tryAdvance s n = some (p, ptr, len) ∧
      Worker.closeSubmitted { w with sendCopyPool := p } c = false ∧
      Sends w g L c n (Worker.resubmitCopy { w with sendCopyPool := p } tag c ptr len s) := by
  obtain ⟨p, htry, hlt, hlive⟩ := h.advanceCopy hx hjob hn
  exact ⟨p, _, _, htry, hlive.closeSubmitted_eq c,
    Moved.progressed hx hn (hlive.resubmitCopy htag hlt) rfl⟩

theorem Live.awaitPollout (isTls : Bool) : Sends w g L c 0 (w.armSendPollout c s isTls) :=
  (h.armSendPollout isTls (h.core.holdsCopy hx hjob).1.lt).waits hx

theorem Live.handleSend (hci : ud.connIndex = c)
    (hpay : ud.payload = sendPayload s (w.generation c))
    (hres : Reports result x.bytes.length) :
    Sends w g L c result.toNat (w.handleSend ud result) := by
  obtain ⟨hholds, -⟩ := h.core.holdsCopy hx hjob
  have hlt := h.core.slot_lt hholds.lt
  have hin : w.sendCopyPool.inUse s = true := hholds.inUse
  have hchain : (w.chains c).isSome = false := by rw [h.core.quiet.chain c]; rfl
  simp only [Worker.handleSend, hci, hpay, sendPayloadSlot_sendPayload hlt,
    sendPayloadGen_sendPayload hlt, hin, hchain, Bool.not_true, Bool.false_eq_true, if_false,
    ne_eq, not_true]
  rcases hres with ⟨hpos, hle⟩ | heagain
  · rw [if_pos hpos]
    rcases Nat.lt_or_eq_of_le hle with hn | hn
    · obtain ⟨p, ptr, len, htry, hclose, hout⟩ := h.resumeCopy hx hjob (.inl rfl) hn
      simpa only [htry, hclose, Bool.false_eq_true, if_false] using hout
    · rw [hn]
      simp only [hholds.advance_eq_none le_rfl]
      exact h.completeCopy hx hjob
  · obtain ⟨hneg, hzero⟩ := isEagain_neg heagain
    rw [if_neg hneg, if_pos heagain, h.closeSubmitted_eq, hzero]
    simpa using h.awaitPollout hx hjob false

/-- A chunk of ciphertext settles what it carries before the next send goes out. -/
theorem Live.completeTls (result : Nat → IoResult) (hresult : ∀ n, result n = .ok n) :
    Sends w g L c x.bytes.length ((((w.takeAndRelease s).2.settleCarried (w.takeAndRelease s).1
      result).submitNextQueued c).2.noteSendFinalized c) := by
  obtain ⟨hbounded, hhole⟩ := h.releaseCopy hx hjob
  obtain ⟨g', hlive, hkept, hclose⟩ := (hhole.settleCarried (w.takeAndRelease s).1 result).next
  rw [hclose]
  refine ⟨g', hlive, .inr ⟨x, g.que c, pieces_act hx, rfl, hkept.built, fun d => ?_, ?_⟩⟩
  · have hsame := hkept.same d
    rwa [pend_setAct g c _ g.slotOwner g.entryOwner] at hsame
  · rw [hkept.books, Worker.books_settleCarried, hbounded]
    simp only [hresult]
    rfl

theorem Live.handleTlsSend (hci : ud.connIndex = c)
    (hpay : ud.payload = sendPayload s (w.generation c))
    (hres : Reports result x.bytes.length) :
    Sends w g L c result.toNat (w.handleTlsSend ud result) := by
  obtain ⟨hholds, -⟩ := h.core.holdsCopy hx hjob
  have hlt := h.core.slot_lt hholds.lt
  have hin : w.sendCopyPool.inUse s = true := hholds.inUse
  simp only [Worker.handleTlsSend, hci, hpay, sendPayloadSlot_sendPayload hlt,
    sendPayloadGen_sendPayload hlt, hin, Bool.not_true, Bool.false_eq_true, if_false,
    ne_eq, not_true]
  rcases hres with ⟨hpos, hle⟩ | heagain
  · rw [if_pos hpos]
    rcases Nat.lt_or_eq_of_le hle with hn | hn
    · obtain ⟨p, ptr, len, htry, hclose, hout⟩ := h.resumeCopy hx hjob (.inr rfl) hn
      simpa only [htry, hclose, Bool.false_eq_true, if_false] using hout
    · rw [hn]
      simp only [hholds.advance_eq_none le_rfl, if_pos hpos.le]
      exact h.completeTls hx hjob _ fun _ => if_pos hpos
  · obtain ⟨hneg, hzero⟩ := isEagain_neg heagain
    rw [if_neg hneg, if_pos heagain, h.closeSubmitted_eq, hzero]
    simpa using h.awaitPollout hx hjob true

/-- The socket is writable again. -/
theorem Live.handleSendPollout {isTls : Bool} (hci : ud.connIndex = c)
    (hpay : ud.payload = sendPolloutPayload s isTls (w.generation c)) (hres : 0 ≤ result) :
    Keeps w g L (w.handleSendPollout ud result) := by
  obtain ⟨hholds, -⟩ := h.core.holdsCopy hx hjob
  have hlt := h.core.slot_lt hholds.lt
  have hin : w.sendCopyPool.inUse s = true := hholds.inUse
  simp only [Worker.handleSendPollout, hci, hpay, sendPayloadSlot_sendPolloutPayload hlt,
    sendPolloutGen_sendPolloutPayload hlt, hin, Bool.not_true, Bool.false_eq_true, if_false,
    ne_eq, not_true, if_neg (Int.not_lt.mpr hres), h.closeSubmitted_eq]
  have htag : ∀ b : Bool, (if b = true then OpTag.tlsSend else OpTag.send) = .send ∨
      (if b = true then OpTag.tlsSend else OpTag.send) = .tlsSend := by decide
  obtain ⟨hlive, hbooks, -⟩ := h.resubmitCopy (htag _) hholds.lt
  exact ⟨g, hlive, .of_books hbooks⟩

end

/-! ## Coalesced sends -/

theorem Live.slabIdentityOk {zc : Bool} (h : Live w g L) (hx : g.act c = some x)
    (hjob : x.job = .gather zc e ss) : w.slabIdentityOk c e = true := by
  obtain ⟨hholds, -⟩ := h.core.holdsGather hx hjob
  simp [Worker.slabIdentityOk, hholds.connIndex, hholds.generation]

section

variable (h : Live w g ((c, .entry false e) :: L)) (hx : g.act c = some x)
variable (hjob : x.job = .gather false e ss)

include h hx hjob

theorem Live.completeCoalesced : Sends w g L c x.bytes.length
    (Worker.completeCoalesced { w with sendSlab := (w.sendSlab.tryAdvance e n).2 } c e) := by
  obtain ⟨hbounded, hhole, hbooks⟩ :=
    h.releaseCoalesced { w with sendSlab := (w.sendSlab.tryAdvance e n).2 } hx hjob rfl
  rw [completeCoalesced_eq, hbounded]
  exact hhole.afterRelease hx hbooks _ _

theorem Live.handleSendMsgCoalesced (hci : ud.connIndex = c) (hpay : ud.payload = e)
    (hres : Reports result x.bytes.length) :
    Sends w g L c result.toNat (w.handleSendMsgCoalesced ud result) := by
  obtain ⟨hholds, -⟩ := h.core.holdsGather hx hjob
  have hlt := h.core.entry_lt hholds.lt
  have hin : w.sendSlab.inUse e = true := hholds.inUse
  simp only [Worker.handleSendMsgCoalesced, hci, hpay, Nat.mod_eq_of_lt hlt, hin,
    h.slabIdentityOk hx hjob, Bool.not_true, Bool.false_eq_true, if_false]
  rcases hres with ⟨hpos, hle⟩ | heagain
  · rw [if_pos hpos]
    rcases Nat.lt_or_eq_of_le hle with hn | hn
    · obtain ⟨hmore, hlive⟩ := h.advanceGather hx hjob hn
      simp only [hmore, if_true, hlive.closeSubmitted_eq, Bool.false_eq_true, if_false]
      exact Moved.progressed hx hn (hlive.resubmitCoalesced hholds.lt) rfl
    · rw [hn]
      simp only [hholds.advance_done le_rfl, Bool.false_eq_true, if_false]
      exact h.completeCoalesced hx hjob
  · obtain ⟨hneg, hzero⟩ := isEagain_neg heagain
    rw [if_neg hneg, if_pos heagain, h.closeSubmitted_eq, hzero]
    obtain ⟨-, ⟨hok, href⟩, -⟩ := sqeOk_entry w.sendCopyPool w.generation c hlt
    simp only [Bool.false_eq_true, if_false]
    refine Moved.waits ?_ hx
    exact h.push hok href fun _ => h.moved _ _ _ _ _ (h.core.loc.pushCoalescedRetry rfl rfl)

theorem Live.handleSendMsgCoalescedPollout (hci : ud.connIndex = c) (hpay : ud.payload = e)
    (hres : 0 ≤ result) : Keeps w g L (w.handleSendMsgCoalescedPollout ud result) := by
  obtain ⟨hholds, -⟩ := h.core.holdsGather hx hjob
  have hlt := h.core.entry_lt hholds.lt
  have hin : w.sendSlab.inUse e = true := hholds.inUse
  simp only [Worker.handleSendMsgCoalescedPollout, hci, hpay, Nat.mod_eq_of_lt hlt, hin,
    h.slabIdentityOk hx hjob, Bool.not_true, Bool.false_eq_true, if_false,
    if_neg (Int.not_lt.mpr hres), h.closeSubmitted_eq]
  have hmoved := h.resubmitCoalesced hholds.lt
  exact ⟨g, hmoved.live, .of_books hmoved.books⟩

end

/-! ## Zero-copy sends -/

/-- A notification that a completion announces is only counted. -/
theorem Live.zcCountNotif (h : Live w g ((c, .entry true e) :: L)) (hx : g.act c = some x)
    (hjob : x.job = .gather true e ss) (more : Bool) :
    Live (w.zcCountNotif e more) g ((c, .entry true e) :: L) ∧
      (w.zcCountNotif e more).books = w.books := by
  obtain ⟨hholds, hwf⟩ := h.core.holdsGather hx hjob
  have hact : update g.act c (some x) = g.act := by rw [← hx, update_eq_self]
  cases more with
  | false => exact ⟨h, rfl⟩
  | true =>
    have hlive := h.touch hx hjob ((w.sendSlab.entries e).pendingNotifs + 1) hholds.readable
      hholds.bytes hwf
    refine ⟨?_, rfl⟩
    have hghost : { g with act := update g.act c (some { x with bytes := x.bytes }) } = g := by
      rw [hact]
    rwa [hghost] at hlive

/-- What a zero-copy completion may report for a piece with `left` bytes to go. -/
def ReportsZc (result : Int) (left : Nat) : Prop :=
  (0 < result ∧ result.toNat ≤ left) ∨ (result = 0 ∧ left = 0)

/-- A zero-copy send is out, and the next send goes. -/
theorem Live.completeZc {v : Worker} (w' : Worker) (h : Live w g ((c, .entry true e) :: L))
    (hx : g.act c = some x) (hjob : x.job = .gather true e ss) {iovecs : List Iovec}
    {notifs : UInt8} (hw : w' = { w with sendSlab := w.sendSlab.touch e iovecs notifs })
    (hbooks : w.books = v.books) (total : Nat) : Sends v g L c x.bytes.length
      (((w'.releaseZcSlab e).submitNextQueued c).2.wakeSend c (.ok total)) := by
  obtain ⟨hhole, hbooks'⟩ := h.releaseZc hx hjob hw
  obtain ⟨g', hlive, hkept, -⟩ := hhole.next
  refine ⟨g', hlive.wakeSend c _, .inr (Finished.of_kept hx (hbooks'.trans hbooks) hkept ?_)⟩
  have hnone : x.bounded = none := (h.core.holds_act hx).2.zc (by rw [hjob]; rfl)
  rw [Worker.books_wakeSend, hnone]
  simp [Worker.books]

theorem Live.handleSendMsgZc (h : Live w g ((c, .entry true e) :: L)) (hx : g.act c = some x)
    (hjob : x.job = .gather true e ss) (hci : ud.connIndex = c) (hpay : ud.payload = e)
    (hres : ReportsZc result x.bytes.length) (more : Bool) :
    Sends w g L c result.toNat (w.handleSendMsgZc ud result false more) := by
  obtain ⟨hholds, -⟩ := h.core.holdsGather hx hjob
  have hlt := h.core.entry_lt hholds.lt
  have hin : w.sendSlab.inUse e = true := hholds.inUse
  have hchain : (w.chains c).isSome = false := by rw [h.core.quiet.chain c]; rfl
  simp only [Worker.handleSendMsgZc, hci, hpay, Nat.mod_eq_of_lt hlt, hin,
    h.slabIdentityOk hx hjob, hchain, Bool.not_true, Bool.false_eq_true, if_false]
  obtain ⟨hlive, hbooks⟩ := h.zcCountNotif hx hjob more
  generalize w.zcCountNotif e more = v at hlive hbooks ⊢
  obtain ⟨hholds', -⟩ := hlive.core.holdsGather hx hjob
  rcases hres with ⟨hpos, hle⟩ | ⟨hzero, hnil⟩
  · rw [if_pos hpos]
    rcases Nat.lt_or_eq_of_le hle with hn | hn
    · obtain ⟨hmore, hadv⟩ := hlive.advanceGather hx hjob hn
      simp only [hmore, if_true, hadv.closeSubmitted_eq, Bool.false_eq_true, if_false]
      obtain ⟨-, -, ⟨hok, href⟩⟩ := sqeOk_entry v.sendCopyPool v.generation c hlt
      have hretry := fun room => hadv.moved ⟨v.ring.kernel, room⟩ _ _ _ _
        (hadv.core.loc.pushZcRetry (e := ⟨c, v.generation c, e, 0⟩) rfl rfl)
      exact Moved.progressed hx hn (hadv.push hok href hretry) hbooks
    · rw [hn]
      simp only [hholds'.advance_done le_rfl, Bool.false_eq_true, if_false, if_pos hpos.le]
      exact hlive.completeZc _ hx hjob rfl hbooks _
  · subst hzero
    rw [if_neg (Int.lt_irrefl 0), if_pos le_rfl]
    have hout := hlive.completeZc v hx hjob (by rw [InFlightSendSlab.touch_self]) hbooks
    rw [hnil] at hout
    exact hout _

end Ringline.Uring
