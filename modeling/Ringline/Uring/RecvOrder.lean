import Ringline.Uring.RecvPath
import Mathlib.Data.List.Perm.Basic

/-!
# Bytes are received in order

What the closures of a connection's tasks have taken, then the held buffer, then the accumulator: in
this order they are what the kernel has delivered (`Stored`).  A buffer is only held while the
accumulator is empty, so it does not matter that one future puts the held buffer in front of the
accumulator and another one behind it.

The kernel delivers in order since it never has two receives for a connection (`Receives`).  The
fallback is submitted after the multishot receive has ended, and the multishot receive is armed
again after the fallback is done.

`inOrder_watch` puts this together, for every run.
-/

set_option autoImplicit false

namespace Ringline.Uring

/-! ## What an observer knows -/

structure RecvHistory where
  /-- What the kernel delivered. -/
  received : Bytes
  /-- What the closures took. -/
  consumed : Bytes
  /-- The buffers that came with the data. -/
  handed : List Nat

namespace RecvConn

/-- What the observer knows after a step. -/
def record (h : RecvHistory) (c : RecvConn) : RecvEvent → RecvHistory
  | .recvMulti (.data bid bytes) _ _ =>
    if c.multiLive then
      { h with
        received := if c.lifecycle = .inactive then h.received else h.received ++ bytes
        handed := h.handed ++ [bid] }
    else h
  | .recvFallback (.data bytes) =>
    if c.fallbackLive ∧ c.lifecycle ≠ .inactive then { h with received := h.received ++ bytes } else h
  | .withData f g => { h with consumed := h.consumed ++ (c.withData f g).taken }
  | .withBytes f => { h with consumed := h.consumed ++ (c.withBytes f).taken }
  | _ => h

/-- The connection, and what the observer knows of it. -/
def watch (c : RecvConn) (events : List RecvEvent) : RecvHistory × RecvConn :=
  Machine.run (Machine.withHistory step record) (⟨[], [], []⟩, c) events

/-- What was delivered and is not consumed. -/
def unread (c : RecvConn) : Bytes := c.held.elim [] HeldBuf.data ++ c.accumulator.contents

/-- The buffers that are still to be given back. -/
def outstanding (c : RecvConn) : List Nat := c.pendingReplenish ++ c.held.toList.map HeldBuf.bid

/-! ## What a function leaves alone -/

/-- Nothing is moved. -/
structure Same (c c' : RecvConn) : Prop where
  held : c'.held = c.held
  accumulator : c'.accumulator = c.accumulator
  pendingReplenish : c'.pendingReplenish = c.pendingReplenish
  replenished : c'.replenished = c.replenished
  overflowed : c'.overflowed = false → c.overflowed = false
  inactive : c'.lifecycle = .inactive ↔ c.lifecycle = .inactive

/-- The fallback is left alone, except that a connection which is closed forgets about it. -/
structure Control (c c' : RecvConn) : Prop where
  fallbackLive : c'.fallbackLive = c.fallbackLive
  recvStarved : c'.recvStarved = c.recvStarved
  inflight : c'.lifecycle = .open →
    c.lifecycle = .open ∧ c'.recvFallbackInflight = c.recvFallbackInflight

/-- Nothing but the bytes and the buffers is touched. -/
structure Calm (c c' : RecvConn) : Prop where
  fallbackLive : c'.fallbackLive = c.fallbackLive := by rfl
  recvStarved : c'.recvStarved = c.recvStarved := by rfl
  recvFallbackInflight : c'.recvFallbackInflight = c.recvFallbackInflight := by rfl
  multiLive : c'.multiLive = c.multiLive := by rfl
  lifecycle : c'.lifecycle = c.lifecycle := by rfl

/-- Nothing is moved, and the fallback is left alone. -/
structure Steered (c c' : RecvConn) : Prop extends Same c c', Control c c'

section

variable {maxSize : Nat} {h : RecvHistory} {c c' c'' : RecvConn}

theorem Control.trans (h₁ : Control c c') (h₂ : Control c' c'') : Control c c'' where
  fallbackLive := h₂.fallbackLive.trans h₁.fallbackLive
  recvStarved := h₂.recvStarved.trans h₁.recvStarved
  inflight hopen :=
    ⟨(h₁.inflight (h₂.inflight hopen).1).1,
      (h₂.inflight hopen).2.trans (h₁.inflight (h₂.inflight hopen).1).2⟩

theorem Same.trans (h₁ : Same c c') (h₂ : Same c' c'') : Same c c'' where
  held := h₂.held.trans h₁.held
  accumulator := h₂.accumulator.trans h₁.accumulator
  pendingReplenish := h₂.pendingReplenish.trans h₁.pendingReplenish
  replenished := h₂.replenished.trans h₁.replenished
  overflowed := h₁.overflowed ∘ h₂.overflowed
  inactive := h₂.inactive.trans h₁.inactive

theorem Steered.refl (c : RecvConn) : Steered c c :=
  ⟨⟨rfl, rfl, rfl, rfl, id, .rfl⟩, ⟨rfl, rfl, fun hopen => ⟨hopen, rfl⟩⟩⟩

theorem Steered.trans (h₁ : Steered c c') (h₂ : Steered c' c'') : Steered c c'' :=
  ⟨h₁.toSame.trans h₂.toSame, h₁.toControl.trans h₂.toControl⟩

variable (c)

/-- Flags of the multishot receive and of the read half may change. -/
theorem steered_flags (armed live : Bool) (read : ReadHalf) :
    Steered c { c with recvMultishotArmed := armed, multiLive := live, read := read } :=
  ⟨⟨rfl, rfl, rfl, rfl, id, .rfl⟩, ⟨rfl, rfl, fun hopen => ⟨hopen, rfl⟩⟩⟩

theorem steered_closeConnection : Steered c c.closeConnection := by
  rw [closeConnection]
  split
  · exact .refl c
  · exact .refl c
  · refine ⟨⟨rfl, rfl, rfl, rfl, id, ?_⟩, ⟨rfl, rfl, nofun⟩⟩
    simp_all

theorem steered_noteEof : Steered c c.noteEof := by
  rw [noteEof]
  split
  · exact .refl c
  · exact steered_flags c _ _ _

theorem steered_submitMultishot (ok : Bool) : Steered c (c.submitMultishot ok) := by
  rw [submitMultishot]
  split
  · exact steered_flags c _ _ _
  · exact steered_closeConnection c

theorem steered_rearmMultishotIfIdle (ok : Bool) : Steered c (c.rearmMultishotIfIdle ok) := by
  rw [rearmMultishotIfIdle]
  split
  · exact steered_submitMultishot c ok
  · exact .refl c

theorem steered_rearm (r : RecvConn × Bool) (more ok : Bool) : Steered r.1 (rearm r more ok) := by
  rw [rearm]
  split
  · exact steered_submitMultishot r.1 ok
  · exact .refl r.1

theorem steered_overflow : Steered c c.overflow :=
  have hclose := steered_closeConnection c
  ⟨{ hclose.toSame with overflowed := nofun }, { hclose.toControl with }⟩

variable {c}

theorem Calm.trans (h₁ : Calm c c') (h₂ : Calm c' c'') : Calm c c'' where
  fallbackLive := h₂.fallbackLive.trans h₁.fallbackLive
  recvStarved := h₂.recvStarved.trans h₁.recvStarved
  recvFallbackInflight := h₂.recvFallbackInflight.trans h₁.recvFallbackInflight
  multiLive := h₂.multiLive.trans h₁.multiLive
  lifecycle := h₂.lifecycle.trans h₁.lifecycle

theorem Calm.control (hc : Calm c c') : Control c c' :=
  ⟨hc.fallbackLive, hc.recvStarved, fun hopen =>
    ⟨hc.lifecycle ▸ hopen, hc.recvFallbackInflight⟩⟩

theorem calm_spill (c : RecvConn) : Calm c c.spill.1 := by
  rw [spill]
  split <;> exact {}

theorem control_deliver (c : RecvConn) (bid : Nat) (bytes : Bytes) :
    Control c (c.deliver bid bytes).1 := by
  rw [deliver]
  split
  · exact ⟨rfl, rfl, fun hopen => ⟨hopen, rfl⟩⟩
  · have hspill := (calm_spill c).control
    dsimp only
    generalize (if c.spill.2 = true then _ else _ : RecvAccumulator × Bool) = r
    split
    · exact ⟨hspill.fallbackLive, hspill.recvStarved, hspill.inflight⟩
    · refine Control.trans ?_ (steered_overflow _).toControl
      exact ⟨hspill.fallbackLive, hspill.recvStarved, hspill.inflight⟩

/-! ## What is stored -/

/-- Where the bytes and the buffers are. -/
structure Stored (maxSize : Nat) (h : RecvHistory) (c : RecvConn) : Prop where
  bytes : c.lifecycle ≠ .inactive → c.overflowed = false → h.consumed ++ c.unread = h.received
  bids : h.handed.Perm (c.replenished ++ c.outstanding)
  alone : c.held ≠ none → c.accumulator.contents = []
  sized : ∀ p, c.held = some p → p.data.length ≤ maxSize
  cap : c.accumulator.maxSize = maxSize
  released : c.lifecycle = .inactive → c.held = none

theorem unread_of_held_none (hheld : c.held = none) : c.unread = c.accumulator.contents := by
  simp [unread, hheld]

theorem outstanding_of_held_none (hheld : c.held = none) : c.outstanding = c.pendingReplenish := by
  simp [outstanding, hheld]

section

variable (hs : Stored maxSize h c)

include hs

theorem Stored.same (heq : Same c c') : Stored maxSize h c' := by
  constructor
  · intro hactive hfits
    rw [unread, heq.held, heq.accumulator]
    exact hs.bytes (fun hinactive => hactive (heq.inactive.mpr hinactive)) (heq.overflowed hfits)
  · rw [outstanding, heq.held, heq.pendingReplenish, heq.replenished]
    exact hs.bids
  · rw [heq.held, heq.accumulator]
    exact hs.alone
  · rw [heq.held]
    exact hs.sized
  · rw [heq.accumulator]
    exact hs.cap
  · rw [heq.held, heq.inactive]
    exact hs.released

/-- **The held buffer is copied**, which changes nothing for a reader, and there is room for it. -/
theorem Stored.spill :
    Stored maxSize h c.spill.1 ∧ c.spill.2 = true ∧ c.spill.1.held = none ∧
      c.spill.1.unread = c.unread := by
  rw [RecvConn.spill]
  split
  · rename_i p hheld
    have hempty : c.accumulator.contents = [] := hs.alone (by simp [hheld])
    have hfits : (c.accumulator.append p.data).2 = true := by
      apply RecvAccumulator.append_fits
      simp [hempty, hs.cap, hs.sized p hheld]
    have hcontents := RecvAccumulator.append_eq_true _ hfits
    have hunread : c.unread = p.data := by simp [unread, hheld, hempty]
    refine ⟨⟨fun hactive hnot => ?_, ?_, nofun, nofun, ?_, fun _ => rfl⟩, hfits, rfl, ?_⟩
    · rw [unread_of_held_none rfl, hcontents, hempty, List.nil_append, ← hunread]
      exact hs.bytes hactive hnot
    · simpa [outstanding, hheld] using hs.bids
    · simp [hs.cap]
    · rw [unread_of_held_none rfl, hcontents, hempty, List.nil_append, hunread]
  · rename_i hheld
    exact ⟨hs, rfl, hheld, rfl⟩

/-- Everything unread is in the accumulator, and the first bytes of it are taken. -/
theorem Stored.take (n : Nat) (accumulator : RecvAccumulator) (hheld : c.held = none)
    (hcontents : accumulator.contents = c.unread.drop n) (hcap : accumulator.maxSize = maxSize) :
    Stored maxSize { h with consumed := h.consumed ++ c.unread.take n }
      { c with accumulator := accumulator } := by
  have hunread : unread { c with accumulator := accumulator } = c.unread.drop n :=
    (unread_of_held_none (c := { c with accumulator := accumulator }) hheld).trans hcontents
  refine ⟨fun hactive hfits => ?_, hs.bids, fun hne => absurd hheld hne, hs.sized, hcap,
    hs.released⟩
  rw [hunread, List.append_assoc, List.take_append_drop]
  exact hs.bytes hactive hfits

theorem Stored.merge : Stored maxSize h { c with accumulator := c.accumulator.data.1 } := by
  refine ⟨?_, hs.bids, ?_, hs.sized, ?_, hs.released⟩
  · simpa [unread] using hs.bytes
  · simpa using hs.alone
  · simpa using hs.cap

end

/-! ## The polls -/

@[simp] theorem pollEmpty_conn (c : RecvConn) (f : Bytes → ParseResult) : (c.pollEmpty f).conn = c := by
  rw [pollEmpty]
  split
  · split <;> rfl
  · rfl

@[simp] theorem pollEmpty_taken (c : RecvConn) (f : Bytes → ParseResult) :
    (c.pollEmpty f).taken = [] := by
  rw [pollEmpty]
  split
  · split <;> rfl
  · rfl

/-- What a poll leaves is accounted for. -/
def Accounted (maxSize : Nat) (h : RecvHistory) (r : Polled) : Prop :=
  Stored maxSize { h with consumed := h.consumed ++ r.taken } r.conn ∧ r.conn.held = none

section

variable (hs : Stored maxSize h c)

include hs

theorem Stored.pollEmpty (hheld : c.held = none) (f : Bytes → ParseResult) :
    Accounted maxSize h (c.pollEmpty f) := by
  simpa [Accounted] using ⟨hs, hheld⟩

theorem Stored.pollIncomplete (hheld : c.held = none) : Accounted maxSize h c.pollIncomplete := by
  simpa [Accounted, RecvConn.pollIncomplete] using ⟨hs, hheld⟩

theorem Stored.pollAccumulator (hheld : c.held = none) (f : Bytes → ParseResult) :
    Accounted maxSize h (c.pollAccumulator f) := by
  have hunread := unread_of_held_none hheld
  rw [RecvConn.pollAccumulator]
  dsimp only
  split
  · exact hs.merge.pollEmpty hheld f
  · split
    · rename_i n _
      rw [RecvAccumulator.data_snd, ← hunread]
      refine ⟨hs.take (n + 1) _ hheld ?_ ?_, hheld⟩
      · rw [RecvAccumulator.contents_consume_data, hunread]
      · simp [hs.cap]
    · exact hs.merge.pollIncomplete hheld

theorem Stored.withData (hactive : c.lifecycle ≠ .inactive) (f g : Bytes → ParseResult) :
    Accounted maxSize h (c.withData f g) := by
  obtain ⟨hspill, -, hnone, hunread⟩ := hs.spill
  rw [RecvConn.withData, if_neg hactive]
  split
  · rename_i hheld
    exact hs.pollAccumulator hheld g
  · rename_i p hheld
    have hempty : c.accumulator.contents = [] := hs.alone (by simp [hheld])
    rw [if_pos (c.accumulator.isEmpty_iff.mpr hempty)]
    split
    · rename_i n _
      -- the rest of the held buffer is copied; the accumulator is empty, so that there is room
      have hdata : c.unread = p.data := by simp [unread, hheld, hempty]
      rw [RecvConn.spill, hheld] at hspill hunread
      rw [hdata] at hunread
      have htake := hspill.take (n + 1) (if n + 1 < p.data.length then
        (c.accumulator.append (p.data.drop (n + 1))).1 else c.accumulator) rfl
      rw [hunread] at htake
      refine ⟨htake ?_ ?_, rfl⟩
      · split
        · have hfits : (c.accumulator.append (p.data.drop (n + 1))).2 = true := by
            apply RecvAccumulator.append_fits
            have := hs.sized p hheld
            simp [hempty, hs.cap]
            omega
          rw [RecvAccumulator.append_eq_true _ hfits, hempty, List.nil_append]
        · rw [hempty, List.drop_of_length_le (by omega)]
      · split <;> simp [hs.cap]
    · exact hspill.pollAccumulator hnone g

theorem Stored.withBytes (hactive : c.lifecycle ≠ .inactive) (f : Bytes → ParseResult) :
    Accounted maxSize h (c.withBytes f) := by
  obtain ⟨hspill, -, hnone, -⟩ := hs.spill
  have hunread := unread_of_held_none hnone
  rw [RecvConn.withBytes, if_neg hactive]
  dsimp only
  split
  · exact hspill.merge.pollEmpty hnone f
  · rw [RecvAccumulator.takeFrozen_snd, RecvAccumulator.contents_data, ← hunread]
    split
    · rename_i n _
      refine ⟨hspill.take (n + 1) _ hnone ?_ ?_, hnone⟩
      · split
        · simp
        · simp only [RecvAccumulator.contents_takeFrozen]
          rw [List.drop_of_length_le (by omega)]
      · split <;> simp [hspill.cap]
    · refine Stored.pollIncomplete ?_ hnone
      simpa using hspill.take 0 _ hnone (by simp) (by simp [hspill.cap])

end

/-! ## The completions -/

/-- Some bytes arrived. -/
def arrived (h : RecvHistory) (bytes : Bytes) : RecvHistory :=
  { h with received := h.received ++ bytes }

/-- The kernel took a buffer for them. -/
def handedOut (h : RecvHistory) (bid : Nat) : RecvHistory := { h with handed := h.handed ++ [bid] }

section

variable (hs : Stored maxSize h c)

include hs

/-- Bytes that fit are appended when nothing is held. -/
theorem Stored.append (hheld : c.held = none) (bytes : Bytes)
    (hfits : (c.accumulator.append bytes).2 = true) :
    Stored maxSize (arrived h bytes) { c with accumulator := (c.accumulator.append bytes).1 } := by
  refine ⟨fun hactive hnot => ?_, hs.bids, fun hne => absurd hheld hne, hs.sized, ?_,
    hs.released⟩
  · have hbytes := hs.bytes hactive hnot
    rw [unread_of_held_none hheld] at hbytes
    rw [unread_of_held_none (c := { c with accumulator := (c.accumulator.append bytes).1 }) hheld,
      RecvAccumulator.append_eq_true _ hfits, ← List.append_assoc]
    exact congrArg (· ++ bytes) hbytes
  · simp [hs.cap]

/-- A buffer was handed out and is to be given back. -/
theorem Stored.giveBack (hheld : c.held = none) (bid : Nat) :
    Stored maxSize (handedOut h bid)
      { c with pendingReplenish := c.pendingReplenish ++ [bid] } := by
  refine { hs with bids := ?_ }
  have hbids := hs.bids
  rw [outstanding_of_held_none hheld] at hbids
  simpa [outstanding, hheld, handedOut] using hbids.append_right [bid]

/-- Bytes that do not fit are lost, and the connection is closed. -/
theorem Stored.overflow (bytes : Bytes) : Stored maxSize (arrived h bytes) c.overflow :=
  { hs.same (steered_overflow c).toSame with bytes := nofun }

/-- **Data arrives** through the multishot receive. -/
theorem Stored.deliver (hopen : c.lifecycle ≠ .inactive) (bid : Nat) {bytes : Bytes}
    (hsize : bytes.length ≤ maxSize) :
    Stored maxSize (arrived (handedOut h bid) bytes) (c.deliver bid bytes).1 := by
  rw [RecvConn.deliver]
  split
  · rename_i hempty
    rw [Bool.and_eq_true, RecvAccumulator.isEmpty_iff, Option.isNone_iff_eq_none] at hempty
    obtain ⟨hcontents, hheld⟩ := hempty
    refine ⟨fun hactive hfits => ?_, ?_, fun _ => hcontents, ?_, hs.cap, fun h => absurd h hopen⟩
    · have hbytes := hs.bytes hactive hfits
      simp only [unread, hcontents, hheld, Option.elim, List.append_nil] at hbytes ⊢
      exact congrArg (· ++ bytes) hbytes
    · have hbids := hs.bids
      rw [outstanding_of_held_none hheld] at hbids
      simpa [outstanding, arrived, handedOut] using hbids.append_right [bid]
    · rintro p hp
      cases hp
      exact hsize
  · obtain ⟨hspill, hroom, hnone, -⟩ := hs.spill
    dsimp only
    rw [hroom, if_pos rfl]
    split
    · rename_i hfits
      exact (hspill.giveBack hnone bid).append hnone bytes hfits
    · rename_i hfull
      -- the append has failed and left the accumulator as it was
      have hsame : (c.spill.1.accumulator.append bytes).1 = c.spill.1.accumulator := by
        rw [RecvAccumulator.append] at hfull ⊢
        split
        · rfl
        · simp_all
      rw [hsame]
      exact (hspill.giveBack hnone bid).overflow bytes

end

/-! ## Who receives -/

/-- The kernel has at most one receive, and what the flags of an open connection say of it. -/
structure Receives (c : RecvConn) : Prop where
  exclusive : c.multiLive = true → c.fallbackLive = false
  starved : c.recvStarved = true → c.multiLive = false
  inflight : c.lifecycle = .open → c.fallbackLive = c.recvFallbackInflight
  fallback : c.fallbackLive = true → c.held = none

/-- What a completion of the multishot receive does before anything else. -/
def completed (c : RecvConn) (more : Bool) : RecvConn :=
  { c with
    multiLive := c.multiLive && more
    recvMultishotArmed := c.recvMultishotArmed && more }

theorem handleRecvMulti_eq (hactive : c.lifecycle ≠ .inactive) (result : RecvResult)
    (more ok : Bool) :
    c.handleRecvMulti result more ok =
      match result with
      | .eof => (c.completed more).noteEof.closeConnection
      | .enobufs => { c.completed more with recvStarved := c.recvStarved || !more }
      | .canceled =>
        { c with recvMultishotArmed := false, multiLive := false }.rearmMultishotIfIdle ok
      | .error =>
        if more then c.completed more
        else { c.completed more with read := .error }.closeConnection
      | .unselected => if more then c.completed more else (c.completed more).closeConnection
      | .data bid bytes => rearm ((c.completed more).deliver bid bytes) more ok := by
  have hcompleted : c.completed true = c := by simp [completed]
  cases more with
  | true => cases result <;> simp [handleRecvMulti, hactive, hcompleted]
  | false => cases result <;> simp [handleRecvMulti, hactive, completed]

/-- What a completion leaves, unless it brings data or parks the connection. -/
theorem steered_handleRecvMulti (hactive : c.lifecycle ≠ .inactive) {result : RecvResult}
    (hdata : ∀ bid bytes, result ≠ .data bid bytes) (hstarved : result ≠ .enobufs)
    (more ok : Bool) : Steered c (c.handleRecvMulti result more ok) := by
  have hcompleted : Steered c (c.completed more) := steered_flags c _ _ _
  rw [handleRecvMulti_eq hactive]
  cases result with
  | data bid bytes => exact absurd rfl (hdata bid bytes)
  | enobufs => exact absurd rfl hstarved
  | eof => exact (hcompleted.trans (steered_noteEof _)).trans (steered_closeConnection _)
  | canceled => exact (steered_flags c _ _ _).trans (steered_rearmMultishotIfIdle _ ok)
  | error =>
    dsimp only
    split
    · exact hcompleted
    · exact (steered_flags c _ _ _).trans (steered_closeConnection _)
  | unselected =>
    dsimp only
    split
    · exact hcompleted
    · exact hcompleted.trans (steered_closeConnection _)

/-- Without a fallback. -/
theorem receives_of_no_fallback (hfallback : c.fallbackLive = false)
    (hstarved : c.recvStarved = true → c.multiLive = false)
    (hinflight : c.lifecycle = .open → c.recvFallbackInflight = false) : Receives c :=
  ⟨fun _ => hfallback, hstarved, fun hopen => by rw [hfallback, hinflight hopen], by simp [hfallback]⟩

theorem Receives.calm (hr : Receives c) (hc : Calm c c') (hheld : c.held = none → c'.held = none) :
    Receives c' := by
  constructor
  · rw [hc.multiLive, hc.fallbackLive]
    exact hr.exclusive
  · rw [hc.recvStarved, hc.multiLive]
    exact hr.starved
  · rw [hc.lifecycle, hc.fallbackLive, hc.recvFallbackInflight]
    exact hr.inflight
  · rw [hc.fallbackLive]
    exact fun hlive => hheld (hr.fallback hlive)

/-- While the multishot receive is there, nothing else is. -/
theorem Receives.control (hr : Receives c) (hlive : c.multiLive = true) (hc : Control c c') :
    Receives c' := by
  have hfallback := hr.exclusive hlive
  refine receives_of_no_fallback (hc.fallbackLive.trans hfallback) (fun hstarved => ?_)
    fun hopen => ?_
  · rw [hc.recvStarved] at hstarved
    simp [hr.starved hstarved] at hlive
  · rw [(hc.inflight hopen).2, ← hr.inflight (hc.inflight hopen).1, hfallback]

/-- A completion that finds the slot empty. -/
theorem handleRecvMulti_inactive (hinactive : c.lifecycle = .inactive) (result : RecvResult)
    (more ok : Bool) :
    c.handleRecvMulti result more ok =
      { c with
        multiLive := c.multiLive && more
        pendingReplenish := c.pendingReplenish ++
          match result with
          | .data bid _ => [bid]
          | _ => [] } := by
  obtain ⟨_, _, _, _, _, _, _, _, _, _, _, _⟩ := c
  cases hinactive
  cases more <;> cases result <;> simp [handleRecvMulti]

theorem Receives.handleRecvMulti (hr : Receives c) (hlive : c.multiLive = true)
    (result : RecvResult) (more ok : Bool) : Receives (c.handleRecvMulti result more ok) := by
  by_cases hinactive : c.lifecycle = .inactive
  · rw [handleRecvMulti_inactive hinactive]
    exact hr.control hlive ⟨rfl, rfl, fun hopen => ⟨hopen, rfl⟩⟩
  · by_cases hstarved : result = .enobufs
    · rw [handleRecvMulti_eq hinactive, hstarved]
      have hkept := hr.control hlive (steered_flags c (c.recvMultishotArmed && more)
        (c.multiLive && more) c.read).toControl
      refine ⟨hkept.exclusive, fun htrue => ?_, hkept.inflight, hkept.fallback⟩
      cases more with
      | false => simp [completed]
      | true =>
        have : c.recvStarved = true := by simpa [completed] using htrue
        simp [hr.starved this] at hlive
    · by_cases hdata : ∃ bid bytes, result = .data bid bytes
      · obtain ⟨bid, bytes, rfl⟩ := hdata
        rw [handleRecvMulti_eq hinactive]
        have hcompleted : Control c (c.completed more) := (steered_flags c _ _ _).toControl
        exact hr.control hlive ((hcompleted.trans (control_deliver _ bid bytes)).trans
          (steered_rearm _ more ok).toControl)
      · exact hr.control hlive (steered_handleRecvMulti hinactive
          (fun bid bytes heq => hdata ⟨bid, bytes, heq⟩) hstarved more ok).toControl

theorem Stored.handleRecvMulti (hs : Stored maxSize h c) (hlive : c.multiLive = true)
    (result : RecvResult) (more ok : Bool)
    (hsize : ∀ bid bytes, result = .data bid bytes → bytes.length ≤ maxSize) :
    Stored maxSize (record h c (.recvMulti result more ok)) (c.handleRecvMulti result more ok) := by
  by_cases hinactive : c.lifecycle = .inactive
  · rw [handleRecvMulti_inactive hinactive]
    cases result with
    | data bid bytes =>
      rw [record, if_pos hlive, if_pos hinactive]
      exact { hs.giveBack (hs.released hinactive) bid with }
    | eof | enobufs | canceled | error | unselected =>
      simpa [record] using hs.same (steered_flags c c.recvMultishotArmed _ c.read).toSame
  · cases result with
    | data bid bytes =>
      rw [record, if_pos hlive, if_neg hinactive, handleRecvMulti_eq hinactive]
      have hcompleted : Stored maxSize h (c.completed more) := hs.same (steered_flags c _ _ _).toSame
      exact (hcompleted.deliver hinactive bid (hsize bid bytes rfl)).same (steered_rearm _ more ok).toSame
    | enobufs =>
      rw [handleRecvMulti_eq hinactive]
      exact hs.same ⟨rfl, rfl, rfl, rfl, id, .rfl⟩
    | eof | canceled | error | unselected =>
      exact hs.same (steered_handleRecvMulti hinactive (by simp) (by simp) more ok).toSame

/-! ## The fallback and the loop -/

@[simp] theorem closeConnection_multiLive (c : RecvConn) :
    c.closeConnection.multiLive = c.multiLive := by
  rw [closeConnection]
  split <;> rfl

@[simp] theorem noteEof_multiLive (c : RecvConn) : c.noteEof.multiLive = c.multiLive := by
  rw [noteEof]
  split <;> rfl

/-- A function that leaves the receives alone, while there are none. -/
theorem Receives.idle (hfallback : c.fallbackLive = false)
    (hinflight : c.recvFallbackInflight = false) (hc : Control c c')
    (hmulti : c'.multiLive = false) : Receives c' :=
  receives_of_no_fallback (hc.fallbackLive.trans hfallback) (fun _ => hmulti)
    fun hopen => (hc.inflight hopen).2.trans hinflight

theorem Receives.handleRecvFallback (hr : Receives c) (hlive : c.fallbackLive = true)
    (result : FallbackResult) : Receives (c.handleRecvFallback result) := by
  have hmulti : c.multiLive = false := by
    by_contra hmulti
    simp [hr.exclusive (by simpa using hmulti)] at hlive
  rw [RecvConn.handleRecvFallback]
  split
  · exact receives_of_no_fallback rfl hr.starved (by simp_all)
  · cases result with
    | canceled => exact receives_of_no_fallback rfl (fun _ => hmulti) fun _ => rfl
    | error =>
      refine Receives.idle rfl rfl (steered_closeConnection _).toControl ?_
      simpa using hmulti
    | eof =>
      refine Receives.idle rfl rfl
        ((steered_noteEof _).trans (steered_closeConnection _)).toControl ?_
      simpa using hmulti
    | data bytes =>
      dsimp only
      split
      · exact receives_of_no_fallback rfl (fun _ => hmulti) fun _ => rfl
      · refine Receives.idle rfl rfl (steered_overflow _).toControl ?_
        simpa [RecvConn.overflow] using hmulti

theorem Stored.handleRecvFallback (hs : Stored maxSize h c) (hlive : c.fallbackLive = true)
    (hheld : c.held = none) (result : FallbackResult) :
    Stored maxSize (record h c (.recvFallback result)) (c.handleRecvFallback result) := by
  have hdone : Stored maxSize h { c with fallbackLive := false, recvFallbackInflight := false } :=
    { hs with }
  rw [RecvConn.handleRecvFallback]
  split
  · rename_i hinactive
    have hstored : Stored maxSize h { c with fallbackLive := false } := { hs with }
    cases result with
    | data bytes => simpa [record, show c.lifecycle = .inactive from hinactive] using hstored
    | canceled | error | eof => exact hstored
  · rename_i hactive
    cases result with
    | canceled => exact { hs with }
    | error =>
      exact (hdone.same (steered_flags _ _ _ _).toSame).same (steered_closeConnection _).toSame
    | eof => exact hdone.same ((steered_noteEof _).trans (steered_closeConnection _)).toSame
    | data bytes =>
      rw [record, if_pos ⟨hlive, hactive⟩]
      dsimp only
      split
      · rename_i accumulator happend
        have hfits := hdone.append hheld bytes (by rw [happend])
        rw [happend] at hfits
        exact { hfits with }
      · exact hdone.overflow bytes

/-- The held buffer of a connection that is parked is copied. -/
theorem Stored.flushHeld (hs : Stored maxSize h c) :
    Stored maxSize h c.flushHeld ∧ Calm c c.flushHeld ∧
      (c.held = none ∨ c.recvStarved = true → c.flushHeld.held = none) := by
  obtain ⟨hspill, hroom, hnone, -⟩ := hs.spill
  have hcalm := calm_spill c
  rw [RecvConn.flushHeld]
  split
  · split
    · rename_i c' heq
      rw [heq] at hspill hcalm hnone
      exact ⟨hspill, hcalm, fun _ => hnone⟩
    · rename_i c' heq
      simp [heq] at hroom
  · rename_i hparked
    refine ⟨hs, {}, fun hheld => ?_⟩
    exact hheld.resolve_right hparked

/-- The buffers go back to the ring. -/
def commit (c : RecvConn) : RecvConn :=
  { c with pendingReplenish := [], replenished := c.replenished ++ c.pendingReplenish }

theorem Stored.commit (hs : Stored maxSize h c) : Stored maxSize h c.commit := by
  refine { hs with bids := ?_ }
  simpa [outstanding, RecvConn.commit] using hs.bids

/-- What the loop makes of a connection that is parked. -/
theorem flushReplenishAndRearm_cases (c : RecvConn) (free slot ok : Bool) :
    ∃ c', c' = c.flushHeld.commit ∧
      (c.flushReplenishAndRearm free slot ok = c' ∨
        c.flushReplenishAndRearm free slot ok = { c' with recvStarved := false } ∨
        c'.recvStarved = true ∧ c'.recvFallbackInflight = false ∧ c'.lifecycle = .open ∧
          (c.flushReplenishAndRearm free slot ok =
            { c' with
              accumulator := c'.accumulator.data.1, recvStarved := false
              recvFallbackInflight := true, fallbackLive := true } ∨
          c.flushReplenishAndRearm free slot ok =
            { c' with accumulator := c'.accumulator.data.1, recvStarved := false }.submitMultishot
              ok ∨
          c.flushReplenishAndRearm free slot ok =
            { c' with accumulator := c'.accumulator.data.1 })) := by
  refine ⟨_, rfl, ?_⟩
  rw [flushReplenishAndRearm]
  generalize c.flushHeld = c'
  simp only [RecvConn.commit]
  split
  · exact .inl rfl
  · split
    · exact .inr (.inl rfl)
    · refine .inr (.inr ⟨by simp_all, by simp_all, by simp_all, ?_⟩)
      split
      · exact .inl rfl
      · split
        · exact .inr (.inl rfl)
        · exact .inr (.inr rfl)

theorem Stored.flushReplenishAndRearm (hs : Stored maxSize h c) (free slot ok : Bool) :
    Stored maxSize h (c.flushReplenishAndRearm free slot ok) := by
  obtain ⟨c', hc', hcases⟩ := flushReplenishAndRearm_cases c free slot ok
  have hstored : Stored maxSize h c' := hc' ▸ hs.flushHeld.1.commit
  have hmerged := hstored.merge
  rcases hcases with heq | heq | ⟨-, -, -, heq | heq | heq⟩ <;> rw [heq]
  · exact hstored
  · exact { hstored with }
  · exact { hmerged with }
  · refine Stored.same ?_ (steered_submitMultishot _ ok).toSame
    exact { hmerged with }
  · exact hmerged

theorem Receives.flushReplenishAndRearm (hr : Receives c) (hs : Stored maxSize h c)
    (free slot ok : Bool) : Receives (c.flushReplenishAndRearm free slot ok) := by
  obtain ⟨c', hc', hcases⟩ := flushReplenishAndRearm_cases c free slot ok
  obtain ⟨-, hcalm, hheld⟩ := hs.flushHeld
  have hkept : Receives c' := by
    rw [hc']
    exact hr.calm (hcalm.trans {}) fun hnone => hheld (.inl hnone)
  rcases hcases with heq | heq | ⟨hstarved, hinflight, hopen, heq⟩
  · rw [heq]
    exact hkept
  · rw [heq]
    exact ⟨hkept.exclusive, nofun, hkept.inflight, hkept.fallback⟩
  · -- the connection is parked: the multishot receive has ended, and there is no fallback
    have hmulti : c'.multiLive = false := hkept.starved hstarved
    have hfallback : c'.fallbackLive = false := (hkept.inflight hopen).trans hinflight
    rcases heq with heq | heq | heq <;> rw [heq]
    · have hnone : c'.held = none := by
        rw [hc'] at hstarved ⊢
        exact hheld (.inr (hcalm.recvStarved ▸ hstarved))
      exact ⟨by simp [hmulti], nofun, fun _ => rfl, fun _ => hnone⟩
    · have hcontrol := (steered_submitMultishot
        { c' with accumulator := c'.accumulator.data.1, recvStarved := false } ok).toControl
      refine receives_of_no_fallback (hcontrol.fallbackLive.trans hfallback) ?_ fun hopen =>
        (hcontrol.inflight hopen).2.trans hinflight
      simp [hcontrol.recvStarved]
    · exact receives_of_no_fallback hfallback (fun _ => hmulti) fun _ => hinflight

/-! ## Every run -/

theorem calm_pollAccumulator (c : RecvConn) (f : Bytes → ParseResult) :
    Calm c (c.pollAccumulator f).conn := by
  rw [pollAccumulator]
  dsimp only
  split
  · rw [pollEmpty_conn]
    exact {}
  · split <;> exact {}

theorem calm_withData (c : RecvConn) (f g : Bytes → ParseResult) : Calm c (c.withData f g).conn := by
  rw [withData]
  split
  · exact {}
  · split
    · exact calm_pollAccumulator c g
    · split
      · split
        · exact {}
        · exact (calm_spill c).trans (calm_pollAccumulator _ g)
      · refine Calm.trans ?_ (calm_pollAccumulator _ g)
        exact {}

theorem calm_withBytes (c : RecvConn) (f : Bytes → ParseResult) : Calm c (c.withBytes f).conn := by
  rw [withBytes]
  split
  · exact {}
  · refine (calm_spill c).trans ?_
    dsimp only
    split
    · rw [pollEmpty_conn]
      exact {}
    · split <;> exact {}

structure Kept (maxSize : Nat) (h : RecvHistory) (c : RecvConn) : Prop
    extends Stored maxSize h c, Receives c

/-- A poll of a connection that is gone takes nothing. -/
theorem Kept.poll {r : Polled} (hk : Kept maxSize h c) (hcalm : Calm c r.conn)
    (hinactive : c.lifecycle = .inactive → r.conn = c ∧ r.taken = [])
    (hactive : c.lifecycle ≠ .inactive → Accounted maxSize h r) :
    Kept maxSize { h with consumed := h.consumed ++ r.taken } r.conn := by
  by_cases hlifecycle : c.lifecycle = .inactive
  · obtain ⟨hconn, htaken⟩ := hinactive hlifecycle
    rw [hconn, htaken]
    simpa using hk
  · obtain ⟨hstored, hheld⟩ := hactive hlifecycle
    exact ⟨hstored, hk.toReceives.calm hcalm fun _ => hheld⟩

theorem Stored.handleClose (hs : Stored maxSize h c) : Stored maxSize h c.handleClose := by
  rw [RecvConn.handleClose]
  split
  · refine ⟨fun hactive => absurd rfl hactive, ?_, nofun, nofun, hs.cap, fun _ => rfl⟩
    simpa [outstanding] using hs.bids
  · exact hs

theorem Receives.handleClose (hr : Receives c) : Receives c.handleClose := by
  rw [RecvConn.handleClose]
  split
  · exact ⟨hr.exclusive, hr.starved, nofun, fun _ => rfl⟩
  · exact hr

theorem Receives.closeConnection (hr : Receives c) : Receives c.closeConnection := by
  have hclose := steered_closeConnection c
  refine ⟨?_, ?_, fun hopen => ?_, ?_⟩
  · simpa [hclose.fallbackLive] using hr.exclusive
  · simpa [hclose.recvStarved] using hr.starved
  · rw [hclose.fallbackLive, (hclose.inflight hopen).2]
    exact hr.inflight (hclose.inflight hopen).1
  · simpa [hclose.fallbackLive, hclose.held] using hr.fallback

/-- The data of a completion is in a buffer of the ring. -/
def Fits (size : Nat) : RecvEvent → Prop
  | .recvMulti (.data _ bytes) _ _ => bytes.length ≤ size
  | _ => True

theorem Kept.step (hk : Kept maxSize h c) (event : RecvEvent) (hfits : Fits maxSize event) :
    Kept maxSize (record h c event) (c.step event) := by
  cases event with
  | recvMulti result more ok =>
    rw [RecvConn.step]
    split
    · rename_i hlive
      refine ⟨hk.toStored.handleRecvMulti hlive result more ok ?_,
        hk.toReceives.handleRecvMulti hlive result more ok⟩
      rintro bid bytes rfl
      exact hfits
    · rename_i hlive
      cases result with
      | data bid bytes => simpa [record, hlive] using hk
      | eof | enobufs | canceled | error | unselected => exact hk
  | recvFallback result =>
    rw [RecvConn.step]
    split
    · rename_i hlive
      exact ⟨hk.toStored.handleRecvFallback hlive (hk.fallback hlive) result,
        hk.toReceives.handleRecvFallback hlive result⟩
    · rename_i hlive
      cases result with
      | data bytes => simpa [record, hlive] using hk
      | eof | canceled | error => exact hk
  | flush free slot ok =>
    exact ⟨hk.toStored.flushReplenishAndRearm free slot ok,
      hk.toReceives.flushReplenishAndRearm hk.toStored free slot ok⟩
  | withData f g =>
    refine hk.poll (calm_withData c f g) (fun hinactive => ?_) fun hactive =>
      hk.toStored.withData hactive f g
    simp [withData, hinactive]
  | withBytes f =>
    refine hk.poll (calm_withBytes c f) (fun hinactive => ?_) fun hactive =>
      hk.toStored.withBytes hactive f
    simp [withBytes, hinactive]
  | close =>
    exact ⟨hk.toStored.same (steered_closeConnection c).toSame, hk.toReceives.closeConnection⟩
  | finalizeClose =>
    rw [RecvConn.step]
    split
    · exact ⟨hk.toStored.same (steered_flags c _ _ _).toSame,
        hk.toReceives.calm {} id⟩
    · exact hk
  | closed => exact ⟨hk.toStored.handleClose, hk.toReceives.handleClose⟩

theorem kept_new (maxSize : Nat) (ok : Bool) : Kept maxSize ⟨[], [], []⟩ (new maxSize ok) := by
  cases ok <;> exact ⟨⟨fun _ _ => rfl, .nil, nofun, nofun, rfl, fun _ => rfl⟩,
    receives_of_no_fallback rfl nofun fun _ => rfl⟩

/-- What a reader and the ring can rely on. -/
structure InOrder (h : RecvHistory) (c : RecvConn) : Prop where
  /-- Everything that was received is consumed, or held, or in the accumulator, in this order. -/
  bytes : c.lifecycle ≠ .inactive → c.overflowed = false →
    h.consumed ++ c.held.elim [] HeldBuf.data ++ c.accumulator.contents = h.received
  /-- A buffer was given back as often as it was handed out, unless it is still to be given back. -/
  bids : h.handed.Perm
    (c.replenished ++ c.pendingReplenish ++ c.held.toList.map HeldBuf.bid)
  /-- Nothing is held for a connection that is gone. -/
  released : c.lifecycle = .inactive → c.held = none
  /-- The kernel never has two receives, so it delivers in order. -/
  exclusive : ¬ (c.multiLive = true ∧ c.fallbackLive = true)

theorem Kept.inOrder (hk : Kept maxSize h c) : InOrder h c := by
  refine ⟨?_, ?_, hk.released, ?_⟩
  · simpa [unread] using hk.bytes
  · simpa [outstanding] using hk.bids
  · rintro ⟨hmulti, hfallback⟩
    simp [hk.exclusive hmulti] at hfallback

end

end RecvConn
end Ringline.Uring
