import Ringline.Quic.Endpoint

/-!
# What the functions of the endpoint change

Most of what the endpoint does concerns one connection: the functions below `handle_datagram` and
`drive_timers` change the entry of one key, append events and packets, and leave the rest alone
(`Hears`).  A connection keeps its handle, and its flag `close_event_emitted` is set exactly when
`ConnectionClosed` is emitted for it.

`polled` says this for `poll_connection` as a whole.  It is the only function that removes a
connection, and it does not come to that if the connection is reported lost in the same call.
-/

set_option autoImplicit false

namespace Ringline.Quic

open List

/-- Whether quinn reports during a poll that the connection is lost. -/
def PollAnswers.lost (a : PollAnswers) : Bool := a.events.any Event.isLost

/-- The connections for which `ConnectionClosed` is emitted, in order. -/
def closes (events : List QuicEvent) : List Nat :=
  events.filterMap fun
    | .connectionClosed conn _ => some conn
    | _ => none

@[simp] theorem closes_append (l l' : List QuicEvent) : closes (l ++ l') = closes l ++ closes l' :=
  filterMap_append

namespace QuicEndpoint

/-- What a connection has gone through: `lost` tells whether it was closed or reported lost. -/
structure Heard (key : Nat) (lost : Bool) (c c' : QuicConnection) (new : List QuicEvent) : Prop where
  handle : c'.handle = c.handle
  closeEventEmitted : c'.closeEventEmitted = (lost || c.closeEventEmitted)
  closes : closes new = if lost && !c.closeEventEmitted then [key] else []

/-- One connection changed, and events and packets were appended. -/
structure Hears (key : Nat) (lost : Bool) (e e' : QuicEndpoint) (new : List QuicEvent) : Prop where
  other : ∀ j, j ≠ key → e'.connections.get? j = e.connections.get? j
  self : ∀ c, e.connections.get? key = some c →
    ∃ c', e'.connections.get? key = some c' ∧ Heard key lost c c' new
  absent : e.connections.get? key = none → e'.connections.get? key = none ∧ closes new = []
  size : e'.connections.size = e.connections.size
  handleMap : e'.handleMap = e.handleMap
  events : e'.events = e.events ++ new
  responseBuf : e'.responseBuf = e.responseBuf

section

variable {key : Nat} {lost lost' : Bool} {e e' e'' : QuicEndpoint} {new new' : List QuicEvent}

theorem Heard.trans {c c' c'' : QuicConnection} (h : Heard key lost c c' new)
    (h' : Heard key lost' c' c'' new') : Heard key (lost || lost') c c'' (new ++ new') where
  handle := h'.handle.trans h.handle
  closeEventEmitted := by
    rw [h'.closeEventEmitted, h.closeEventEmitted]
    cases lost <;> cases lost' <;> rfl
  closes := by
    rw [closes_append, h.closes, h'.closes, h.closeEventEmitted]
    cases lost <;> cases lost' <;> cases c.closeEventEmitted <;> rfl

theorem Hears.trans (h : Hears key lost e e' new) (h' : Hears key lost' e' e'' new') :
    Hears key (lost || lost') e e'' (new ++ new') where
  other j hj := (h'.other j hj).trans (h.other j hj)
  self c hc := by
    obtain ⟨c', hc', hheard⟩ := h.self c hc
    obtain ⟨c'', hc'', hheard'⟩ := h'.self c' hc'
    exact ⟨c'', hc'', hheard.trans hheard'⟩
  absent hnone := by
    obtain ⟨hnone', hcloses⟩ := h.absent hnone
    obtain ⟨hnone'', hcloses'⟩ := h'.absent hnone'
    exact ⟨hnone'', by rw [closes_append, hcloses, hcloses', append_nil]⟩
  size := h'.size.trans h.size
  handleMap := h'.handleMap.trans h.handleMap
  events := by rw [h'.events, h.events, append_assoc]
  responseBuf := h'.responseBuf.trans h.responseBuf

/-- Only packets were queued. -/
theorem Hears.of_packets (key : Nat) (e : QuicEndpoint) (q : List OutgoingPacket) :
    Hears key false e { e with sendQueue := q } [] where
  other _ _ := rfl
  self c hc := ⟨c, hc, rfl, rfl, rfl⟩
  absent hnone := ⟨hnone, rfl⟩
  size := rfl
  handleMap := rfl
  events := (append_nil _).symm
  responseBuf := rfl

theorem Hears.refl (key : Nat) (e : QuicEndpoint) : Hears key false e e [] :=
  .of_packets key e e.sendQueue

/-- Nothing happens to a connection that is not there. -/
theorem Hears.of_absent (lost : Bool) (h : e.connections.get? key = none) :
    Hears key lost e e [] where
  other _ _ := rfl
  self _ hc := nomatch h.symm.trans hc
  absent hnone := ⟨hnone, rfl⟩
  size := rfl
  handleMap := rfl
  events := (append_nil _).symm
  responseBuf := rfl

theorem Hears.contains (h : Hears key lost e e' new) :
    e'.connections.contains key = e.connections.contains key := by
  rw [Slab.contains, Slab.contains]
  cases hc : e.connections.get? key with
  | none => rw [(h.absent hc).1]
  | some c =>
    obtain ⟨c', hc', -⟩ := h.self c hc
    rw [hc']
    rfl

variable (key)

/-- The entry of a connection is changed, and events are appended. -/
theorem Hears.of_modify (lost : Bool) (new : List QuicEvent) (e : QuicEndpoint)
    {f : QuicConnection → QuicConnection}
    (hf : ∀ c, e.connections.get? key = some c → Heard key lost c (f c) new)
    (hnone : e.connections.get? key = none → closes new = []) : Hears key lost e
      { e with connections := e.connections.modify key f, events := e.events ++ new } new where
  other j hj := by rw [Slab.get?_modify, if_neg hj]
  self c hc := ⟨f c, by rw [Slab.get?_modify, if_pos rfl, hc, Option.map_some], hf c hc⟩
  absent h := ⟨by rw [Slab.get?_modify, if_pos rfl, h, Option.map_none], hnone h⟩
  size := Slab.size_modify ..
  handleMap := rfl
  events := rfl
  responseBuf := rfl

/-! ## The functions that change little -/

variable (e)

theorem hears_pullTransmits (transmits : List Transmit) :
    Hears key false e (e.pullTransmits transmits) [] := by
  induction transmits generalizing e with
  | nil => exact .refl key e
  | cons t rest ih =>
    rw [pullTransmits, queuePacket]
    split
    · rename_i heq
      split at heq
      · cases (Prod.mk.inj heq).2
      · obtain rfl := (Prod.mk.inj heq).1
        exact (Hears.of_packets key e _).trans (ih _)
    · rename_i heq
      split at heq
      · obtain rfl := (Prod.mk.inj heq).1
        exact .refl key _
      · cases (Prod.mk.inj heq).2

theorem hears_drainTransmits (transmits : List Transmit) :
    Hears key false e (e.drainTransmits transmits) [] := by
  rw [drainTransmits]
  split
  · exact .refl key e
  · exact hears_pullTransmits key e transmits

theorem hears_call (op : ConnCall) : Hears key false e (e.call key op) [] := by
  have h := Hears.of_modify key false [] e
    (f := fun c => { c with calls := c.calls ++ [op] }) (fun _ _ => ⟨rfl, rfl, rfl⟩) fun _ => rfl
  rw [append_nil] at h
  exact h

theorem hears_calls (l : List Bool) :
    Hears key false e (l.foldl (fun e _ => e.call key .handleEvent) e) [] := by
  induction l generalizing e with
  | nil => exact .refl key e
  | cons b l ih => exact (hears_call key e .handleEvent).trans (ih _)

theorem hears_noteAddress (current : SocketAddr) :
    ∃ new, Hears key false e (e.noteAddress key current) new := by
  rw [noteAddress]
  split
  · exact ⟨[], .refl key e⟩
  · split
    · exact ⟨[], .refl key e⟩
    · exact ⟨_, .of_modify _ _ _ e (fun _ _ => ⟨rfl, rfl, rfl⟩) fun _ => rfl⟩

/-! ## Application events -/

theorem closes_emits (c : QuicConnection) (event : Event) : closes (emits key c event) =
      if event.isLost && !c.closeEventEmitted then [key] else [] := by
  cases event with
  | connected accepted =>
    rw [emits]
    split
    · split <;> rfl
    · rfl
  | connectionLost reason =>
    rw [emits]
    cases c.closeEventEmitted <;> rfl
  | opened dir accepted =>
    refine filterMap_eq_nil_iff.mpr fun ev hev => ?_
    obtain ⟨stream, -, hev⟩ := mem_flatMap.mp hev
    rcases mem_cons.mp hev with rfl | hev
    · rfl
    · rw [mem_singleton.mp hev]
  | datagramReceived data =>
    refine filterMap_eq_nil_iff.mpr fun ev hev => ?_
    obtain ⟨d, -, rfl⟩ := mem_map.mp hev
    rfl
  | readable | writable | finished | stopped | available | datagramsUnblocked
  | handshakeDataReady => rfl

theorem handle_onEvent (c : QuicConnection) (event : Event) :
    (onEvent c event).handle = c.handle := by
  cases event <;> rfl

theorem closeEventEmitted_onEvent (c : QuicConnection) (event : Event) :
    (onEvent c event).closeEventEmitted = (event.isLost || c.closeEventEmitted) := by
  cases event <;> rfl

/-- **The application events of one connection.**  `ConnectionClosed` is emitted if it is reported
lost and this was not known. -/
theorem hears_pollEvents (events : List Event) :
    ∃ new, Hears key (events.any Event.isLost) e (pollEvents key e events).1 new ∧
      (pollEvents key e events).2 =
        (e.connections.contains key && events.any Event.isLost) := by
  induction events generalizing e with
  | nil => exact ⟨[], .refl key e, (Bool.and_false _).symm⟩
  | cons event rest ih =>
    rw [pollEvents, any_cons, Slab.contains]
    cases hc : e.connections.get? key with
    | none => exact ⟨[], .of_absent _ hc, rfl⟩
    | some c =>
      dsimp only
      have hfirst := Hears.of_modify key event.isLost (emits key c event) e
        (f := fun _ => onEvent c event)
        (fun c' hc' => by
          cases (hc.symm.trans hc')
          exact ⟨handle_onEvent c event, closeEventEmitted_onEvent c event,
            closes_emits key c event⟩)
        fun hnone => by cases hc.symm.trans hnone
      have hcontains := hfirst.contains
      have hthere : e.connections.contains key = true := by rw [Slab.contains, hc]; rfl
      rw [hthere] at hcontains
      cases hlost : event.isLost with
      | true =>
        rw [if_pos rfl, Bool.true_or]
        exact ⟨_, hlost ▸ hfirst, rfl⟩
      | false =>
        rw [if_neg Bool.false_ne_true, Bool.false_or]
        rw [hlost] at hfirst
        obtain ⟨new, hrest, hflag⟩ := ih { e with
          connections := e.connections.modify key fun _ => onEvent c event
          events := e.events ++ emits key c event }
        rw [hcontains] at hflag
        exact ⟨_, hfirst.trans hrest, hflag⟩

variable {e}

variable {key}

/-! ## Polling and removing -/

theorem removeConnection_of_absent (h : e.connections.contains key = false) :
    e.removeConnection key = e := by
  rw [Slab.contains, Option.isSome_eq_false_iff, Option.isNone_iff_eq_none] at h
  rw [removeConnection, h]

section

variable (e : QuicEndpoint)

@[simp] theorem get?_removeConnection (key j : Nat) :
    (e.removeConnection key).connections.get? j =
      if j = key then none else e.connections.get? j := by
  rw [removeConnection]
  cases hc : e.connections.get? key with
  | none =>
    dsimp only
    split
    · rename_i heq
      rw [heq, hc]
    · rfl
  | some c => exact Slab.get?_remove ..

@[simp] theorem events_removeConnection (key : Nat) :
    (e.removeConnection key).events = e.events := by
  rw [removeConnection]
  split <;> rfl

@[simp] theorem responseBuf_removeConnection (key : Nat) :
    (e.removeConnection key).responseBuf = e.responseBuf := by
  rw [removeConnection]
  split <;> rfl

/-- **Polling a connection.**  It is removed if it is drained, unless it was reported lost in this
very call. -/
theorem polled (key : Nat) (a : PollAnswers) :
    ∃ e₁ new, Hears key a.lost e e₁ new ∧
      e.pollConnection key a = if a.drained && !a.lost then e₁.removeConnection key else e₁ := by
  have hbefore := (hears_calls key e (a.endpointEvents.filter id)).trans
    (hears_drainTransmits key _ a.transmits)
  rw [pollConnection]
  generalize ((a.endpointEvents.filter id).foldl (fun e _ => e.call key .handleEvent)
    e).drainTransmits a.transmits = e₁ at hbefore ⊢
  obtain ⟨new, hevents, hflag⟩ := hears_pollEvents key e₁ a.events
  have hheard := hbefore.trans hevents
  rcases hpoll : pollEvents key e₁ a.events with ⟨e₂, flag⟩
  rw [hpoll] at hflag hheard
  cases flag with
  | true =>
    have hlost : a.lost = true := ((Bool.and_eq_true _ _).mp hflag.symm).2
    refine ⟨e₂, _, hheard, ?_⟩
    rw [hlost, Bool.not_true, Bool.and_false]
    rfl
  | false =>
    obtain ⟨new', hnote⟩ := hears_noteAddress key (e₂.drainTransmits a.transmitsAfter)
      a.remoteAddress
    have hall := hheard.trans ((hears_drainTransmits key e₂ a.transmitsAfter).trans hnote)
    simp only [Bool.false_or, Bool.or_false] at hall
    refine ⟨_, _, hall, ?_⟩
    rcases (Bool.and_eq_false_iff.mp hflag.symm) with habsent | hlost
    · -- a connection that is not there cannot be removed
      have hnone : ((e₂.drainTransmits a.transmitsAfter).noteAddress key
          a.remoteAddress).connections.contains key = false := by
        rw [hall.contains, ← hbefore.contains, habsent]
      dsimp only
      rw [removeConnection_of_absent hnone]
      split <;> split <;> rfl
    · have hlost : a.lost = false := hlost
      rw [hlost, Bool.not_false, Bool.and_true]

end

/-! ## Calls of the application -/

theorem hears_flush (key : Nat) (e : QuicEndpoint) (transmits : Nat → List Transmit) :
    Hears key false e (e.flush transmits) [] := by
  rw [flush]
  generalize e.connections.keys = keys
  induction keys generalizing e with
  | nil => exact .refl key e
  | cons k keys ih =>
    rw [foldl_cons]
    split
    · exact (hears_drainTransmits key e _).trans (ih _)
    · exact ih e

theorem hears_unlessClosed (conn : Nat) (closed : Bool) (ts : List Transmit) (e : QuicEndpoint) :
    Hears conn false e (unlessClosed closed ts e).1 [] := by
  rw [unlessClosed]
  split
  · exact .refl conn e
  · exact hears_drainTransmits conn e ts

section

variable (e : QuicEndpoint)

theorem hears_onConn {ρ : Type} (conn : Nat) (op : ConnCall)
    {after : QuicEndpoint → QuicEndpoint × Except Error ρ}
    (h : ∀ e, Hears conn false e (after e).1 []) :
    Hears conn false e (e.onConn conn op after).1 [] := by
  rw [onConn]
  split
  · exact .refl conn e
  · exact (hears_call conn e op).trans (h _)

theorem hears_recvWith (conn : Nat) (stream : StreamId) (max : Nat) (a : ReadAnswers) :
    Hears conn false e (e.recvWith conn stream max a).1 [] := by
  rw [recvWith]
  refine hears_onConn e conn _ fun e => ?_
  cases a.readable with
  | some err => exact .refl conn e
  | none =>
    have hdrain : Hears conn false e
        (if a.shouldTransmit then e.drainTransmits a.transmits else e) [] := by
      split
      · exact hears_drainTransmits conn e a.transmits
      · exact .refl conn e
    dsimp only
    split <;> exact hdrain

theorem hears_perform (conn : Nat) (op : ConnOp) : Hears conn false e (e.perform conn op).1 [] := by
  cases op with
  | streamSend s data a closed =>
    rw [perform, Prod.map_fst, id, streamSend]
    exact hears_onConn e conn _ fun e => .refl conn e
  | streamSendChunks s chunks a closed =>
    rw [perform, Prod.map_fst, id, streamSendChunks]
    exact hears_onConn e conn _ fun e => .refl conn e
  | openBi a =>
    rw [perform, Prod.map_fst, id, openBi]
    exact hears_onConn e conn _ fun e => .refl conn e
  | openUni a =>
    rw [perform, Prod.map_fst, id, openUni]
    exact hears_onConn e conn _ fun e => .refl conn e
  | streamRecv s n a =>
    rw [perform, Prod.map_fst, id, streamRecv]
    exact hears_recvWith e conn s n a
  | streamRecvInto s n a =>
    rw [perform, Prod.map_fst, id, streamRecvInto]
    exact hears_recvWith e conn s n a
  | streamFinish s a ts =>
    rw [perform, Prod.map_fst, id, streamFinish]
    refine hears_onConn e conn _ fun e => ?_
    rcases a with (_ | _) | _
    · exact .refl conn e
    · exact .refl conn e
    · exact hears_drainTransmits conn e ts
  | stopSending s code closed ts =>
    rw [perform, Prod.map_fst, id, stopSending]
    exact hears_onConn e conn _ (hears_unlessClosed conn closed ts)
  | resetStream s code closed ts =>
    rw [perform, Prod.map_fst, id, resetStream]
    exact hears_onConn e conn _ (hears_unlessClosed conn closed ts)
  | sendDatagram data old a ts =>
    rw [perform, Prod.map_fst, id, sendDatagram]
    refine hears_onConn e conn _ fun e => ?_
    rcases a with (_ | _ | _ | _) | _
    · exact .refl conn e
    · exact .refl conn e
    · exact .refl conn e
    · exact .refl conn e
    · exact hears_drainTransmits conn e ts

/-- After `close_connection` the event has been emitted, now or before. -/
theorem hears_closeConnection (conn code : Nat) (reason : Bytes) (transmits : List Transmit) :
    ∃ new, Hears conn true e (e.closeConnection conn code reason transmits) new := by
  rw [closeConnection]
  cases hc : e.connections.get? conn with
  | none => exact ⟨[], .of_absent true hc⟩
  | some c =>
    dsimp only
    cases hemitted : c.closeEventEmitted with
    | true =>
      refine ⟨[], ?_⟩
      rw [if_pos rfl]
      refine { Hears.refl conn e with self := fun c' hc' => ⟨c', hc', rfl, ?_, ?_⟩ }
      · cases (hc.symm.trans hc')
        rw [hemitted, Bool.true_or]
      · cases (hc.symm.trans hc')
        rw [hemitted]
        rfl
    | false =>
      rw [if_neg Bool.false_ne_true]
      have hbefore := (hears_call conn e (.close code reason)).trans
        (hears_drainTransmits conn _ transmits)
      obtain ⟨c', hc', hheard⟩ := hbefore.self c hc
      have hemitted' : c'.closeEventEmitted = false := hheard.closeEventEmitted.trans hemitted
      refine ⟨_, hbefore.trans (.of_modify _ _ _ _ (fun d hd => ⟨rfl, rfl, ?_⟩) fun hnone => ?_)⟩
      · cases (hc'.symm.trans hd)
        rw [hemitted']
        rfl
      · cases hc'.symm.trans hnone

end

end

end QuicEndpoint
end Ringline.Quic
