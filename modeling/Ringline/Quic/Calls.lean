import Ringline.Quic.Effects

/-!
# What a call of the endpoint does

A call stores at most one connection, and stores it first (`Begins`).  After that it is a chain of
changes: something happens to one connection, or one is removed (`Changes`).  Everything that holds
along the runs of an endpoint is shown for these few cases, and `moves` says that there are no others.

The endpoint relies on quinn to say that a connection is lost before it is drained, or at the same
time (`Honest`).  Where that is so, only connections are removed whose end the application knows.
-/

set_option autoImplicit false

namespace Ringline.Quic.QuicEndpoint

open QuicEndpoint List

variable (e : QuicEndpoint)

/-- The key under which a call stores a new connection. -/
def inserts : Input → Option Nat
  | .handleDatagram d =>
    match d.event with
    | some (.newConnection _ (.ok ..)) => some e.connections.nextKey
    | _ => none
  | .connect (.ok _) _ => if e.clientConfig then some e.connections.nextKey else none
  | _ => none

/-- The connections that a call polls, with quinn's answers. -/
def polls : Input → List (Nat × PollAnswers)
  | .handleDatagram d =>
    match d.event with
    | some (.connectionEvent handle a) => (e.handleMap[handle]?.join).toList.map fun k => (k, a)
    | some (.newConnection _ (.ok _ _ _ _ a)) => [(e.connections.nextKey, a)]
    | _ => []
  | .driveTimers expired =>
    e.connections.keys.filterMap fun k => (expired k).map fun a => (k, a.poll)
  | _ => []

/-- The events that a call emits. -/
def emitted (i : Input) : List QuicEvent :=
  match i with
  | .pollEvent => []
  | i => (e.step i).events.drop e.events.length

/-- What quinn promises: a connection is drained only if it is reported lost, or if its end was known
before. -/
def Honest (i : Input) : Prop :=
  ∀ x ∈ e.polls i, x.2.drained = true → x.2.lost = true ∨
    ∃ c, e.connections.get? x.1 = some c ∧ c.closeEventEmitted = true

/-- A chain of changes, with the events that are emitted.  Under `H`, the end of a connection is known
before it is removed. -/
inductive Changes (H : Prop) (e : QuicEndpoint) : QuicEndpoint → List QuicEvent → Prop
  | nil : Changes H e e []
  | hears {key : Nat} {lost : Bool} {e₁ e₂ : QuicEndpoint} {new new' : List QuicEvent} :
      Changes H e e₁ new → Hears key lost e₁ e₂ new' → Changes H e e₂ (new ++ new')
  | remove {key : Nat} {e₁ : QuicEndpoint} {new : List QuicEvent} :
      Changes H e e₁ new →
      (H → ∃ c, e₁.connections.get? key = some c ∧ c.closeEventEmitted = true) →
      Changes H e (e₁.removeConnection key) new

/-- How a call begins: nothing that matters changes, or a connection is stored. -/
inductive Begins (e : QuicEndpoint) : Option Nat → QuicEndpoint → Prop
  | same {e₀ : QuicEndpoint} (hconnections : e₀.connections = e.connections)
      (hmap : e₀.handleMap = e.handleMap) : Begins e none e₀
  | insert (e₀ : QuicEndpoint) (handle remote : Nat) (has0rtt outbound : Bool)
      (hconnections : e₀.connections = e.connections) (hmap : e₀.handleMap = e.handleMap) :
      Begins e (some e.connections.nextKey) (e₀.insertConnection handle remote has0rtt outbound)

section

variable {H : Prop} {e e' e'' : QuicEndpoint} {key : Nat} {lost : Bool} {new new' : List QuicEvent}

theorem Changes.of_hears (h : Hears key lost e e' new) : Changes H e e' new := .hears .nil h

theorem Changes.trans (h : Changes H e e' new) (h' : Changes H e' e'' new') :
    Changes H e e'' (new ++ new') := by
  induction h' with
  | nil =>
    rw [append_nil]
    exact h
  | hears _ hh ih =>
    rw [← append_assoc]
    exact ih.hears hh
  | remove _ hknown ih => exact ih.remove hknown

theorem Changes.events (h : Changes H e e' new) : e'.events = e.events ++ new := by
  induction h with
  | nil => exact (append_nil _).symm
  | hears _ hh ih => rw [hh.events, ih, append_assoc]
  | remove _ _ ih => rw [events_removeConnection, ih]

/-! ## Polling -/

theorem get?_pollConnection_of_ne {j : Nat} (hj : j ≠ key) (a : PollAnswers) :
    (e.pollConnection key a).connections.get? j = e.connections.get? j := by
  obtain ⟨e₁, new, hhears, heq⟩ := polled e key a
  rw [heq, ← hhears.other j hj]
  split
  · rw [get?_removeConnection, if_neg hj]
  · rfl

theorem changes_pollConnection (key : Nat) (a : PollAnswers)
    (hhonest : H → a.drained = true → a.lost = true ∨
      ∃ c, e.connections.get? key = some c ∧ c.closeEventEmitted = true) :
    ∃ new, Changes H e (e.pollConnection key a) new := by
  obtain ⟨e₁, new, hhears, heq⟩ := polled e key a
  refine ⟨new, ?_⟩
  rw [heq]
  split
  · rename_i hremoved
    rw [Bool.and_eq_true, Bool.not_eq_true'] at hremoved
    refine .remove (.of_hears hhears) fun hH => ?_
    obtain ⟨c, hc, hclosed⟩ := (hhonest hH hremoved.1).resolve_left fun hlost =>
      Bool.false_ne_true (hremoved.2.symm.trans hlost)
    obtain ⟨c', hc', hheard⟩ := hhears.self c hc
    exact ⟨c', hc', by rw [hheard.closeEventEmitted, hclosed, Bool.or_true]⟩
  · exact .of_hears hhears

/-- The same after a change that tells nothing of the end of the connection. -/
theorem changes_hears_pollConnection (h : Hears key false e e' []) (a : PollAnswers)
    (hhonest : H → a.drained = true → a.lost = true ∨
      ∃ c, e.connections.get? key = some c ∧ c.closeEventEmitted = true) :
    ∃ new, Changes H e (e'.pollConnection key a) new := by
  obtain ⟨new, hchanges⟩ := changes_pollConnection (H := H) (e := e') key a fun hH hdrained =>
    (hhonest hH hdrained).imp_right fun ⟨c, hc, hclosed⟩ => by
      obtain ⟨c', hc', hheard⟩ := h.self c hc
      exact ⟨c', hc', hheard.closeEventEmitted.trans hclosed⟩
  exact ⟨_, (Changes.of_hears h).trans hchanges⟩

variable {expired : Nat → Option TimerAnswers}

/-- What `drive_timers` does with one connection. -/
def tick (expired : Nat → Option TimerAnswers) (e : QuicEndpoint) (key : Nat) : QuicEndpoint :=
  if e.connections.contains key then
    match expired key with
    | some a => ((e.call key .handleTimeout).drainTransmits a.transmits).pollConnection key a.poll
    | none => e
  else e

theorem driveTimers_eq (e : QuicEndpoint) (expired : Nat → Option TimerAnswers) :
    e.driveTimers expired = e.connections.keys.foldl (tick expired) e := rfl

theorem hears_timeout (e : QuicEndpoint) (key : Nat) (transmits : List Transmit) :
    Hears key false e ((e.call key .handleTimeout).drainTransmits transmits) [] :=
  (hears_call key e .handleTimeout).trans (hears_drainTransmits key _ transmits)

theorem get?_tick_of_ne {j : Nat} (hj : j ≠ key) :
    (tick expired e key).connections.get? j = e.connections.get? j := by
  rw [tick]
  split
  · split
    · rename_i a _
      rw [get?_pollConnection_of_ne hj, (hears_timeout e key a.transmits).other j hj]
    · rfl
  · rfl

theorem get?_ticks_of_notMem {j : Nat} {keys : List Nat} (hj : j ∉ keys) :
    (keys.foldl (tick expired) e).connections.get? j = e.connections.get? j := by
  induction keys generalizing e with
  | nil => rfl
  | cons k keys ih =>
    rw [mem_cons, not_or] at hj
    rw [foldl_cons, ih hj.2, get?_tick_of_ne hj.1]

theorem changes_tick (expired : Nat → Option TimerAnswers) (key : Nat) (e : QuicEndpoint)
    (hhonest : H → ∀ a, expired key = some a → a.poll.drained = true → a.poll.lost = true ∨
      ∃ c, e.connections.get? key = some c ∧ c.closeEventEmitted = true) :
    ∃ new, Changes H e (tick expired e key) new := by
  rw [tick]
  split
  · split
    · rename_i a ha
      exact changes_hears_pollConnection (hears_timeout e key a.transmits) a.poll fun hH =>
        hhonest hH a ha
    · exact ⟨[], .nil⟩
  · exact ⟨[], .nil⟩

theorem changes_ticks {keys : List Nat} (hnodup : keys.Nodup)
    (hhonest : H → ∀ k ∈ keys, ∀ a, expired k = some a → a.poll.drained = true →
      a.poll.lost = true ∨ ∃ c, e.connections.get? k = some c ∧ c.closeEventEmitted = true) :
    ∃ new, Changes H e (keys.foldl (tick expired) e) new := by
  induction keys generalizing e with
  | nil => exact ⟨[], .nil⟩
  | cons k keys ih =>
    rw [nodup_cons] at hnodup
    obtain ⟨new, hfirst⟩ := changes_tick (H := H) expired k e fun hH =>
      hhonest hH k mem_cons_self
    obtain ⟨new', hrest⟩ := ih (e := tick expired e k) hnodup.2 fun hH j hj a ha hdrained => by
      have hne : j ≠ k := fun heq => hnodup.1 (heq ▸ hj)
      rw [get?_tick_of_ne hne]
      exact hhonest hH j (mem_cons_of_mem k hj) a ha hdrained
    exact ⟨new ++ new', hfirst.trans hrest⟩

/-! ## Every call -/

/-- What a call comes to, if it does not take an event away. -/
theorem moves_of_changes {i : Input} (e₀ : QuicEndpoint) (hbegins : Begins e (e.inserts i) e₀)
    (hi : i ≠ .pollEvent) (hevents : e₀.events = e.events)
    (h : ∃ new, Changes (e.Honest i) e₀ (e.step i) new) :
    ∃ e₀, Begins e (e.inserts i) e₀ ∧ Changes (e.Honest i) e₀ (e.step i) (e.emitted i) := by
  obtain ⟨new, hchanges⟩ := h
  have hemitted : e.emitted i = new := by
    have : e.emitted i = (e.step i).events.drop e.events.length := by
      cases i with
      | pollEvent => exact absurd rfl hi
      | _ => rfl
    rw [this, hchanges.events, hevents, drop_left]
  rw [hemitted]
  exact ⟨e₀, hbegins, hchanges⟩

/-- A call that changes neither the connections nor the map, and emits nothing. -/
theorem moves_of_same {i : Input} (hins : e.inserts i = none) (hi : i ≠ .pollEvent)
    (hconnections : (e.step i).connections = e.connections)
    (hmap : (e.step i).handleMap = e.handleMap) (hevents : (e.step i).events = e.events) :
    ∃ e₀, Begins e (e.inserts i) e₀ ∧ Changes (e.Honest i) e₀ (e.step i) (e.emitted i) :=
  moves_of_changes _ (hins ▸ .same hconnections hmap) hi hevents ⟨[], .nil⟩

section

variable (e : QuicEndpoint)

theorem respond_eq (t : Reply) :
    (e.respond t).connections = e.connections ∧ (e.respond t).handleMap = e.handleMap ∧
      (e.respond t).events = e.events := by
  rw [respond, queuePacket]
  split <;> exact ⟨rfl, rfl, rfl⟩

theorem moves_handleDatagram (d : Datagram) :
    ∃ e₀, Begins e (e.inserts (.handleDatagram d)) e₀ ∧
      Changes (e.Honest (.handleDatagram d)) e₀ (e.step (.handleDatagram d))
        (e.emitted (.handleDatagram d)) := by
  obtain ⟨peer, bytes, event⟩ := d
  rcases event with _ | ⟨handle, a⟩ | ⟨written, result⟩ | t
  · exact moves_of_same rfl nofun rfl rfl rfl
  · cases hkey : e.handleMap[handle]?.join with
    | none =>
      have heq : e.step (.handleDatagram ⟨peer, bytes, some (.connectionEvent handle a)⟩) =
          { e with responseBuf := e.responseBuf ++ bytes } := by
        rw [step, handleDatagram]
        dsimp only
        rw [hkey]
      refine moves_of_same rfl nofun ?_ ?_ ?_
      all_goals rw [heq]
    | some k =>
      have hpolled : (k, a) ∈
          e.polls (.handleDatagram ⟨peer, bytes, some (.connectionEvent handle a)⟩) := by
        rw [polls]
        dsimp only
        rw [hkey]
        exact mem_singleton_self _
      refine moves_of_changes { e with responseBuf := e.responseBuf ++ bytes }
        (.same rfl rfl) nofun rfl ?_
      rw [step, handleDatagram]
      dsimp only
      rw [hkey]
      exact changes_hears_pollConnection (hears_call k _ .handleEvent) a fun hh => hh _ hpolled
  · rcases result with ⟨handle, remote, has0rtt, transmits, a⟩ | _ | t
    · have hbegins := Begins.insert (e := e)
        { e with responseBuf := e.responseBuf ++ bytes ++ written } handle remote has0rtt false
        rfl rfl
      refine moves_of_changes _ hbegins nofun rfl ?_
      refine changes_hears_pollConnection (hears_drainTransmits _ _ transmits) a
        fun hh hdrained => ?_
      refine (hh (e.connections.nextKey, a) (mem_singleton_self _) hdrained).imp_right ?_
      rintro ⟨c, hc, -⟩
      cases hc.symm.trans e.connections.get?_nextKey
    · exact moves_of_same rfl nofun rfl rfl rfl
    · obtain ⟨hconnections, hmap, hevents⟩ :=
        respond_eq { e with responseBuf := e.responseBuf ++ bytes ++ written } t
      exact moves_of_same rfl nofun hconnections hmap hevents
  · obtain ⟨hconnections, hmap, hevents⟩ :=
      respond_eq { e with responseBuf := e.responseBuf ++ bytes } t
    exact moves_of_same rfl nofun hconnections hmap hevents

theorem moves_connect (answer : Except ConnectError (Nat × SocketAddr × Bool))
    (transmits : List Transmit) :
    ∃ e₀, Begins e (e.inserts (.connect answer transmits)) e₀ ∧
      Changes (e.Honest (.connect answer transmits)) e₀ (e.step (.connect answer transmits))
        (e.emitted (.connect answer transmits)) := by
  rcases answer with err | ⟨handle, remote, has0rtt⟩
  · refine moves_of_same rfl nofun ?_ ?_ ?_
    all_goals
      simp only [step, connect]
      split <;> rfl
  · cases hconfig : e.clientConfig with
    | false =>
      have heq : e.step (.connect (.ok (handle, remote, has0rtt)) transmits) = e := by
        simp [step, connect, hconfig]
      refine moves_of_same ?_ nofun ?_ ?_ ?_
      · rw [inserts, hconfig]
        rfl
      all_goals rw [heq]
    | true =>
      have heq : e.step (.connect (.ok (handle, remote, has0rtt)) transmits) =
          (e.insertConnection handle remote has0rtt true).drainTransmits transmits := by
        simp [step, connect, hconfig]
      have hins : e.inserts (.connect (.ok (handle, remote, has0rtt)) transmits) =
          some e.connections.nextKey := by
        rw [inserts, hconfig]
        rfl
      have hbegins := Begins.insert (e := e) e handle remote has0rtt true rfl rfl
      rw [← hins] at hbegins
      refine moves_of_changes _ hbegins nofun rfl ?_
      rw [heq]
      exact ⟨[], .of_hears (hears_drainTransmits 0 _ transmits)⟩

/-- **What a call does.** -/
theorem moves (i : Input) :
    ∃ e₀, Begins e (e.inserts i) e₀ ∧ Changes (e.Honest i) e₀ (e.step i) (e.emitted i) := by
  cases i with
  | handleDatagram d => exact moves_handleDatagram e d
  | driveTimers expired =>
    refine moves_of_changes _ (.same rfl rfl) nofun rfl ?_
    rw [step, driveTimers_eq]
    refine changes_ticks e.connections.nodup_keys fun hh k hk a ha hdrained => ?_
    exact hh (k, a.poll) (mem_filterMap.mpr ⟨k, hk, by rw [ha]; rfl⟩) hdrained
  | flush transmits =>
    exact moves_of_changes _ (.same rfl rfl) nofun rfl ⟨[], .of_hears (hears_flush 0 e transmits)⟩
  | connect answer transmits => exact moves_connect e answer transmits
  | close conn code reason transmits =>
    obtain ⟨new, hhears⟩ := hears_closeConnection e conn code reason transmits
    exact moves_of_changes _ (.same rfl rfl) nofun rfl ⟨new, .of_hears hhears⟩
  | op conn op =>
    exact moves_of_changes _ (.same rfl rfl) nofun rfl ⟨[], .of_hears (hears_perform e conn op)⟩
  | pollEvent => exact ⟨e.step .pollEvent, .same rfl rfl, .nil⟩
  | pollSend => exact moves_of_same rfl nofun rfl rfl rfl
  | batch => exact moves_of_same rfl nofun rfl rfl rfl
  | endBatch transmits =>
    refine moves_of_changes { e with batchDepth := e.batchDepth - 1 } (.same rfl rfl)
      nofun rfl ?_
    rw [step]
    split
    · exact ⟨[], .of_hears (hears_flush 0 { e with batchDepth := e.batchDepth - 1 } transmits)⟩
    · exact ⟨[], .nil⟩

end

end

end Ringline.Quic.QuicEndpoint
