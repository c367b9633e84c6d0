import Ringline.Quic.Effects

/-!
# Stateless responses

Quinn answers some datagrams without a connection: a version negotiation, a retry, a refusal.  It
writes the packet to a buffer that `handle_datagram` gives it, at the end of what is there, and
reports the length of the buffer as the size of the packet.  The wrapper keeps one such buffer for
all datagrams and never clears it.

So the buffer holds all that quinn has ever written (`responseBuf_run`), and a response has the bytes
of all earlier ones in front.  It is what quinn wrote for the datagram if and only if quinn wrote
nothing for any datagram before (`response_exact_iff`, `response_repeats_earlier`).
-/

set_option autoImplicit false

namespace Ringline.Quic

open List Machine

/-- What quinn writes to the buffer while a datagram is handled. -/
def Datagram.bytes (d : Datagram) : Bytes :=
  d.written ++
    match d.event with
    | some (.newConnection written _) => written
    | _ => []

/-- The stateless packet that quinn asks for. -/
def Datagram.reply (d : Datagram) : Option Reply :=
  match d.event with
  | some (.response t) => some t
  | some (.newConnection _ (.error t)) => t
  | _ => none

/-- What quinn writes to the buffer during a call. -/
def Input.bytes : Input → Bytes
  | .handleDatagram d => d.bytes
  | _ => []

/-- Quinn appends to the buffer, reports its length, and answers to the sender. -/
structure Datagram.Honest (d : Datagram) (buf : Bytes) (t : Reply) : Prop where
  destination : t.destination = d.peer
  size : t.size = (buf ++ d.bytes).length

namespace QuicEndpoint

/-! ## Nothing else touches the buffer -/

section

variable (e : QuicEndpoint)

theorem responseBuf_pollConnection (key : Nat) (a : PollAnswers) :
    (e.pollConnection key a).responseBuf = e.responseBuf := by
  obtain ⟨e₁, new, hhears, heq⟩ := polled e key a
  rw [heq, ← hhears.responseBuf]
  split
  · rw [responseBuf_removeConnection]
  · rfl

theorem responseBuf_drainTransmits (transmits : List Transmit) :
    (e.drainTransmits transmits).responseBuf = e.responseBuf :=
  (hears_drainTransmits 0 e transmits).responseBuf

theorem responseBuf_respond (t : Reply) : (e.respond t).responseBuf = e.responseBuf := by
  rw [respond, queuePacket]
  split <;> rfl

theorem responseBuf_handleDatagram (d : Datagram) :
    (e.handleDatagram d).responseBuf = e.responseBuf ++ d.bytes := by
  rw [handleDatagram, Datagram.bytes]
  rcases d.event with _ | ⟨handle, poll⟩ | ⟨written, result⟩ | t
  · rw [append_nil]
  · dsimp only
    split
    · rw [responseBuf_pollConnection, append_nil]
      rfl
    · rw [append_nil]
  · rcases result with ⟨handle, remote, has0rtt, transmits, poll⟩ | _ | t
    · rw [responseBuf_pollConnection, responseBuf_drainTransmits, insertConnection,
        append_assoc]
    · exact append_assoc ..
    · rw [responseBuf_respond, append_assoc]
  · rw [responseBuf_respond, append_nil]

theorem responseBuf_driveTimers (expired : Nat → Option TimerAnswers) :
    (e.driveTimers expired).responseBuf = e.responseBuf := by
  rw [driveTimers]
  generalize e.connections.keys = keys
  induction keys generalizing e with
  | nil => rfl
  | cons k keys ih =>
    rw [foldl_cons, ih]
    split
    · split
      · rw [responseBuf_pollConnection, responseBuf_drainTransmits]
        rfl
      · rfl
    · rfl

/-- A call adds to the buffer what quinn writes during it. -/
theorem responseBuf_step (i : Input) : (e.step i).responseBuf = e.responseBuf ++ i.bytes := by
  cases i with
  | handleDatagram d => exact responseBuf_handleDatagram e d
  | driveTimers expired =>
    rw [step, responseBuf_driveTimers, Input.bytes, append_nil]
    exact nofun
  | flush transmits =>
    rw [step, (hears_flush 0 e transmits).responseBuf]
    exact (append_nil _).symm
  | connect answer transmits =>
    refine Eq.trans ?_ (append_nil _).symm
    simp only [step, connect]
    split
    · split
      · rfl
      · exact responseBuf_drainTransmits _ transmits
    · rfl
  | close conn code reason transmits =>
    obtain ⟨new, hhears⟩ := hears_closeConnection e conn code reason transmits
    rw [step, hhears.responseBuf]
    exact (append_nil _).symm
  | op conn op =>
    rw [step, (hears_perform e conn op).responseBuf]
    exact (append_nil _).symm
  | pollEvent | pollSend | batch => exact (append_nil _).symm
  | endBatch transmits =>
    rw [step]
    split
    · rw [(hears_flush 0 _ transmits).responseBuf]
      exact (append_nil _).symm
    · exact (append_nil _).symm

/-- **The buffer holds everything that quinn ever wrote to it.** -/
theorem responseBuf_run (inputs : List Input) :
    (run step e inputs).responseBuf = e.responseBuf ++ inputs.flatMap Input.bytes := by
  induction inputs generalizing e with
  | nil => exact (append_nil _).symm
  | cons i rest ih =>
    rw [run_cons, ih, responseBuf_step, flatMap_cons, append_assoc]

theorem handleDatagram_of_reply {d : Datagram} {t : Reply} (h : d.reply = some t) :
    e.handleDatagram d = { e with responseBuf := e.responseBuf ++ d.bytes }.respond t := by
  obtain ⟨peer, bytes, event⟩ := d
  rw [Datagram.reply] at h
  rw [handleDatagram, Datagram.bytes]
  rcases event with _ | ⟨handle, poll⟩ | ⟨written, result⟩ | t'
  · cases h
  · cases h
  · rcases result with ⟨handle, remote, has0rtt, transmits, poll⟩ | t'
    · cases h
    · obtain rfl : t' = some t := h
      dsimp only
      rw [append_assoc]
  · obtain rfl := Option.some_inj.mp h
    rw [append_nil]

end

/-- The packet that is queued for a datagram, if there is room. -/
theorem sendQueue_handleDatagram {e : QuicEndpoint} {d : Datagram} {t : Reply}
    (hreply : d.reply = some t) (hhonest : d.Honest e.responseBuf t) :
    (e.handleDatagram d).sendQueue =
      if e.sendQueueCapacity ≤ e.sendQueue.length then e.sendQueue
      else e.sendQueue ++ [⟨d.peer, e.responseBuf ++ d.bytes, none⟩] := by
  rw [handleDatagram_of_reply e hreply, respond, queuePacket, hhonest.destination, hhonest.size,
    take_length]
  split <;> rfl

/-- **When a response is what quinn wrote for the datagram.**  A datagram comes after any calls of
the endpoint, and quinn answers it with a stateless packet.  What is queued has the bytes that quinn
wrote for this datagram, and nothing else, if and only if quinn wrote nothing to the buffer before;
or the queue is full and nothing is queued. -/
theorem response_exact_iff (clientConfig : Bool) (capacity : Nat) (inputs : List Input)
    (d : Datagram) {t : Reply} (hreply : d.reply = some t)
    (hhonest : d.Honest (run step (new clientConfig capacity) inputs).responseBuf t) :
    (∀ p, ((run step (new clientConfig capacity) inputs).handleDatagram d).sendQueue =
        (run step (new clientConfig capacity) inputs).sendQueue ++ [p] →
        p.data = d.bytes ∧ p.destination = d.peer) ↔
      (run step (new clientConfig capacity) inputs).sendQueueCapacity ≤
          (run step (new clientConfig capacity) inputs).sendQueue.length ∨
        ∀ i ∈ inputs, i.bytes = [] := by
  have hbuf := responseBuf_run (new clientConfig capacity) inputs
  have hqueue := sendQueue_handleDatagram hreply hhonest
  generalize run step (new clientConfig capacity) inputs = e at hbuf hqueue ⊢
  have hearlier : e.responseBuf = [] ↔ ∀ i ∈ inputs, i.bytes = [] := by
    rw [hbuf]
    exact flatMap_eq_nil_iff
  rw [hqueue, ← hearlier]
  by_cases hfull : e.sendQueueCapacity ≤ e.sendQueue.length
  · rw [if_pos hfull]
    refine ⟨fun _ => .inl hfull, fun _ p hp => ?_⟩
    have := congrArg length hp
    rw [length_append, length_singleton] at this
    omega
  · rw [if_neg hfull]
    constructor
    · intro h
      have hdata := (h _ rfl).1
      exact .inr (append_left_eq_self.mp hdata)
    · rintro (h | h) p hp
      · exact absurd h hfull
      · obtain rfl := singleton_inj.mp (append_cancel_left hp)
        rw [h]
        exact ⟨rfl, rfl⟩

/-- A version negotiation of three bytes. -/
def negotiation (peer : SocketAddr) (byte : UInt8) (size : Nat) : Datagram :=
  ⟨peer, [byte, byte, byte], some (.response ⟨peer, size⟩)⟩

theorem response_exact_iff_first :
    ((new false 8).handleDatagram (negotiation 1 7 3)).sendQueue = [⟨1, [7, 7, 7], none⟩] ∧
      [7, 7, 7] = (negotiation 1 7 3).bytes ∧ 1 = (negotiation 1 7 3).peer := by
  exact ⟨rfl, (response_exact_iff false 8 [] (negotiation 1 7 3) (t := ⟨1, 3⟩) rfl ⟨rfl, rfl⟩).mpr
    (.inr nofun) ⟨1, [7, 7, 7], none⟩ rfl⟩

/-- Two peers send datagrams that need a response.  What goes to the second peer starts with the
response to the first. -/
theorem response_repeats_earlier :
    (negotiation 2 9 6).Honest
        ((new false 8).handleDatagram (negotiation 1 7 3)).responseBuf ⟨2, 6⟩ ∧
      (((new false 8).handleDatagram (negotiation 1 7 3)).handleDatagram
        (negotiation 2 9 6)).sendQueue = [⟨1, [7, 7, 7], none⟩, ⟨2, [7, 7, 7, 9, 9, 9], none⟩] :=
  ⟨⟨rfl, rfl⟩, rfl⟩

end QuicEndpoint
end Ringline.Quic
