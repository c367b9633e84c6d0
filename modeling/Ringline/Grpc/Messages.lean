import Ringline.Base.Framing
import Ringline.Grpc.CallStatus

/-!
# The messages of a call

The DATA of a response is a sequence of messages, each with a prefix that gives its length, and it is
cut into DATA frames without regard to the messages.  `framing` is the decoder of the connection as a
`Framing`, so that the messages in the buffer and what they leave do not depend on the cuts
(`reassemble_eq_drain`, `Framing.drain_append`).

The buffer has a cap of its own: one message of the maximal size with its prefix.  It is compared with
everything that a frame adds to the buffer, before any message is taken out.  A frame with the end of
one message and a part of the next may be refused, although every message is within the cap
(`two_messages_refused`).  `messages_delivered_iff` says that this is the only obstacle: the messages
are delivered, in order and followed by one status, if and only if every frame fits into the buffer
when it comes (`Fits`).
-/

set_option autoImplicit false

namespace Ringline.Grpc

open H2 (H2Event HeaderField be32Bytes)
open List Machine

/-! ## The decoder as a framing -/

section
variable (build : Build) (encoding : Option String) (max cap : Nat)

/-- What the loop over the messages sees at the front of the buffer. -/
def nextMessage (b : List UInt8) : Found UInt8 (List UInt8) (GrpcStatus × String) :=
  match decode b cap with
  | .complete payload compressed consumed =>
    match unpack build encoding max compressed payload with
    | .ok data => .item data (b.drop consumed)
    | .error failure => .bad failure
  | .incomplete _ => .more
  | .tooLarge n => .bad (.resourceExhausted, s!"message length {n} exceeds cap {max}")

variable {build encoding max cap} {b : List UInt8}

theorem nextMessage_item {data r : List UInt8}
    (h : nextMessage build encoding max cap b = .item data r) :
    ∃ payload compressed consumed, decode b cap = .complete payload compressed consumed ∧
      unpack build encoding max compressed payload = .ok data ∧ r = b.drop consumed := by
  rw [nextMessage] at h
  rcases hd : decode b cap with ⟨payload, compressed, consumed⟩ | n | n
  · rw [hd] at h
    dsimp only at h
    rcases hu : unpack build encoding max compressed payload with failure | data'
    · rw [hu] at h
      cases h
    · rw [hu] at h
      injection h with hdata hr
      exact ⟨payload, compressed, consumed, rfl, by rw [hu, hdata], hr.symm⟩
  · rw [hd] at h
    cases h
  · rw [hd] at h
    cases h

/-- What is found does not depend on what comes behind. -/
theorem nextMessage_append (c : List UInt8) (h : ∀ n, decode b cap ≠ .incomplete n) :
    nextMessage build encoding max cap (b ++ c) =
      match nextMessage build encoding max cap b with
      | .item data r => .item data (r ++ c)
      | other => other := by
  rw [nextMessage, nextMessage, decode_append h c]
  rcases hd : decode b cap with ⟨payload, compressed, consumed⟩ | n | n
  · dsimp only
    rcases unpack build encoding max compressed payload with failure | data
    · rfl
    · exact congrArg (Found.item data) (drop_append_of_le_length (decode_complete hd).2)
  · exact absurd hd (h n)
  · rfl

theorem nextMessage_incomplete {n : Nat} (h : decode b cap = .incomplete n) :
    nextMessage build encoding max cap b = .more := by
  rw [nextMessage, h]

variable (build encoding max cap)

/-- The messages in a buffer. -/
def framing : Framing UInt8 (List UInt8) (GrpcStatus × String) where
  next := nextMessage build encoding max cap
  shorter := by
    intro b data r h
    obtain ⟨payload, compressed, consumed, hd, -, rfl⟩ := nextMessage_item h
    have hbound := decode_complete hd
    rw [length_drop]
    omega
  item_append := by
    intro b data r c h
    rw [nextMessage_append c, h]
    intro n hn
    rw [nextMessage_incomplete hn] at h
    cases h
  bad_append := by
    intro b failure c h
    rw [nextMessage_append c, h]
    intro n hn
    rw [nextMessage_incomplete hn] at h
    cases h

variable {build encoding max cap}

/-- **The loop over the messages drains the buffer.** -/
theorem reassemble_eq_drainN (build : Build) (encoding : Option String) (max cap n : Nat)
    (b : List UInt8) :
    (reassemble build encoding max n ⟨b, cap⟩).messages =
        ((framing build encoding max cap).drainN n b).items ∧
      (reassemble build encoding max n ⟨b, cap⟩).failure =
        ((framing build encoding max cap).drainN n b).error ∧
      (((framing build encoding max cap).drainN n b).error = none →
        (reassemble build encoding max n ⟨b, cap⟩).buffer =
          ⟨((framing build encoding max cap).drainN n b).rest, cap⟩) := by
  induction n generalizing b with
  | zero => exact ⟨rfl, rfl, fun _ => rfl⟩
  | succ n ih =>
    rw [reassemble, Framing.drainN, MessageBuffer.tryDecode]
    have hnext : (framing build encoding max cap).next b = nextMessage build encoding max cap b := rfl
    rw [hnext, nextMessage]
    rcases decode b cap with ⟨payload, compressed, consumed⟩ | missing | len
    · dsimp only
      rcases unpack build encoding max compressed payload with failure | data
      · exact ⟨rfl, rfl, by simp⟩
      · obtain ⟨hmessages, hfailure, hbuffer⟩ := ih (b.drop consumed)
        exact ⟨congrArg (data :: ·) hmessages, hfailure, hbuffer⟩
    · exact ⟨rfl, rfl, fun _ => rfl⟩
    · exact ⟨rfl, rfl, by simp⟩

theorem reassemble_eq_drain (h : ((framing build encoding max cap).drain b).error = none) :
    reassemble build encoding max (b.length + 1) ⟨b, cap⟩ =
      ⟨((framing build encoding max cap).drain b).items, none,
        ⟨((framing build encoding max cap).drain b).rest, cap⟩⟩ := by
  obtain ⟨hmessages, hfailure, hbuffer⟩ :=
    reassemble_eq_drainN build encoding max cap (b.length + 1) b
  exact Reassembled.ext hmessages (hfailure.trans h) (hbuffer h)

end

/-! ## Messages on the wire -/

/-- A message that the server sends: the flag and the payload on the wire, and what they are to be
delivered as. -/
structure Sent where
  flag : UInt8
  payload : List UInt8
  data : List UInt8

/-- The message is within the cap, and can be unpacked. -/
structure Sent.Sound (build : Build) (encoding : Option String) (max cap : Nat) (m : Sent) : Prop where
  encodes : m.payload.length < 2 ^ 32
  within : m.payload.length ≤ cap
  unpacks : unpack build encoding max (m.flag ≠ 0) m.payload = .ok m.data

/-- The bytes of a message. -/
def Sent.encoded (m : Sent) : List UInt8 := m.flag :: be32Bytes m.payload.length ++ m.payload

/-- The bytes of some messages. -/
def wire (messages : List Sent) : List UInt8 := messages.flatMap Sent.encoded

section
variable {build : Build} {encoding : Option String} {max cap : Nat}

theorem next_wire {m : Sent} (h : m.Sound build encoding max cap) (rest : List UInt8) :
    (framing build encoding max cap).next (m.encoded ++ rest) = .item m.data rest := by
  have hwire : encodeWith m.flag m.payload = .ok m.encoded := if_pos h.encodes
  have hnext : ∀ b, (framing build encoding max cap).next b = nextMessage build encoding max cap b :=
    fun _ => rfl
  rw [hnext, nextMessage, decode_encodeWith hwire h.within rest]
  dsimp only
  rw [h.unpacks, drop_left]

/-- **The messages can be read back.** -/
theorem drain_wire {messages : List Sent} (h : ∀ m ∈ messages, m.Sound build encoding max cap) :
    (framing build encoding max cap).drain (wire messages) = ⟨messages.map (·.data), none, []⟩ := by
  induction messages with
  | nil => rfl
  | cons m messages ih =>
    obtain ⟨hm, hrest⟩ := forall_mem_cons.mp h
    rw [wire, flatMap_cons, ← wire, Framing.drain_of_item (next_wire hm _), ih hrest]
    rfl

end

/-! ## A stream among others -/

namespace GrpcConnection

/-- The stream is the same for both connections. -/
structure Same (sid : Nat) (g g' : GrpcConnection) : Prop where
  state : g'.buffers.get? sid = g.buffers.get? sid
  events : g'.eventsOf sid = g.eventsOf sid
  maxMessageSize : g'.maxMessageSize = g.maxMessageSize

/-- The step is not about the stream. -/
def Aside (build : Build) (sid : Nat) (g : GrpcConnection) : Action → Prop
  | .event (.goAway last _ _) => sid ≤ last
  | .event e => e.stream ≠ some sid
  | .cancel k => k ≠ sid
  | .setMaxMessageSize n => n = g.maxMessageSize
  | a => g.begun build a ≠ some sid

section
variable {build : Build} {sid k : Nat} {evs : List GrpcEvent} {g g' g'' : GrpcConnection}

theorem Same.refl (sid : Nat) (g : GrpcConnection) : Same sid g g := ⟨rfl, rfl, rfl⟩

theorem Same.trans (h : Same sid g g') (h' : Same sid g' g'') : Same sid g g'' :=
  ⟨h'.state.trans h.state, h'.events.trans h.events, h'.maxMessageSize.trans h.maxMessageSize⟩

theorem eventsOf_append (evs : List GrpcEvent) (h : g'.events = g.events ++ evs) (sid : Nat) :
    g'.eventsOf sid = g.eventsOf sid ++ evs.filter (·.stream = some sid) := by
  rw [eventsOf, eventsOf, h, filter_append]

theorem Concerns.eventsOf (h : Concerns k evs g g') : g'.eventsOf k = g.eventsOf k ++ evs := by
  rw [eventsOf_append _ h.events, filter_of_stream h.stream]

theorem Leaves.same (h : Leaves sid g g') : Same sid g g' := by
  obtain ⟨evs, hevents, hother⟩ := h.events
  refine ⟨h.state, ?_, h.maxMessageSize⟩
  rw [eventsOf_append evs hevents, filter_of_other evs hother, append_nil]

theorem leaves_goAway {last : Nat} {code : H2.ErrorCode} {debugData : List UInt8} (h : sid ≤ last) :
    Leaves sid g (g.translateEvent build (.goAway last code debugData)) := by
  have hmem : sid ∉ g.stranded last := fun hmem =>
    absurd (of_decide_eq_true (mem_filter.mp hmem).2) (Nat.not_lt.mpr h)
  refine ⟨⟨_, rfl, fun e he hs => ?_⟩, (Table.get?_eraseAll _ _ sid).trans (if_neg hmem), rfl⟩
  rcases mem_append.mp he with he | he
  · obtain ⟨k, hk, rfl⟩ := mem_map.mp he
    exact hmem (Option.some.inj hs ▸ hk)
  · rw [mem_singleton.mp he] at hs
    cases hs

theorem same_event {e : H2Event} (h : Aside build sid g (.event e)) :
    Same sid g (g.translateEvent build e) := by
  rcases hk : e.stream with _ | k
  · cases e with
    | goAway last code debugData => exact (leaves_goAway h).same
    | _ => exact (leaves_event build hk nofun).same
  · have hne : sid ≠ k := by
      rintro rfl
      cases e with
      | goAway last code debugData => cases hk
      | _ => exact h hk
    obtain ⟨evs, hconcerns, -⟩ := outcome_event build g hk
    exact (hconcerns.leaves hne).same

theorem same_cancel (h : k ≠ sid) : Same sid g (g.cancel k) := by
  rw [cancel]
  split
  · exact (Concerns.leaves (((concerns_resetStream g k .cancel).trans (concerns_remove _ k)).trans
      (concerns_status _ k .cancelled "cancelled by client" [])) (Ne.symm h)).same
  · exact ⟨rfl, rfl, rfl⟩

theorem same_step {a : Action} (h : Aside build sid g a) : Same sid g (g.step build a) := by
  cases a with
  | event e => exact same_event h
  | cancel k => exact same_cancel h
  | sendUnary service method body metadata deadline =>
    exact (leaves_sendUnary build g service method body metadata deadline h).same
  | startRequest service method metadata =>
    exact (leaves_startRequest build g service method metadata h).same
  | sendMessage k body es => exact (leaves_sendMessage g k body es sid).same
  | setMaxMessageSize n => exact ⟨rfl, rfl, h⟩

end

/-- The events of a stream come in this order, among steps that are not about it. -/
inductive Interleaves (build : Build) (sid : Nat) :
    GrpcConnection → List Action → List H2Event → Prop
  | nil (g : GrpcConnection) : Interleaves build sid g [] []
  | own {g : GrpcConnection} {e : H2Event} {as : List Action} {es : List H2Event}
      (h : Interleaves build sid (g.step build (.event e)) as es) :
      Interleaves build sid g (.event e :: as) (e :: es)
  | aside {g : GrpcConnection} {a : Action} {as : List Action} {es : List H2Event}
      (haside : Aside build sid g a) (h : Interleaves build sid (g.step build a) as es) :
      Interleaves build sid g (a :: as) es

namespace Interleaves

variable {build : Build} {sid : Nat} {g : GrpcConnection} {as : List Action} {e : H2Event}
  {es : List H2Event}

/-- Nothing more happens to the stream. -/
theorem same_run (h : Interleaves build sid g as []) :
    Same sid g (run (step build) g as) := by
  generalize hes : ([] : List H2Event) = es at h
  induction h with
  | nil g => exact .refl sid g
  | own => cases hes
  | aside haside _ ih => exact (same_step haside).trans (ih hes)

/-- The next event of the stream. -/
theorem run_cons (h : Interleaves build sid g as (e :: es)) :
    ∃ g₁ as', Same sid g g₁ ∧ Interleaves build sid (g₁.translateEvent build e) as' es ∧
      run (step build) g as = run (step build) (g₁.translateEvent build e) as' := by
  generalize hes : e :: es = events at h
  induction h with
  | nil => cases hes
  | @own g e' as es' h _ =>
    obtain ⟨rfl, rfl⟩ := cons.inj hes
    exact ⟨g, as, .refl sid g, h, rfl⟩
  | @aside g a as es' haside _ ih =>
    obtain ⟨g₁, as', hsame, hrest, hrun⟩ := ih hes
    exact ⟨g₁, as', (same_step haside).trans hsame, hrest, hrun⟩

end Interleaves

/-! ## One response -/

/-- How the server ends a response. -/
inductive Ending where
  | data (last : List UInt8)
  | trailers (headers : List HeaderField)

def Ending.payloads : Ending → List (List UInt8)
  | .data last => [last]
  | .trailers _ => []

variable (sid : Nat)

def Ending.event : Ending → H2Event
  | .data last => .data sid last true
  | .trailers headers => .trailers sid headers

/-- The DATA frames of a response and its end. -/
def bodyEvents (frames : List (List UInt8)) (ending : Ending) : List H2Event :=
  frames.map (.data sid · false) ++ [ending.event sid]

/-- The encoding that the headers of a response give. -/
def encodingOf (headers : List HeaderField) : Option String :=
  headers.foldl (fun encoding h =>
    if headerNameEq h.name "grpc-encoding" then some (fromUtf8Lossy h.value) else encoding) none

/-- Every frame fits into the buffer, together with what the frames before it have left there. -/
def Fits (F : Framing UInt8 (List UInt8) (GrpcStatus × String)) (cap : Nat) :
    List UInt8 → List (List UInt8) → Prop
  | _, [] => True
  | left, p :: ps => left.length + p.length ≤ cap + 5 ∧ Fits F cap (F.drain (left ++ p)).rest ps

section
variable {build : Build} {encoding : Option String} {max cap sid : Nat} {g : GrpcConnection}
  {left p : List UInt8}

/-- The stream has this in its buffer. -/
def Holding (sid cap : Nat) (encoding : Option String) (left : List UInt8) (g : GrpcConnection) :
    Prop :=
  g.buffers.get? sid = some ⟨⟨left, cap⟩, encoding, true⟩

/-- A frame that fits. -/
theorem data_fits (hg : g.Holding sid cap encoding left) (hmax : g.maxMessageSize = max)
    (hfits : left.length + p.length ≤ cap + 5)
    (herror : ((framing build encoding max cap).drain (left ++ p)).error = none) :
    let d := (framing build encoding max cap).drain (left ++ p)
    (Holding sid cap encoding d.rest (g.translateEvent build (.data sid p false)) ∧
      (g.translateEvent build (.data sid p false)).eventsOf sid =
        g.eventsOf sid ++ d.items.map (.message sid) ∧
      (g.translateEvent build (.data sid p false)).maxMessageSize = max) ∧
    ∃ message, (g.translateEvent build (.data sid p true)).eventsOf sid =
      g.eventsOf sid ++ (d.items.map (.message sid) ++ [.status sid .internal message []]) := by
  intro d
  subst hmax
  have hpush : MessageBuffer.push ⟨left, cap⟩ p = .ok ⟨left ++ p, cap⟩ := if_neg (Nat.not_lt.mpr hfits)
  have heq : ∀ es, g.translateEvent build (.data sid p es) =
      g.takeData build sid ⟨⟨left, cap⟩, encoding, true⟩ p es :=
    fun es => handleData_seen build hg rfl p es
  have hspec := fun es => takeData_spec build g sid ⟨⟨left, cap⟩, encoding, true⟩ es hpush
    (reassemble_eq_drain herror)
  rw [heq, heq]
  constructor
  · obtain ⟨failed, last, hconcerns, hok, -⟩ := hspec false
    obtain ⟨rfl, hgoes⟩ := hok rfl
    obtain ⟨rfl, hget⟩ := hgoes rfl
    rw [append_nil, append_nil] at hconcerns
    exact ⟨hget, hconcerns.eventsOf, hconcerns.maxMessageSize⟩
  · obtain ⟨failed, last, hconcerns, hok, -, -, hends⟩ := hspec true
    obtain ⟨rfl, -⟩ := hok rfl
    obtain ⟨⟨message, rfl⟩, -⟩ := hends rfl
    rw [append_nil] at hconcerns
    exact ⟨message, hconcerns.eventsOf⟩

/-- A frame that does not fit ends the stream. -/
theorem data_refused (build : Build) (hg : g.Holding sid cap encoding left)
    (hfits : cap + 5 < left.length + p.length) (es : Bool) :
    ∃ message, (g.translateEvent build (.data sid p es)).eventsOf sid =
        g.eventsOf sid ++ [.status sid .resourceExhausted message []] ∧
      (g.translateEvent build (.data sid p es)).buffers.get? sid = none := by
  have heq : g.translateEvent build (.data sid p es) =
      g.takeData build sid ⟨⟨left, cap⟩, encoding, true⟩ p es := handleData_seen build hg rfl p es
  have hpush : MessageBuffer.push ⟨left, cap⟩ p = .error (.maxSizeExceeded
      s!"message reassembly buffer exceeds {cap + 5} bytes") := if_pos hfits
  rw [heq, takeData, hpush]
  exact ⟨_, (concerns_failStream g sid _ _).eventsOf, get?_remove _ sid⟩

theorem trailers_drained (hg : g.Holding sid cap encoding left) (hmax : g.maxMessageSize = max)
    (herror : ((framing build encoding max cap).drain left).error = none)
    (headers : List HeaderField) :
    ∃ status message metadata, (g.translateEvent build (.trailers sid headers)).eventsOf sid =
      g.eventsOf sid ++ (((framing build encoding max cap).drain left).items.map
        (.message sid) ++ [.status sid status message metadata]) := by
  subst hmax
  have hmessages : g.bufferedMessages build sid =
      ((framing build encoding g.maxMessageSize cap).drain left).items := by
    rw [bufferedMessages, hg]
    exact congrArg Reassembled.messages (reassemble_eq_drain herror)
  rw [← hmessages]
  exact ⟨_, _, _, (handleTrailers_spec build g sid headers).1.eventsOf⟩

/-- Of a stream that is not there, an event gives a status and nothing else. -/
theorem closed_event (build : Build) (hg : g.buffers.get? sid = none) {e : H2Event}
    (he : (∃ data es, e = .data sid data es) ∨ ∃ headers, e = .trailers sid headers) :
    ∃ last : GrpcEvent, last.isStatus = true ∧
      (g.translateEvent build e).eventsOf sid = g.eventsOf sid ++ [last] ∧
      (g.translateEvent build e).buffers.get? sid = none := by
  rcases he with ⟨data, es, rfl⟩ | ⟨headers, rfl⟩
  · obtain ⟨message, hconcerns, hnone⟩ :=
      handleData_unseen build (g := g) (k := sid) (by rw [hg]; rfl) data es
    exact ⟨_, rfl, hconcerns.eventsOf, hnone⟩
  · obtain ⟨hconcerns, hnone⟩ := handleTrailers_spec build g sid headers
    have hmessages : g.bufferedMessages build sid = [] := by rw [bufferedMessages, hg]
    rw [hmessages] at hconcerns
    exact ⟨_, rfl, hconcerns.eventsOf, hnone⟩

theorem closed_run {as : List Action} {es : List H2Event} (h : Interleaves build sid g as es)
    (hg : g.buffers.get? sid = none)
    (hes : ∀ e ∈ es, (∃ data es, e = .data sid data es) ∨ ∃ headers, e = .trailers sid headers) :
    ∃ statuses : List GrpcEvent, (∀ e ∈ statuses, e.isStatus = true) ∧
      (run (step build) g as).eventsOf sid = g.eventsOf sid ++ statuses := by
  induction es generalizing g as with
  | nil => exact ⟨[], nofun, h.same_run.events.trans (append_nil _).symm⟩
  | cons e es ih =>
    obtain ⟨g₁, as', hsame, hrest, hrun⟩ := h.run_cons
    obtain ⟨he, hes⟩ := forall_mem_cons.mp hes
    obtain ⟨last, hlast, hevents, hnone⟩ := closed_event build (hsame.state.trans hg) he
    obtain ⟨statuses, hstatuses, hall⟩ := ih hrest hnone hes
    refine ⟨last :: statuses, forall_mem_cons.mpr ⟨hlast, hstatuses⟩, ?_⟩
    rw [hrun, hall, hevents, hsame.events, append_assoc]
    rfl

/-- The events of a body are of these two kinds. -/
theorem bodyEvents_kind (sid : Nat) (frames : List (List UInt8)) (ending : Ending) :
    ∀ e ∈ bodyEvents sid frames ending,
      (∃ data es, e = .data sid data es) ∨ ∃ headers, e = .trailers sid headers := by
  intro e he
  rcases mem_append.mp he with he | he
  · obtain ⟨p, -, rfl⟩ := mem_map.mp he
    exact .inl ⟨p, false, rfl⟩
  · rw [mem_singleton.mp he]
    cases ending with
    | data last => exact .inl ⟨last, true, rfl⟩
    | trailers headers => exact .inr ⟨headers, rfl⟩

/-- The outcome of a body: all messages and one status, or fewer messages and then statuses. -/
inductive BodyOutcome (sid : Nat) (messages : List (List UInt8)) : Prop → List GrpcEvent → Prop
  | delivered {fits : Prop} {status : GrpcStatus} {message : String} {metadata : List HeaderField}
      (h : fits) : BodyOutcome sid messages fits
        (messages.map (.message sid) ++ [.status sid status message metadata])
  | refused {fits : Prop} (few : List (List UInt8)) {statuses : List GrpcEvent} (h : ¬ fits)
      (hlen : few.length < messages.length) (hstatuses : ∀ e ∈ statuses, e.isStatus = true) :
      BodyOutcome sid messages fits (few.map (.message sid) ++ statuses)

variable {messages : List (List UInt8)}

/-- What comes before the body. -/
theorem BodyOutcome.after {fits fits' : Prop} {evs : List GrpcEvent}
    (h : BodyOutcome sid messages fits evs) (first : List (List UInt8)) (hfits : fits ↔ fits') :
    BodyOutcome sid (first ++ messages) fits' (first.map (.message sid) ++ evs) := by
  cases h with
  | delivered h =>
    rw [← append_assoc, ← map_append]
    exact .delivered (hfits.mp h)
  | refused few h hlen hstatuses =>
    rw [← append_assoc, ← map_append]
    refine .refused _ (fun hf => h (hfits.mpr hf)) ?_ hstatuses
    rw [length_append, length_append]
    exact Nat.add_lt_add_left hlen _

/-- A frame that does not fit brings the end of a message. -/
theorem message_of_refused {F : Framing UInt8 (List UInt8) (GrpcStatus × String)}
    {later : List UInt8} (hfits : ¬ left.length + p.length ≤ cap + 5)
    (h : F.drain (left ++ p ++ later) = ⟨messages, none, []⟩) : 0 < messages.length := by
  refine length_pos_iff.mpr fun hnil => ?_
  have hrest := Framing.eq_rest_of_items_nil (F := F) (b := left ++ p ++ later) (by rw [h, hnil])
  have hlen := congrArg length hrest
  rw [h, length_append, length_append, length_nil] at hlen
  omega

theorem run_body {as : List Action} {frames : List (List UInt8)} {ending : Ending}
    (h : Interleaves build sid g as (bodyEvents sid frames ending))
    (hg : g.Holding sid cap encoding left) (hmax : g.maxMessageSize = max)
    (hall : (framing build encoding max cap).drain (left ++ (frames ++ ending.payloads).flatten) =
      ⟨messages, none, []⟩) :
    ∃ evs, (run (step build) g as).eventsOf sid = g.eventsOf sid ++ evs ∧
      BodyOutcome sid messages
        (Fits (framing build encoding max cap) cap left (frames ++ ending.payloads)) evs := by
  induction frames generalizing g as left messages with
  | nil =>
    obtain ⟨g₁, as', hsame, hrest, hrun⟩ := h.run_cons
    have hg₁ : g₁.Holding sid cap encoding left := hsame.state.trans hg
    have hmax₁ := hsame.maxMessageSize.trans hmax
    rw [hrun, hrest.same_run.events, ← hsame.events]
    cases ending with
    | data last =>
      have htotal : left ++ ([] ++ (Ending.data last).payloads).flatten = left ++ last := by
        simp [Ending.payloads]
      rw [htotal] at hall
      by_cases hfits : left.length + last.length ≤ cap + 5
      · obtain ⟨-, message, hevents⟩ := data_fits hg₁ hmax₁ hfits (by rw [hall])
        rw [hall] at hevents
        exact ⟨_, hevents, .delivered ⟨hfits, trivial⟩⟩
      · obtain ⟨message, hevents, -⟩ := data_refused build hg₁ (Nat.not_le.mp hfits) true
        rw [← append_nil (left ++ last)] at hall
        exact ⟨_, hevents, .refused [] (fun hf => hfits hf.1) (message_of_refused hfits hall)
          fun e he => mem_singleton.mp he ▸ rfl⟩
    | trailers headers =>
      have htotal : left ++ ([] ++ (Ending.trailers headers).payloads).flatten = left := by
        simp [Ending.payloads]
      rw [htotal] at hall
      obtain ⟨status, message, metadata, hevents⟩ :=
        trailers_drained hg₁ hmax₁ (by rw [hall]) headers
      rw [hall] at hevents
      exact ⟨_, hevents, .delivered trivial⟩
  | cons p frames ih =>
    obtain ⟨g₁, as', hsame, hrest, hrun⟩ := h.run_cons
    have hg₁ : g₁.Holding sid cap encoding left := hsame.state.trans hg
    have htotal : left ++ (p :: frames ++ ending.payloads).flatten =
        left ++ p ++ (frames ++ ending.payloads).flatten := by
      rw [cons_append, flatten_cons, append_assoc]
    rw [htotal] at hall
    rw [hrun, ← hsame.events]
    by_cases hfits : left.length + p.length ≤ cap + 5
    · have herror : ((framing build encoding max cap).drain (left ++ p)).error = none :=
        Framing.error_of_append (by rw [hall])
      obtain ⟨⟨hg₂, hevents, hmax₂⟩, -⟩ :=
        data_fits hg₁ (hsame.maxMessageSize.trans hmax) hfits herror
      rw [Framing.drain_append _ herror] at hall
      injection hall with hitems herror' hrest'
      obtain ⟨evs, hrunEvents, houtcome⟩ := ih hrest hg₂ hmax₂ (Drained.ext rfl herror' hrest')
      rw [← hitems, hrunEvents, hevents, append_assoc]
      refine ⟨_, rfl, houtcome.after _ ?_⟩
      exact ⟨fun hf => ⟨hfits, hf⟩, fun hf => hf.2⟩
    · obtain ⟨message, hevents, hnone⟩ :=
        data_refused build hg₁ (Nat.not_le.mp hfits) false
      obtain ⟨statuses, hstatuses, hclosed⟩ := closed_run hrest hnone (bodyEvents_kind sid frames ending)
      refine ⟨.status sid .resourceExhausted message [] :: statuses, ?_,
        .refused [] (fun hf => hfits hf.1) (message_of_refused hfits hall)
          (forall_mem_cons.mpr ⟨rfl, hstatuses⟩)⟩
      rw [hclosed, hevents, append_assoc]
      rfl

end

/-- All messages have been delivered, followed by one status. -/
def Delivered (messages : List (List UInt8)) (g g' : GrpcConnection) : Prop :=
  ∃ metadata status message trailers, g'.eventsOf sid = g.eventsOf sid ++
    (.response sid metadata ::
      (messages.map (.message sid) ++ [.status sid status message trailers]))

/-- The events of a response. -/
def responseEvents (headers : List HeaderField) (frames : List (List UInt8)) (ending : Ending) :
    List H2Event :=
  .response sid headers false :: bodyEvents sid frames ending

theorem response_fresh (build : Build) {g : GrpcConnection} {sid cap : Nat}
    (h : g.buffers.get? sid = some (.new cap)) (headers : List HeaderField) :
    Holding sid cap (encodingOf headers) [] (g.translateEvent build (.response sid headers false)) ∧
      (g.translateEvent build (.response sid headers false)).eventsOf sid =
        g.eventsOf sid ++ [.response sid headers] := by
  have heq : g.translateEvent build (.response sid headers false) =
      push { g with buffers := g.buffers.insert sid ⟨⟨[], cap⟩, encodingOf headers, true⟩ }
        [.response sid headers] := by
    rw [translateEvent, handleResponse, h]
    rfl
  rw [heq]
  refine ⟨(Table.get?_insert _ sid _ sid).trans (if_pos rfl), ?_⟩
  rw [eventsOf_append (g := g) [.response sid headers] rfl,
    filter_of_stream fun e he => mem_singleton.mp he ▸ rfl]

/-- The two outcomes of a body can be told apart by the number of messages. -/
theorem BodyOutcome.delivered_iff {sid : Nat} {messages : List (List UInt8)} {fits : Prop}
    {evs : List GrpcEvent} (h : BodyOutcome sid messages fits evs) :
    (∃ status message metadata,
      evs = messages.map (.message sid) ++ [.status sid status message metadata]) ↔ fits := by
  cases h with
  | delivered h => exact ⟨fun _ => h, fun _ => ⟨_, _, _, rfl⟩⟩
  | @refused few statuses h hlen hstatuses =>
    refine ⟨?_, fun hf => absurd hf h⟩
    rintro ⟨status, message, metadata, heq⟩
    have hfilter : ∀ ms : List (List UInt8),
        (ms.map (GrpcEvent.message sid)).filter (!·.isStatus) = ms.map (.message sid) :=
      fun ms => filter_eq_self.mpr fun e he => by rw [isStatus_messages sid ms e he]; rfl
    have hnone : statuses.filter (!·.isStatus) = [] :=
      filter_eq_nil_iff.mpr fun e he => by rw [hstatuses e he]; nofun
    have hlens := congrArg (fun evs => (evs.filter (!·.isStatus)).length) heq
    simp only [filter_append, hfilter, hnone, append_nil, length_map] at hlens
    have hlast : [GrpcEvent.status sid status message metadata].filter (!·.isStatus) = [] := rfl
    rw [hlast, append_nil, length_map] at hlens
    exact absurd hlens (Nat.ne_of_lt hlen)

/-- **The messages of a response are delivered**, in order and followed by one status, exactly if every
DATA frame fits into the buffer when it comes: wherever the frames are cut, and whatever happens on
other streams meanwhile. -/
theorem messages_delivered_iff (build : Build) (g : GrpcConnection) (sid cap : Nat)
    (hfresh : g.buffers.get? sid = some (.new cap)) (headers : List HeaderField)
    (messages : List Sent)
    (hsound : ∀ m ∈ messages, m.Sound build (encodingOf headers) g.maxMessageSize cap)
    (frames : List (List UInt8)) (ending : Ending)
    (hcut : (frames ++ ending.payloads).flatten = wire messages) (actions : List Action)
    (hactions : Interleaves build sid g actions (responseEvents sid headers frames ending)) :
    Delivered sid (messages.map (·.data)) g (run (step build) g actions) ↔
      Fits (framing build (encodingOf headers) g.maxMessageSize cap) cap []
        (frames ++ ending.payloads) := by
  obtain ⟨g₁, as, hsame, hrest, hrun⟩ := hactions.run_cons
  obtain ⟨hholding, hevents⟩ := response_fresh build (hsame.state.trans hfresh) headers
  have hmax : (g₁.translateEvent build (.response sid headers false)).maxMessageSize =
      g.maxMessageSize := hsame.maxMessageSize
  have hall : (framing build (encodingOf headers) g.maxMessageSize cap).drain
      ([] ++ (frames ++ ending.payloads).flatten) = ⟨messages.map (·.data), none, []⟩ := by
    rw [nil_append, hcut]
    exact drain_wire hsound
  obtain ⟨evs, hbody, houtcome⟩ := run_body hrest hholding hmax hall
  rw [← houtcome.delivered_iff, Delivered, hrun, hbody, hevents, hsame.events, append_assoc]
  simp only [append_cancel_left_eq, singleton_append, cons.injEq]
  constructor
  · rintro ⟨metadata, status, message, trailers, -, h⟩
    exact ⟨status, message, trailers, h⟩
  · rintro ⟨status, message, trailers, h⟩
    exact ⟨headers, status, message, trailers, rfl, h⟩

/-! ## Two messages -/

/-- A connection with a cap of one byte on which a call has begun. -/
def capped : GrpcConnection :=
  run (step .plain) (new .clientDefault .listed .listed)
    [.event .settingsAcknowledged, .setMaxMessageSize 1, .startRequest "s" "m" []]

/-- Two messages of one byte. -/
def twoMessages : List Sent := [⟨0, [97], [97]⟩, ⟨0, [98], [98]⟩]

theorem fresh_capped : capped.buffers.get? 1 = some (.new 1) := rfl

theorem sound_twoMessages :
    ∀ m ∈ twoMessages, m.Sound .plain (encodingOf []) capped.maxMessageSize 1 :=
  forall_mem_cons.mpr ⟨⟨by decide, by decide, rfl⟩,
    forall_mem_cons.mpr ⟨⟨by decide, by decide, rfl⟩, nofun⟩⟩

/-- One message in each frame, and the second one in two. -/
theorem messages_delivered_iff_two :
    Delivered 1 [[97], [98]] capped (run (step .plain) capped
      ((responseEvents 1 [] [[0, 0, 0, 0, 1, 97], [0, 0, 0], [], [0, 1, 98]]
        (.trailers [])).map .event)) := by
  refine (messages_delivered_iff .plain capped 1 1 fresh_capped [] twoMessages sound_twoMessages
    [[0, 0, 0, 0, 1, 97], [0, 0, 0], [], [0, 1, 98]] (.trailers []) rfl _ ?_).mpr ?_
  · exact .own (.own (.own (.own (.own (.own (.nil _))))))
  · exact ⟨by decide, by decide, by decide, by decide, trivial⟩

/-- **Two messages in one frame are refused**, although each of them is within the cap. -/
theorem two_messages_refused :
    (∀ m ∈ twoMessages, m.Sound .plain (encodingOf []) capped.maxMessageSize 1) ∧
      wire twoMessages = [0, 0, 0, 0, 1, 97, 0, 0, 0, 0, 1, 98] ∧
      ¬ Delivered 1 (twoMessages.map (·.data)) capped (run (step .plain) capped
        ((responseEvents 1 [] [wire twoMessages] (.trailers [])).map .event)) := by
  refine ⟨sound_twoMessages, rfl, ?_⟩
  rintro ⟨metadata, status, message, trailers, h⟩
  have hevents : (run (step .plain) capped
      ((responseEvents 1 [] [wire twoMessages] (.trailers [])).map .event)).eventsOf 1 =
    [.response 1 [], .status 1 .resourceExhausted
      "max size exceeded: message reassembly buffer exceeds 6 bytes" [], .status 1 .unknown "" []] := rfl
  rw [hevents] at h
  cases h

end GrpcConnection
end Ringline.Grpc
