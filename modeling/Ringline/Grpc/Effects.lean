import Ringline.Grpc.Connection
import Ringline.H2.GoAway

/-!
# What a step does to a call

A step of a `GrpcConnection` concerns one stream, if any: it pushes events of this stream and leaves
the buffers of the other streams alone (`Concerns`).  A GOAWAY is the exception; it concerns every
stream that it leaves without an answer.  `outcome_event` sums up what a step can do to one stream
(`Outcome`): nothing, or go on with it, or end it with a status.
-/

set_option autoImplicit false

namespace Ringline.Grpc

open H2 (ErrorCode H2Event HeaderField)
open List

/-- The stream of an event. -/
def GrpcEvent.stream : GrpcEvent → Option Nat
  | .response sid _ | .message sid _ | .status sid _ _ _ => some sid
  | _ => none

def GrpcEvent.isStatus : GrpcEvent → Bool
  | .status _ _ _ _ => true
  | _ => false

namespace GrpcConnection

/-- The events of one stream. -/
def eventsOf (g : GrpcConnection) (sid : Nat) : List GrpcEvent :=
  g.events.filter (·.stream = some sid)

/-- The events are of the stream `k`, and other streams are left alone. -/
structure Concerns (k : Nat) (evs : List GrpcEvent) (g g' : GrpcConnection) : Prop where
  events : g'.events = g.events ++ evs
  stream : ∀ e ∈ evs, e.stream = some k
  other : ∀ j, j ≠ k → g'.buffers.get? j = g.buffers.get? j
  maxMessageSize : g'.maxMessageSize = g.maxMessageSize

section
variable {k : Nat} {evs evs' : List GrpcEvent} {g g' g'' : GrpcConnection}

theorem Concerns.trans (h : Concerns k evs g g') (h' : Concerns k evs' g' g'') :
    Concerns k (evs ++ evs') g g'' where
  events := by rw [h'.events, h.events, append_assoc]
  stream := forall_mem_append.mpr ⟨h.stream, h'.stream⟩
  other := fun j hj => (h'.other j hj).trans (h.other j hj)
  maxMessageSize := h'.maxMessageSize.trans h.maxMessageSize

theorem concerns_push (h : ∀ e ∈ evs, e.stream = some k) : Concerns k evs g (g.push evs) :=
  ⟨rfl, h, fun _ _ => rfl, rfl⟩

section

variable (g : GrpcConnection)

theorem concerns_status (k : Nat) (status : GrpcStatus) (message : String)
    (metadata : List HeaderField) :
    Concerns k [.status k status message metadata] g (g.push [.status k status message metadata]) :=
  concerns_push fun _ he => mem_singleton.mp he ▸ rfl

theorem concerns_remove (k : Nat) : Concerns k [] g (g.remove k) :=
  ⟨(append_nil _).symm, nofun, fun j hj => (Table.get?_erase _ k j).trans (if_neg hj), rfl⟩

theorem concerns_insert (k : Nat) (state : StreamState) :
    Concerns k [] g { g with buffers := g.buffers.insert k state } :=
  ⟨(append_nil _).symm, nofun, fun j hj => (Table.get?_insert _ k _ j).trans (if_neg hj), rfl⟩

theorem concerns_resetStream (k : Nat) (code : ErrorCode) :
    Concerns k [] g (g.resetStream k code) := ⟨(append_nil _).symm, nofun, fun _ _ => rfl, rfl⟩

theorem get?_remove (k : Nat) : (g.remove k).buffers.get? k = none :=
  (Table.get?_erase _ k k).trans (if_pos rfl)

end

/-! ## What can become of a stream -/

/-- A stream that is open goes on or ends; another one is left alone. -/
inductive Outcome (before after : Option StreamState) : List GrpcEvent → Prop
  | untouched (h : after = before) : Outcome before after []
  | goesOn {evs : List GrpcEvent} (hbefore : before ≠ none)
      (h : ∀ e ∈ evs, e.isStatus = false) : Outcome before after evs
  | ends (evs : List GrpcEvent) {e : GrpcEvent} (hbefore : before ≠ none)
      (h : ∀ e ∈ evs, e.isStatus = false) (hafter : after = none) : Outcome before after (evs ++ [e])

theorem concerns_failStream (g : GrpcConnection) (k : Nat) (status : GrpcStatus) (message : String) :
    Concerns k [.status k status message []] g (g.failStream k status message) :=
  ((concerns_resetStream g k .cancel).trans (concerns_remove _ k)).trans (concerns_status _ k _ _ _)

theorem concerns_emitStatusFromCleanup (g : GrpcConnection) (k : Nat) :
    ∃ message, Concerns k [.status k .internal message []] g (g.emitStatusFromCleanup k) :=
  ⟨_, (concerns_remove g k).trans (concerns_status _ k _ _ _)⟩

/-- The messages of a stream. -/
theorem stream_messages (k : Nat) (messages : List (List UInt8)) :
    ∀ e ∈ messages.map (GrpcEvent.message k), e.stream = some k := by
  intro e he
  obtain ⟨_, -, rfl⟩ := mem_map.mp he
  rfl

theorem isStatus_messages (k : Nat) (messages : List (List UInt8)) :
    ∀ e ∈ messages.map (GrpcEvent.message k), e.isStatus = false := by
  intro e he
  obtain ⟨_, -, rfl⟩ := mem_map.mp he
  rfl

variable (build : Build)

/-- DATA for a stream that has not begun to respond. -/
theorem handleData_unseen (h : (g.buffers.get? k).filter (·.responseSeen) = none)
    (data : List UInt8) (es : Bool) :
    ∃ message, Concerns k [.status k .internal message []] g (g.handleData build k data es) ∧
      (g.handleData build k data es).buffers.get? k = none := by
  rw [handleData, h]
  exact ⟨_, ((concerns_resetStream g k _).trans (concerns_remove _ k)).trans (concerns_status _ k _ _ _),
    get?_remove _ k⟩

theorem handleData_seen {state : StreamState} (h : g.buffers.get? k = some state)
    (hseen : state.responseSeen = true) (data : List UInt8) (es : Bool) : g.handleData build k data es = g.takeData build k state data es := by
  rw [handleData, h, Option.filter_some, if_pos hseen]

/-- The data ends the stream in the middle of a failure. -/
def FailsAtEnd (g : GrpcConnection) (e : H2Event) : Prop :=
  ∃ k data state buffer, e = .data k data true ∧ g.buffers.get? k = some state ∧
    state.responseSeen = true ∧ state.buffer.push data = .ok buffer ∧
    (reassemble build state.encoding g.maxMessageSize (buffer.buf.length + 1) buffer).failure ≠ none

section

variable (g : GrpcConnection)

/-- The response headers. -/
theorem handleResponse_spec (k : Nat) (headers : List HeaderField) (es : Bool)
    :
    ∃ metadata last, Concerns k (.response k metadata :: last) g (g.handleResponse build k headers es) ∧
      (es = false → last = []) ∧ (es = true → (∃ status message, last =
        [.status k status message metadata]) ∧
        (g.handleResponse build k headers es).buffers.get? k = none) := by
  rw [handleResponse]
  cases es with
  | false =>
    refine ⟨headers, [], (concerns_insert g k _).trans (concerns_push fun e he => ?_), fun _ => rfl, nofun⟩
    rw [mem_singleton.mp he]
    rfl
  | true =>
    refine ⟨_, _, ((concerns_insert g k _).trans (concerns_remove _ k)).trans
      (concerns_push fun e he => ?_), nofun, fun _ => ⟨⟨_, _, rfl⟩, get?_remove _ k⟩⟩
    rcases mem_cons.mp he with rfl | he
    · rfl
    · rw [mem_singleton.mp he]
      rfl

/-- The messages in the data, and what becomes of the stream. -/
theorem takeData_spec (k : Nat) (state : StreamState) {data : List UInt8} (es : Bool)
    {buffer : MessageBuffer} (hpush : state.buffer.push data = .ok buffer) {r : Reassembled}
    (hr : reassemble build state.encoding g.maxMessageSize (buffer.buf.length + 1) buffer = r) :
    ∃ failed last, Concerns k (r.messages.map (.message k) ++ failed ++ last) g
        (g.takeData build k state data es) ∧
      (r.failure = none → failed = [] ∧ (es = false → last = [] ∧
        (g.takeData build k state data es).buffers.get? k = some { state with buffer := r.buffer })) ∧
      (∀ f, r.failure = some f → failed = [.status k f.1 f.2 []] ∧
        (g.takeData build k state data es).buffers.get? k = none) ∧
      (es = false → last = []) ∧
      (es = true → (∃ message, last = [.status k .internal message []]) ∧
        (g.takeData build k state data es).buffers.get? k = none) := by
  have hmessages := (concerns_insert g k { state with buffer := r.buffer }).trans
    (concerns_push (stream_messages k r.messages))
  have hget : (push { g with buffers := g.buffers.insert k { state with buffer := r.buffer } }
      (r.messages.map (.message k))).buffers.get? k = some { state with buffer := r.buffer } :=
    (Table.get?_insert _ k _ k).trans (if_pos rfl)
  rw [takeData, hpush]
  dsimp only
  rw [hr]
  generalize push { g with buffers := g.buffers.insert k { state with buffer := r.buffer } }
    (r.messages.map (.message k)) = g₁ at hmessages hget
  rcases hf : r.failure with _ | f
  · cases es with
    | false =>
      refine ⟨[], [], ?_, fun _ => ⟨rfl, fun _ => ⟨rfl, hget⟩⟩, nofun, fun _ => rfl, nofun⟩
      rw [append_nil, append_nil]
      exact hmessages
    | true =>
      obtain ⟨message, hlast⟩ := concerns_emitStatusFromCleanup g₁ k
      refine ⟨[], [.status k .internal message []], ?_, fun _ => ⟨rfl, nofun⟩, nofun, nofun,
        fun _ => ⟨⟨message, rfl⟩, get?_remove _ k⟩⟩
      rw [append_nil]
      exact hmessages.trans hlast
  · have hfailed := hmessages.trans (concerns_failStream g₁ k f.1 f.2)
    have hnone : ∀ f', some f = some f' → [GrpcEvent.status k f.1 f.2 []] = [.status k f'.1 f'.2 []] :=
      fun f' hf' => Option.some.inj hf' ▸ rfl
    cases es with
    | false =>
      refine ⟨[.status k f.1 f.2 []], [], ?_, nofun, fun f' hf' => ⟨hnone f' hf', get?_remove _ k⟩,
        fun _ => rfl, nofun⟩
      rw [append_nil]
      exact hfailed
    | true =>
      obtain ⟨message, hlast⟩ := concerns_emitStatusFromCleanup (g₁.failStream k f.1 f.2) k
      exact ⟨[.status k f.1 f.2 []], [.status k .internal message []], hfailed.trans hlast, nofun,
        fun f' hf' => ⟨hnone f' hf', get?_remove _ k⟩, nofun, fun _ => ⟨⟨message, rfl⟩, get?_remove _ k⟩⟩

/-- The trailers. -/
theorem handleTrailers_spec (k : Nat) (headers : List HeaderField) :
    Concerns k ((g.bufferedMessages build k).map (.message k) ++
        [.status k (extractGrpcStatus headers) (extractGrpcMessage headers) (remainingHeaders headers)])
      g (g.handleTrailers build k headers) ∧
    (g.handleTrailers build k headers).buffers.get? k = none := by
  have h := ((concerns_push (g := g) (stream_messages k (g.bufferedMessages build k))).trans
    (concerns_status _ k (extractGrpcStatus headers) (extractGrpcMessage headers)
      (remainingHeaders headers))).trans (concerns_remove _ k)
  rw [append_nil] at h
  exact ⟨h, get?_remove _ k⟩

/-- **What an event does**: it leaves the other streams alone, and its own one goes on or ends, if
that is open. -/
theorem outcome_event {e : H2Event} (hk : e.stream = some k) :
    ∃ evs, Concerns k evs g (g.translateEvent build e) ∧
      (g.buffers.get? k ≠ none → ¬ FailsAtEnd build g e →
        Outcome (g.buffers.get? k) ((g.translateEvent build e).buffers.get? k) evs) := by
  cases e with
  | response j headers es =>
    obtain rfl := Option.some_inj.mp hk
    obtain ⟨metadata, last, hconcerns, hgoes, hends⟩ := handleResponse_spec build g j headers es
    refine ⟨_, hconcerns, fun hopen _ => ?_⟩
    cases es with
    | false =>
      rw [hgoes rfl]
      exact .goesOn hopen fun e he => mem_singleton.mp he ▸ rfl
    | true =>
      obtain ⟨⟨status, message, rfl⟩, hnone⟩ := hends rfl
      exact .ends [.response j metadata] hopen (fun e he => mem_singleton.mp he ▸ rfl) hnone
  | data j data es =>
    obtain rfl := Option.some_inj.mp hk
    rcases hseen : (g.buffers.get? j).filter (·.responseSeen) with _ | state
    · obtain ⟨message, hconcerns, hnone⟩ := handleData_unseen build hseen data es
      exact ⟨_, hconcerns, fun hopen _ => .ends [] hopen nofun hnone⟩
    · obtain ⟨hstate, hseen⟩ := Option.filter_eq_some_iff.mp hseen
      have heq : g.translateEvent build (.data j data es) = g.takeData build j state data es :=
        handleData_seen build hstate hseen data es
      rw [heq]
      rcases hpush : state.buffer.push data with e | buffer
      · rw [takeData, hpush]
        exact ⟨_, concerns_failStream g j _ _, fun hopen _ => .ends [] hopen nofun (get?_remove _ j)⟩
      · obtain ⟨failed, last, hconcerns, hok, herr, hgoes, hends⟩ :=
          takeData_spec build g j state es hpush rfl
        have hmessages := isStatus_messages j (reassemble build state.encoding g.maxMessageSize
          (buffer.buf.length + 1) buffer).messages
        refine ⟨_, hconcerns, fun hopen hfails => ?_⟩
        rcases hf : (reassemble build state.encoding g.maxMessageSize (buffer.buf.length + 1)
          buffer).failure with _ | f
        · obtain ⟨rfl, -⟩ := hok hf
          rw [append_nil]
          cases es with
          | false =>
            rw [hgoes rfl, append_nil]
            exact .goesOn hopen hmessages
          | true =>
            obtain ⟨⟨message, rfl⟩, hnone⟩ := hends rfl
            exact .ends _ hopen hmessages hnone
        · obtain ⟨rfl, hnone⟩ := herr f hf
          cases es with
          | false =>
            rw [hgoes rfl, append_nil]
            exact .ends _ hopen hmessages hnone
          | true =>
            refine absurd ⟨j, data, state, buffer, rfl, hstate, hseen, hpush, ?_⟩ hfails
            rw [hf]
            nofun
  | trailers j headers =>
    obtain rfl := Option.some_inj.mp hk
    obtain ⟨hconcerns, hnone⟩ := handleTrailers_spec build g j headers
    exact ⟨_, hconcerns, fun hopen _ => .ends _ hopen (isStatus_messages j _) hnone⟩
  | streamReset j code =>
    obtain rfl := Option.some_inj.mp hk
    exact ⟨_, (concerns_remove g j).trans (concerns_status _ j _ _ _),
      fun hopen _ => .ends [] hopen nofun (get?_remove _ j)⟩
  | _ => cases hk

end

end

end GrpcConnection
end Ringline.Grpc
