import Ringline.Grpc.Effects

/-!
# A call ends once

A call is to end with one status, and nothing is to be said about it afterwards (`EndsOnce`).  The
connection knows that a call is still open by its entry in `buffers`: as long as the entry is there,
no status has been given for it (`Faithful`), and an event of an open call either goes on with it or
ends it (`outcome_step`).

The entry is not asked for, though.  An event of a call that has ended is told as if the call were
open: the server resets a call that has been cancelled, or goes on with it, or a GOAWAY is followed by
the resets of the calls it has already ended (`goaway_ends_call_twice`).  A message that cannot be
decoded ends a call twice by itself, if the DATA frame also ends the stream.  Calls end once in every
run without such events (`calls_end_once`).
-/

set_option autoImplicit false

namespace Ringline.Grpc

open H2 (ErrorCode H2Event HeaderField Settings)
open List Machine

/-- A status is the last of these events. -/
def EndsOnce (log : List GrpcEvent) : Prop :=
  ∀ before e after, log = before ++ e :: after → e.isStatus = true → after = []

theorem endsOnce_of_open {log : List GrpcEvent} (h : ∀ e ∈ log, e.isStatus = false) :
    EndsOnce log := by
  rintro before e after rfl he
  rw [h e (mem_append_right _ mem_cons_self)] at he
  cases he

theorem endsOnce_snoc {log : List GrpcEvent} (h : ∀ e ∈ log, e.isStatus = false) (last : GrpcEvent) :
    EndsOnce (log ++ [last]) := by
  intro before e after hlog he
  rcases eq_nil_or_concat after with rfl | ⟨init, x, rfl⟩
  · rfl
  · rw [concat_eq_append, ← cons_append, ← append_assoc] at hlog
    obtain ⟨rfl, -⟩ := append_inj' hlog rfl
    rw [h e (mem_append_right _ mem_cons_self)] at he
    cases he

namespace GrpcConnection

variable {logs : Nat → Option (List GrpcEvent)}

/-! ## What is said about a call -/

/-- The call that a step begins. -/
def begun (build : Build) (g : GrpcConnection) : Action → Option Nat
  | .sendUnary service method body metadata deadline =>
    (g.sendUnary build service method body metadata deadline).2.toOption
  | .startRequest service method metadata => (g.startRequest build service method metadata).2.toOption
  | _ => none

/-- The events of every call since it has begun. -/
def callLogs (build : Build) (logs : Nat → Option (List GrpcEvent)) (g : GrpcConnection) (a : Action) :
    Nat → Option (List GrpcEvent) :=
  fun sid =>
    if g.begun build a = some sid then some []
    else (logs sid).map fun log =>
      log ++ ((g.step build a).events.drop g.events.length).filter (·.stream = some sid)

/-- The event is not one of a call that has ended, and does not end one in the middle of a failure. -/
def Orderly (build : Build) (logs : Nat → Option (List GrpcEvent)) (g : GrpcConnection) :
    Action → Prop
  | .event e => (∀ sid, e.stream = some sid → logs sid ≠ none → g.buffers.get? sid ≠ none) ∧
      ¬ FailsAtEnd build g e
  | _ => True

/-! ## What a step does to a stream -/

/-- A step adds these events, and of one stream only the ones of an outcome. -/
structure Affects (sid : Nat) (g g' : GrpcConnection) : Prop where
  intro ::
  affects : ∃ evs, g'.events = g.events ++ evs ∧
    Outcome (g.buffers.get? sid) (g'.buffers.get? sid) (evs.filter (·.stream = some sid))

section
variable {sid k : Nat} {evs : List GrpcEvent} {g g' : GrpcConnection}

theorem filter_of_stream (h : ∀ e ∈ evs, e.stream = some k) :
    evs.filter (·.stream = some k) = evs :=
  filter_eq_self.mpr fun e he => decide_eq_true (h e he)

theorem filter_of_other (evs : List GrpcEvent) (h : ∀ e ∈ evs, e.stream ≠ some sid) :
    evs.filter (·.stream = some sid) = [] :=
  filter_eq_nil_iff.mpr fun e he => fun hd => h e he (of_decide_eq_true hd)

/-- The step says nothing about the stream, and leaves it alone. -/
structure Leaves (sid : Nat) (g g' : GrpcConnection) : Prop where
  events : ∃ evs, g'.events = g.events ++ evs ∧ ∀ e ∈ evs, e.stream ≠ some sid
  state : g'.buffers.get? sid = g.buffers.get? sid
  maxMessageSize : g'.maxMessageSize = g.maxMessageSize

theorem Leaves.affects (h : Leaves sid g g') : Affects sid g g' := by
  obtain ⟨evs, hevents, hother⟩ := h.events
  refine ⟨evs, hevents, ?_⟩
  rw [filter_of_other evs hother]
  exact .untouched h.state

/-- The step tells nothing. -/
theorem leaves_silent (hevents : g'.events = g.events)
    (hstate : g'.buffers.get? sid = g.buffers.get? sid)
    (hmax : g'.maxMessageSize = g.maxMessageSize) : Leaves sid g g' :=
  ⟨⟨[], hevents.trans (append_nil _).symm, nofun⟩, hstate, hmax⟩

theorem Concerns.affects (h : Concerns k evs g g')
    (houtcome : Outcome (g.buffers.get? k) (g'.buffers.get? k) evs) : Affects k g g' :=
  ⟨evs, h.events, (filter_of_stream h.stream).symm ▸ houtcome⟩

theorem Concerns.leaves (h : Concerns k evs g g') (hne : sid ≠ k) : Leaves sid g g' := by
  refine ⟨⟨evs, h.events, fun e he hs => hne ?_⟩, h.other sid hne, h.maxMessageSize⟩
  rw [h.stream e he] at hs
  exact (Option.some.inj hs).symm

end

/-- GOAWAY ends the calls that it leaves without an answer. -/
theorem affects_goAway (build : Build) (g : GrpcConnection) (last : Nat) (code : ErrorCode)
    (debugData : List UInt8) (sid : Nat) :
    Affects sid g (g.translateEvent build (.goAway last code debugData)) := by
  refine ⟨_, rfl, ?_⟩
  have hnodup : (g.stranded last).Nodup := (g.order.walk g.buffers).nodup.filter _
  have hget := Table.get?_eraseAll g.buffers (g.stranded last) sid
  rw [filter_append, Table.filter_map_of_nodup _ GrpcEvent.stream (fun _ => rfl) hnodup,
    filter_of_other [.goAway last code debugData]
      fun e he => mem_singleton.mp he ▸ nofun, append_nil]
  by_cases hmem : sid ∈ g.stranded last
  · rw [if_pos hmem] at hget ⊢
    refine .ends [] ?_ nofun hget
    have hkey := (mem_filter.mp hmem).1
    rw [Table.mem_keys_iff, Table.Order.get?_walk] at hkey
    exact Option.isSome_iff_ne_none.mp hkey
  · rw [if_neg hmem] at hget ⊢
    exact .untouched hget

theorem affects_cancel (g : GrpcConnection) (k sid : Nat) : Affects sid g (g.cancel k) := by
  rw [cancel]
  split
  · rename_i hsome
    have hconcerns := ((concerns_resetStream g k .cancel).trans (concerns_remove _ k)).trans
      (concerns_status _ k .cancelled "cancelled by client" [])
    rcases eq_or_ne sid k with rfl | hne
    · exact hconcerns.affects (.ends [] (Option.isSome_iff_ne_none.mp hsome) (by simp)
        (get?_remove _ sid))
    · exact (hconcerns.leaves hne).affects
  · exact Leaves.affects ⟨⟨[], (append_nil _).symm, fun _ he => by cases he⟩, rfl, rfl⟩

variable {sid : Nat} {g : GrpcConnection}

theorem leaves_sendMessage (g : GrpcConnection) (k : Nat) (body : List UInt8) (es : Bool) (sid : Nat) :
    Leaves sid g (g.sendMessage k body es).1 := by
  rw [sendMessage]
  rcases encode body with len | framed
  · exact leaves_silent rfl rfl rfl
  · exact leaves_silent rfl rfl rfl

section

variable (build : Build)

theorem leaves_sendUnary (g : GrpcConnection) (service method : String) (body : List UInt8)
    (metadata : List HeaderField) (deadline : Option Nat)
    (h : (g.sendUnary build service method body metadata deadline).2.toOption ≠ some sid) :
    Leaves sid g (g.sendUnary build service method body metadata deadline).1 := by
  rw [sendUnary] at h ⊢
  split
  · exact leaves_silent rfl rfl rfl
  · rename_i hready
    rw [if_neg hready] at h
    dsimp only at h ⊢
    rcases hopened : (g.h2.conn.sendRequest _ false).2 with e | streamId
    · exact leaves_silent rfl rfl rfl
    · rw [hopened] at h
      rcases hframed : encode body with len | framed
      · exact leaves_silent rfl rfl rfl
      · rw [hframed] at h
        dsimp only at h ⊢
        rcases hsent : (H2.H2Connection.sendData _ streamId framed true).2 with e | u
        · exact leaves_silent rfl rfl rfl
        · rw [hsent] at h
          refine leaves_silent rfl ((Table.get?_insert _ streamId _ sid).trans (if_neg ?_)) rfl
          rintro rfl
          exact h rfl

theorem leaves_startRequest (g : GrpcConnection) (service method : String)
    (metadata : List HeaderField)
    (h : (g.startRequest build service method metadata).2.toOption ≠ some sid) :
    Leaves sid g (g.startRequest build service method metadata).1 := by
  rw [startRequest] at h ⊢
  split
  · exact leaves_silent rfl rfl rfl
  · rename_i hready
    rw [if_neg hready] at h
    dsimp only at h ⊢
    rcases hopened : (g.h2.conn.sendRequest _ false).2 with e | streamId
    · exact leaves_silent rfl rfl rfl
    · rw [hopened] at h
      refine leaves_silent rfl ((Table.get?_insert _ streamId _ sid).trans (if_neg ?_)) rfl
      rintro rfl
      exact h rfl

/-- What an event without a stream does, GOAWAY apart. -/
theorem leaves_event {e : H2Event} (he : e.stream = none)
    (hgo : ∀ last code debugData, e ≠ .goAway last code debugData) :
    Leaves sid g (g.translateEvent build e) := by
  cases e with
  | goAway last code debugData => exact absurd rfl (hgo last code debugData)
  | settingsAcknowledged =>
    exact ⟨⟨[.ready], rfl, fun e he => mem_singleton.mp he ▸ nofun⟩, rfl, rfl⟩
  | error err => exact ⟨⟨[.error (.h2 err)], rfl, fun e he => mem_singleton.mp he ▸ nofun⟩, rfl, rfl⟩
  | pingAcknowledged _ => exact leaves_silent rfl rfl rfl
  | _ => cases he

theorem affects_event {e : H2Event} (h : g.Orderly build logs (.event e))
    (hcall : logs sid ≠ none) : Affects sid g (g.translateEvent build e) := by
  rcases hk : e.stream with _ | k
  · cases e with
    | goAway last code debugData => exact affects_goAway build g last code debugData sid
    | _ => exact (leaves_event build hk nofun).affects
  · obtain ⟨evs, hconcerns, houtcome⟩ := outcome_event build g hk
    rcases eq_or_ne sid k with rfl | hne
    · exact hconcerns.affects (houtcome (h.1 sid hk hcall) h.2)
    · exact (hconcerns.leaves hne).affects

/-- **What a step does to a call.** -/
theorem outcome_step {a : Action} (h : g.Orderly build logs a) (sid : Nat) (hcall : logs sid ≠ none)
    (hbegun : g.begun build a ≠ some sid) : Affects sid g (g.step build a) := by
  cases a with
  | event e => exact affects_event build h hcall
  | cancel k => exact affects_cancel g k sid
  | sendUnary service method body metadata deadline =>
    exact (leaves_sendUnary build g service method body metadata deadline hbegun).affects
  | startRequest service method metadata =>
    exact (leaves_startRequest build g service method metadata hbegun).affects
  | sendMessage k body es => exact (leaves_sendMessage g k body es sid).affects
  | setMaxMessageSize n => exact ⟨[], (append_nil _).symm, .untouched rfl⟩

end

/-! ## Runs -/

/-- The calls that are open have not ended. -/
def Faithful (logs : Nat → Option (List GrpcEvent)) (g : GrpcConnection) : Prop :=
  ∀ sid log, logs sid = some log →
    EndsOnce log ∧ (g.buffers.get? sid ≠ none → ∀ e ∈ log, e.isStatus = false)

theorem faithful_step (build : Build) {a : Action} (hg : Faithful logs g)
    (h : g.Orderly build logs a) : Faithful (callLogs build logs g a) (g.step build a) := by
  intro sid log hlog
  rw [callLogs] at hlog
  split at hlog
  · cases hlog
    exact ⟨endsOnce_of_open nofun, fun _ => nofun⟩
  · rename_i hbegun
    obtain ⟨old, hold, rfl⟩ := Option.map_eq_some_iff.mp hlog
    obtain ⟨hends, hopen⟩ := hg sid old hold
    obtain ⟨evs, hevents, houtcome⟩ := outcome_step build h sid (by rw [hold]; nofun) hbegun
    rw [hevents, drop_left]
    generalize evs.filter (·.stream = some sid) = new at houtcome
    cases houtcome with
    | untouched hsame =>
      rw [append_nil, hsame]
      exact ⟨hends, hopen⟩
    | goesOn hbefore hnew =>
      have hall : ∀ e ∈ old ++ new, e.isStatus = false :=
        forall_mem_append.mpr ⟨hopen hbefore, hnew⟩
      exact ⟨endsOnce_of_open hall, fun _ => hall⟩
    | ends new hbefore hnew hafter =>
      rw [← append_assoc]
      exact ⟨endsOnce_snoc (forall_mem_append.mpr ⟨hopen hbefore, hnew⟩) _,
        fun hsome => absurd hafter hsome⟩

/-- **A call ends once**, and nothing is said about it afterwards, in a run without events of calls that
have ended and without failures in the data that ends a call. -/
theorem calls_end_once (build : Build) (settings : Settings) (h2Order : Table.Order Nat H2.H2Stream)
    (order : Table.Order Nat StreamState) (actions : List Action)
    (horderly : ∀ x ∈ trace (withHistory (step build) (callLogs build))
      ((fun _ => none), new settings h2Order order) actions, x.1.2.Orderly build x.1.1 x.2)
    (sid : Nat) (log : List GrpcEvent)
    (hlog : (run (withHistory (step build) (callLogs build))
      ((fun _ => none), new settings h2Order order) actions).1 sid = some log) : EndsOnce log := by
  have hnew : Faithful (fun _ => none) (new settings h2Order order) := fun _ _ h => by cases h
  have hrun := run_invariant
    (P := fun p : (Nat → Option (List GrpcEvent)) × GrpcConnection => Faithful p.1 p.2) hnew
    fun x hx hp => faithful_step build hp (horderly x hx)
  exact (hrun sid log hlog).1

/-- A call that is answered. -/
def answered : List Action :=
  [.event .settingsAcknowledged, .startRequest "s" "m" [], .event (.response 1 [] false),
    .event (.trailers 1 [])]

theorem not_failsAtEnd (build : Build) (g : GrpcConnection) {e : H2Event}
    (h : ∀ k data, e ≠ .data k data true) : ¬ FailsAtEnd build g e := by
  rintro ⟨k, data, -, -, he, -⟩
  exact h k data he

theorem calls_end_once_answered :
    (run (withHistory (step .plain) (callLogs .plain))
        ((fun _ => none), new .clientDefault .listed .listed) answered).1 1 =
      some [.response 1 [], .status 1 .unknown "" []] ∧
    EndsOnce [.response 1 [], .status 1 .unknown "" []] := by
  refine ⟨?_, calls_end_once .plain .clientDefault .listed .listed answered ?_ 1 _ ?_⟩
  · rfl
  · rw [answered, trace, trace, trace, trace, trace]
    have hopen : ∀ (logs : Nat → Option (List GrpcEvent)) (g : GrpcConnection) (e : H2Event),
        e.stream = some 1 → (g.buffers.get? 1).isSome = true → (∀ k data, e ≠ .data k data true) →
          g.Orderly .plain logs (.event e) := by
      intro logs g e he hsome hdata
      refine ⟨fun sid hsid _ => ?_, not_failsAtEnd _ _ hdata⟩
      rw [he] at hsid
      rw [← Option.some.inj hsid]
      exact Option.isSome_iff_ne_none.mp hsome
    refine forall_mem_cons.mpr ⟨⟨by simp, not_failsAtEnd _ _ (by simp)⟩,
      forall_mem_cons.mpr ⟨trivial, forall_mem_cons.mpr ⟨hopen _ _ _ rfl ?_ (by simp),
        forall_mem_cons.mpr ⟨hopen _ _ _ rfl ?_ (by simp), fun _ h => absurd h not_mem_nil⟩⟩⟩⟩
    · decide +kernel
    · decide +kernel
  · rfl

/-- The server's SETTINGS, and its acknowledgement of the client's. -/
def handshake : List UInt8 := H2.Client.emptySettings ++ [0, 0, 0, 4, 1, 0, 0, 0, 0]

/-- A connection on which a call has begun. -/
def called : GrpcConnection × Except GrpcError Nat :=
  ((new .clientDefault .listed .listed).recv .plain handshake).sendUnary .plain "s" "m" [] [] none

/-- GOAWAY with the last stream 0. -/
def goAwayZero : List UInt8 := [0, 0, 8, 7, 0, 0, 0, 0, 0, 0, 0, 0, 0, 0, 0, 0, 0]

/-- **A GOAWAY ends a call twice**: the call has no answer, and then its stream is reset. -/
theorem goaway_ends_call_twice :
    called.2 = .ok 1 ∧
      (called.1.recv .plain goAwayZero).eventsOf 1 =
        [.status 1 .unavailable "GoAway: NoError" [],
          .status 1 .internal "stream reset: RefusedStream" []] ∧
      ¬ EndsOnce ((called.1.recv .plain goAwayZero).eventsOf 1) := by
  have hevents : (called.1.recv .plain goAwayZero).eventsOf 1 =
      [.status 1 .unavailable "GoAway: NoError" [],
        .status 1 .internal "stream reset: RefusedStream" []] := rfl
  refine ⟨rfl, hevents, fun h => ?_⟩
  cases h [] _ _ hevents rfl

end GrpcConnection
end Ringline.Grpc
