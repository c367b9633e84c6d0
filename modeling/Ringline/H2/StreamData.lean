import Ringline.H2.GoAway
import Ringline.H2.ResetStreams
import Ringline.H2.StreamEvents

/-!
# What the peer sends on a stream, and what the client is told

`Inbound` is what the peer has sent on a stream: the payloads of its DATA frames up to END_STREAM, and
whether END_STREAM was among them.  `View` is what the events say about the stream.  This file relates
the two, in runs in which the client does not reset streams.

* When the events say that a stream has ended, it has ended, and their data is all the data of the
  stream (`Told.ended`).
* A stream whose response has begun has ended, or was reset, or is still in the table
  (`Told.responded`).  So a GOAWAY finds every stream whose response has begun either ended or reset,
  as long as it does not come while a response is under way (`Undisturbed`).
-/

set_option autoImplicit false

namespace Ringline.H2

/-- What the peer has sent on a stream. -/
structure Inbound where
  data : List UInt8
  ended : Bool

namespace Inbound

def start : Inbound := ⟨[], false⟩

/-- A frame is received; what comes on the stream after END_STREAM does not belong to it. -/
def take (sid : Nat) (i : Inbound) : Frame → Inbound
  | .data k payload es => if k = sid ∧ i.ended = false then ⟨i.data ++ payload, es⟩ else i
  | .headers k _ es _ _ => if k = sid then { i with ended := i.ended || es } else i
  | _ => i

theorem take_of_ended {i : Inbound} (h : i.ended = true) (sid : Nat) (f : Frame) :
    i.take sid f = i := by
  cases f with
  | data k payload es => simp [take, h]
  | headers k encoded es eh p =>
    rw [take]
    split
    · rw [h, Bool.true_or, ← h]
    · rfl
  | _ => rfl

theorem take_of_not_brings {sid : Nat} {f : Frame} (h : ¬ f.Brings sid) (i : Inbound) :
    i.take sid f = i := by
  cases f with
  | data k payload es => exact if_neg fun hk => h hk.1
  | headers k encoded es eh p => exact if_neg h
  | _ => rfl

end Inbound

/-- What was received on every stream, after a step. -/
def recordInbound (g : Nat → Inbound) (c : H2Connection) : ConnStep → Nat → Inbound
  | .frame _ f => fun sid => (g sid).take sid f
  | .own (.sendRequest headers es) =>
    match (c.sendRequest headers es).2 with
    | .ok k => fun sid => if sid = k then .start else g sid
    | .error _ => g
  | _ => g

/-! ## What the events say -/

/-- What the events say about a stream. -/
structure View where
  /-- The response has begun. -/
  responded : Bool
  ended : Bool
  /-- The stream was reset, after its response had begun. -/
  reset : Bool
  body : List UInt8

namespace View

def start : View := ⟨false, false, false, []⟩

variable (sid : Nat)

def see (v : View) : H2Event → View
  | .response k _ es => if k = sid then { v with responded := true, ended := v.ended || es } else v
  | .data k payload es =>
    if k = sid then { v with body := v.body ++ payload, ended := v.ended || es } else v
  | .trailers k _ => if k = sid then { v with ended := true } else v
  | .streamReset k _ => if k = sid then { v with reset := v.reset || v.responded } else v
  | _ => v

def seeAll (v : View) (evs : List H2Event) : View := evs.foldl (see sid) v

theorem seeAll_append (v : View) (evs evs' : List H2Event) :
    v.seeAll sid (evs ++ evs') = (v.seeAll sid evs).seeAll sid evs' := List.foldl_append

theorem see_of_ne {sid : Nat} {e : H2Event} (h : e.stream ≠ some sid) (v : View) : v.see sid e = v := by
  cases e with
  | response k headers es => exact if_neg fun hk => h (congrArg some hk)
  | data k payload es => exact if_neg fun hk => h (congrArg some hk)
  | trailers k headers => exact if_neg fun hk => h (congrArg some hk)
  | streamReset k code => exact if_neg fun hk => h (congrArg some hk)
  | _ => rfl

/-- Only the events of the stream matter. -/
theorem seeAll_own (v : View) (evs : List H2Event) :
    v.seeAll sid (evs.filter (·.stream = some sid)) = v.seeAll sid evs := by
  rw [seeAll, seeAll, List.foldl_filter]
  congr 1
  funext v e
  split
  · rfl
  · rename_i h
    exact (see_of_ne (by simpa using h) v).symm

end View

/-- What the client was told about a stream. -/
def H2Connection.view (c : H2Connection) (sid : Nat) : View := View.start.seeAll sid c.events

/-! ## One stream -/

/-- The peer has ended the stream, or the stream is closed. -/
def Core.Over (k : Core) : Prop := k.state = .closed ∨ k.state = .halfClosedRemote

/-- A stream before and after a step that neither ends it nor begins its response. -/
inductive Alike : Option Core → Option Core → Prop
  | none : Alike none none
  | some {k k' : Core} (hover : k'.Over ↔ k.Over) (hresp : k'.responded = k.responded) :
    Alike (some k) (some k')

theorem Alike.refl (o : Option Core) : Alike o o := by
  rcases o with _ | k
  · exact .none
  · exact .some Iff.rfl rfl

theorem Alike.eq_none {o : Option Core} (h : Alike Option.none o) : o = Option.none := by
  cases h
  rfl

theorem Alike.of_eq {o o' : Option Core} (h : o' = o) : Alike o o' := h ▸ .refl o

/-- What the client was told about a stream agrees with what was received on it.  `closing` says that
the connection is done with the peer, and `pending` that a header block of the stream has begun. -/
structure Told (closing : Bool) (pending : Prop) (o : Option Core) (v : View) (i : Inbound) :
    Prop where
  ended : v.ended = true → i.ended = true ∧ v.body = i.data
  live : closing = false → ∀ k, o = some k → ¬ k.Over →
    v.ended = false ∧ v.body = i.data ∧ (i.ended = true → pending)
  isOver : ∀ k, o = some k → k.Over → v.ended = true
  responded : v.responded = true → v.ended = true ∨ v.reset = true ∨
    ∃ k, o = some k ∧ k.responded = true

namespace Told

variable {closing : Bool} {pending pending' : Prop} {o o' : Option Core} {v : View} {i : Inbound}

/-- The stream is not touched in a way that matters. -/
theorem same (h : Told closing pending o v i) (hp : pending → pending') (ho : Alike o o') :
    Told closing pending' o' v i := by
  cases ho with
  | none => exact ⟨h.ended, fun _ _ => nofun, fun _ => nofun, h.responded⟩
  | @some k k' hover hresp =>
    refine ⟨h.ended, fun hc k₁ hk₁ hlive => ?_, fun k₁ hk₁ hk₁over => ?_, fun hr => ?_⟩
    · cases hk₁
      obtain ⟨hend, hbody, hpend⟩ := h.live hc k rfl fun hk => hlive (hover.mpr hk)
      exact ⟨hend, hbody, fun he => hp (hpend he)⟩
    · cases hk₁
      exact h.isOver k rfl (hover.mp hk₁over)
    · rcases h.responded hr with he | he | ⟨k₁, hk₁, he⟩
      · exact .inl he
      · exact .inr (.inl he)
      · cases hk₁
        exact .inr (.inr ⟨k', rfl, hresp.trans he⟩)

theorem mono (h : Told false pending o v i) (closing : Bool) : Told closing pending o v i :=
  ⟨h.ended, fun _ => h.live rfl, h.isOver, h.responded⟩

section

variable (h : Told closing pending o v i)

include h

/-- A header block begins. -/
theorem begun (hp : pending') (es : Bool) :
    Told closing pending' o v { i with ended := i.ended || es } := by
  refine ⟨fun he => ?_, fun hc k hk hlive => ?_, h.isOver, h.responded⟩
  · obtain ⟨hi, hbody⟩ := h.ended he
    exact ⟨by rw [hi, Bool.true_or], hbody⟩
  · obtain ⟨hend, hbody, -⟩ := h.live hc k hk hlive
    exact ⟨hend, hbody, fun _ => hp⟩

/-- The connection closes; what is received from now on does not matter. -/
theorem close {i' : Inbound} (hi' : i.ended = true → i' = i) : Told true pending' o v i' := by
  refine ⟨fun he => ?_, nofun, h.isOver, h.responded⟩
  obtain ⟨hi, hbody⟩ := h.ended he
  rw [hi' hi]
  exact ⟨hi, hbody⟩

/-- The stream is removed. -/
theorem remove (hr : v.responded = true → v.ended = true ∨ v.reset = true) (sid : Nat) (f : Frame) :
    Told closing pending' none v (i.take sid f) := by
  refine ⟨fun he => ?_, fun _ _ => nofun, fun _ => nofun, fun hv => (hr hv).imp_right .inl⟩
  obtain ⟨hi, hbody⟩ := h.ended he
  rw [Inbound.take_of_ended hi]
  exact ⟨hi, hbody⟩

/-- The stream is reset. -/
theorem reset : Told closing pending' none { v with reset := v.reset || v.responded } i := by
  refine ⟨h.ended, fun _ _ => nofun, fun _ => nofun, fun hv => .inr (.inl ?_)⟩
  rw [show v.responded = true from hv, Bool.or_true]

end

theorem over_remote_iff {state : StreamState} (h : ¬ (state = .closed ∨ state = .halfClosedRemote))
    (es : Bool) : (state.remote es = .closed ∨ state.remote es = .halfClosedRemote) ↔ es = true := by
  cases state <;> cases es <;> simp_all [StreamState.remote]

/-- DATA is delivered. -/
theorem data {k : Core} (h : Told false pending (some k) v i) (hp : ¬ pending) (hk : ¬ k.Over)
    (sid : Nat) (payload : List UInt8) (es : Bool) (w : FlowControl) :
    Told false pending'
      (if k.state.remote es = .closed then none else some ⟨k.state.remote es, w, k.responded⟩)
      { v with body := v.body ++ payload, ended := v.ended || es }
      (i.take sid (.data sid payload es)) := by
  obtain ⟨hend, hbody, hpend⟩ := h.live rfl k rfl hk
  have htake : i.take sid (.data sid payload es) = ⟨i.data ++ payload, es⟩ :=
    if_pos ⟨rfl, Bool.eq_false_iff.mpr fun he => hp (hpend he)⟩
  rw [htake]
  have hiff := over_remote_iff hk es
  have hv : (v.ended || es) = es := by rw [hend, Bool.false_or]
  rw [hv]
  refine ⟨fun he => ⟨he, by rw [hbody]⟩, fun _ k' hk' hover => ?_, fun k' hk' hover => ?_,
    fun hr => ?_⟩
  · split at hk'
    · cases hk'
    · cases hk'
      have hes : es = false := Bool.eq_false_iff.mpr fun he => hover (hiff.mpr he)
      exact ⟨hes, by rw [hbody], fun he => absurd he (Bool.eq_false_iff.mp hes)⟩
  · split at hk'
    · cases hk'
    · cases hk'
      exact hiff.mp hover
  · rcases h.responded hr with he | he | ⟨k₁, hk₁, he⟩
    · rw [hend] at he
      cases he
    · exact .inr (.inl he)
    · cases hk₁
      split
      · rename_i hclosed
        exact .inl (hiff.mp (.inl hclosed))
      · exact .inr (.inr ⟨_, rfl, he⟩)

/-- A header block is delivered.  It ends the stream if its first frame has said so. -/
theorem headers {k : Core} {i' : Inbound} (h : Told false pending (some k) v i) (es : Bool)
    (w : FlowControl) (hdata : i'.data = i.data) (hmono : i.ended = true → i'.ended = true)
    (hes : es = true → i'.ended = true) (hnot : ¬ k.Over → i'.ended = true → es = true)
    {v' : View} (hbody' : v'.body = v.body) (hend' : v'.ended = (v.ended || es)) :
    Told false pending'
      (if k.state.remote es = .closed then none else some ⟨k.state.remote es, w, true⟩) v' i' := by
  by_cases hk : k.Over
  · have hend := h.isOver k rfl hk
    obtain ⟨hi, hbody⟩ := h.ended hend
    rw [hend, Bool.true_or] at hend'
    refine ⟨fun _ => ⟨hmono hi, by rw [hbody', hbody, hdata]⟩, fun _ k' hk' hover => ?_,
      fun _ _ _ => hend', fun _ => .inl hend'⟩
    split at hk'
    · cases hk'
    · cases hk'
      exact absurd (H2Connection.over_remote es hk) hover
  · obtain ⟨hend, hbody, hpend⟩ := h.live rfl k rfl hk
    rw [hend, Bool.false_or] at hend'
    have hiff := over_remote_iff hk es
    refine ⟨fun he => ⟨hes (hend' ▸ he), by rw [hbody', hbody, hdata]⟩, fun _ k' hk' hover => ?_,
      fun k' hk' hover => ?_, fun _ => ?_⟩
    · split at hk'
      · cases hk'
      · cases hk'
        have hes' : es = false := Bool.eq_false_iff.mpr fun he => hover (hiff.mpr he)
        exact ⟨hend'.trans hes', by rw [hbody', hbody, hdata],
          fun he => absurd (hnot hk he) (Bool.eq_false_iff.mp hes')⟩
    · split at hk'
      · cases hk'
      · cases hk'
        exact hend'.trans (hiff.mp hover)
    · split
      · rename_i hclosed
        exact .inl (hend'.trans (hiff.mp (.inl hclosed)))
      · exact .inr (.inr ⟨_, rfl, rfl⟩)

end Told

/-! ## One step -/

namespace H2Connection

variable {c c' : H2Connection} {k sid : Nat} {f : Frame} {g : Nat → Inbound}
  {r : Except H2Error Unit}

/-- What the client was told agrees with what was received, on every stream. -/
structure Accounts (g : Nat → Inbound) (c : H2Connection) : Prop where
  told : ∀ sid, Told c.state.done (c.continuationStream = some sid) (c.coreAt sid) (c.view sid) (g sid)
  fresh : ∀ sid, c.nextStreamId ≤ sid → c.coreAt sid = none ∧ c.view sid = .start
  begun : ∀ sid, c.continuationStream = some sid → sid < c.nextStreamId
  /-- The header block that has begun knows whether it ends its stream. -/
  block : c.state.done = false → ∀ sid s, c.continuationStream = some sid →
    c.streams.get? sid = some s → (s.headersEndStream = true → (g sid).ended = true) ∧
      (¬ s.core.Over → (g sid).ended = true → s.headersEndStream = true)
  goAway : (∃ k code d, .goAway k code d ∈ c.events) → c.state.done = true ∧
    ∀ sid, (c.view sid).responded = true → (c.view sid).ended = true ∨ (c.view sid).reset = true

/-- GOAWAY does not come while a response is under way on a stream that it does not reset. -/
def Undisturbed (c : H2Connection) (x : ConnStep) : Prop :=
  ∀ raw k code d, x = .frame raw (.goAway k code d) → ∀ sid s, c.streams.get? sid = some s → sid ≤ k →
    s.receivedInitialResponse = true → s.Over

theorem view_append {evs : List H2Event} (h : c'.events = c.events ++ evs) (sid : Nat) :
    c'.view sid = (c.view sid).seeAll sid evs := by
  rw [view, h, View.seeAll_append]
  rfl

theorem view_congr (c' : H2Connection) (h : c'.events = c.events) (sid : Nat) :
    c'.view sid = c.view sid := by
  rw [view, h]
  rfl

/-- One more event. -/
theorem view_push {e : H2Event} (h : c'.events = c.events ++ [e]) (sid : Nat) :
    c'.view sid = (c.view sid).see sid e := view_append h sid

/-- One more event, of another stream or of none. -/
theorem view_push_of_ne {e : H2Event} (h : c'.events = c.events ++ [e]) (hne : e.stream ≠ some
    sid) :
    c'.view sid = c.view sid := by
  rw [view_push h, View.see_of_ne hne]

theorem view_fatalError (c : H2Connection) (e : H2Error) (sid : Nat) :
    (c.fatalError e).view sid = c.view sid := by
  rw [fatalError]
  split
  · rfl
  · exact view_push_of_ne (c := c) (e := .error e) rfl (by rintro ⟨⟩)

/-- What a frame does to a stream, if it brings the stream to `i`. -/
structure Follows (sid : Nat) (i : Inbound) (c c' : H2Connection) : Prop where
  told : Told c'.state.done (c'.continuationStream = some sid) (c'.coreAt sid) (c'.view sid) i
  fresh : c.coreAt sid = none → c.view sid = .start → c'.coreAt sid = none ∧ c'.view sid = .start

section
variable {i : Inbound}

/-- The frame does not concern the stream. -/
theorem Follows.untouched (hacc : Accounts g c) (hopen : c.state.done = false) (htake : i = g sid)
    (hcont : c.continuationStream = some sid → c'.continuationStream = some sid)
    (hcore : Alike (c.coreAt sid) (c'.coreAt sid)) (hview : c'.view sid = c.view sid) :
    Follows sid i c c' := by
  refine ⟨?_, fun hnone hstart => ⟨?_, hview.trans hstart⟩⟩
  · rw [htake, hview]
    exact ((hopen ▸ hacc.told sid).same hcont hcore).mono _
  · rw [hnone] at hcore
    exact hcore.eq_none

/-- The stream is removed, and an event says so. -/
theorem Follows.reset (hacc : Accounts g c) (hopen : c.state.done = false) (htake : i = g sid)
    (hcore : c'.coreAt sid = none)
    (hview : c'.view sid = { c.view sid with reset := (c.view sid).reset || (c.view sid).responded }) :
    Follows sid i c c' := by
  refine ⟨?_, fun _ hstart => ⟨hcore, by rw [hview, hstart]; rfl⟩⟩
  rw [htake, hcore, hview]
  exact (hopen ▸ hacc.told sid).reset.mono _

end

theorem BlockOutcome.continuationStream_eq {b : Block} (h : BlockOutcome c b c' r) :
    c'.continuationStream = c.continuationStream := by
  cases h with
  | delivered s headers hs hdec hcheck =>
    exact congrArg Inert.continuationStream
      (inert_deliverHeaders (c.withDecoded b) b.streamId s headers b.endStream)
  | _ => rfl

/-- The block ends its stream if the peer has ended it with the first frame of the block. -/
theorem taken_of_completes {b : Block} (hacc : Accounts g c) (hopen : c.state.done = false)
    (hadmits : c.continuationStream = continues f) (hb : c.completes f = some b) :
    ((g b.streamId).take b.streamId f).data = (g b.streamId).data ∧
    ((g b.streamId).ended = true → ((g b.streamId).take b.streamId f).ended = true) ∧
    (b.endStream = true → ((g b.streamId).take b.streamId f).ended = true) ∧
    ∀ k, c.coreAt b.streamId = some k → ¬ k.Over →
      ((g b.streamId).take b.streamId f).ended = true → b.endStream = true := by
  cases completes_cases hb with
  | @headers sid s encoded es p hs =>
    have htake : (g sid).take sid (.headers sid encoded es true p) =
        { g sid with ended := (g sid).ended || es } := if_pos rfl
    rw [htake]
    refine ⟨rfl, fun h => Bool.or_eq_true_iff.mpr (.inl h), fun h => Bool.or_eq_true_iff.mpr (.inr h),
      fun k hk hover hended => ?_⟩
    -- No block is under way, so the stream had not ended before this frame.
    rcases Bool.or_eq_true_iff.mp hended with hended | hes
    · have hpending := ((hacc.told sid).live hopen k hk hover).2.2 hended
      cases hadmits.symm.trans hpending
    · exact hes
  | @continuation sid s encoded hs =>
    obtain ⟨hes, hnot⟩ := hacc.block hopen sid s hadmits hs
    refine ⟨rfl, id, hes, fun k hk hover hended => ?_⟩
    cases ((coreAt_of_get? hs).symm.trans hk)
    exact hnot hover hended

/-- The block that is under way is completed, or goes on. -/
theorem Dispatched.pending (hd : Dispatched c f c' r) (hr : r = .ok ())
    (hadmits : c.continuationStream = continues f) (h : c.continuationStream = some sid) :
    c'.continuationStream = some sid ∨ c.Concerns f sid := by
  rcases hf : isHeaderFrame f with _ | _
  · exact .inl ((hd.continuationStream_eq hf).1.trans h)
  · cases hd with
    | ignored hp => exact .inl h
    | failed hp e => cases hr
    | headersBegun hs => cases hadmits.symm.trans h
    | headersContinued hs => exact .inl h
    | @block _ b _ _ hb h' =>
      refine .inr (.inr ⟨b, hb, ?_⟩)
      rcases (continuationStream_takeBlock hb hadmits).2 with hnone | hsome
      · cases hnone.symm.trans h
      · exact Option.some.inj (hsome.symm.trans h)
    | _ => cases hf

theorem Dispatched.begins {encoded : List UInt8} {es : Bool} {p : Option Priority}
    (hd : Dispatched c (.headers sid encoded es false p) c' r) (hr : r = .ok ()) :
    c'.continuationStream = some sid := by
  cases hd with
  | ignored hp => exact hp.elim
  | failed hp e => cases hr
  | headersBegun hs => rfl
  | block hb h => cases hb

section

variable (hd : Dispatched c f c' r)

include hd

/-- **What a frame does to a stream.** -/
theorem Dispatched.follows (hr : r = .ok ()) (hacc : Accounts g c) (hopen : c.state.done = false)
    (hadmits : c.continuationStream = continues f) (sid : Nat) :
    Follows sid ((g sid).take sid f) c c' := by
  obtain ⟨evs, hevents, htouch, -, -⟩ := hd.touches
  have hview := (view_append hevents sid).trans (View.seeAll_own sid _ evs).symm
  have htold := hacc.told sid
  rw [hopen] at htold
  have ht := htouch sid
  generalize evs.filter (·.stream = some sid) = own at ht hview
  generalize hk : c.coreAt sid = o at ht htold
  generalize hk' : c'.coreAt sid = o' at ht
  cases ht with
  | kept _ h =>
    exact .untouched hacc hopen (Inbound.take_of_not_brings (fun hb => h hr (.inl hb)) _)
      (fun hs => (hd.pending hr hadmits hs).resolve_right (h hr)) (.of_eq (hk'.trans hk.symm)) hview
  | window k w h =>
    have hf : isHeaderFrame f = false ∧ (g sid).take sid f = g sid := by
      obtain ⟨s, rfl⟩ | ⟨inc, -, rfl, -⟩ := h <;> exact ⟨rfl, rfl⟩
    refine .untouched hacc hopen hf.2 (fun hs => (hd.continuationStream_eq hf.1).1.trans hs) ?_ hview
    rw [hk, hk']
    exact .some Iff.rfl rfl
  | @begun k encoded es p h =>
    subst h
    refine ⟨?_, fun hnone => by cases hnone.symm.trans hk⟩
    have htake : (g sid).take sid (.headers sid encoded es false p) =
        { g sid with ended := (g sid).ended || es } := if_pos rfl
    rw [htake, hk', hview]
    exact (htold.begun (hd.begins hr) es).mono _
  | @headers k b fields hb hsid hend =>
    subst hsid
    refine ⟨?_, fun hnone => by cases hnone.symm.trans hk⟩
    rw [hk', hview]
    obtain ⟨hdata, hmono, hes, hnot⟩ := taken_of_completes hacc hopen hadmits hb
    refine (htold.headers b.endStream k.sendWindow hdata hmono hes (hnot k hk) ?_ ?_).mono _
    · rw [headersEvent]
      split <;> simp only [View.seeAll, List.foldl, View.see, if_pos]
    · rw [headersEvent]
      cases hresp : k.responded with
      | false => exact congrArg View.ended (if_pos rfl)
      | true =>
        rw [hend hresp, Bool.or_true]
        exact congrArg View.ended (if_pos rfl)
  | @data k payload es h hclosed hremote =>
    subst h
    refine ⟨?_, fun hnone => by cases hnone.symm.trans hk⟩
    rw [hk', hview.trans (if_pos rfl)]
    exact (htold.data (fun h => by cases hadmits.symm.trans h) (fun h => h.elim hclosed hremote)
      sid payload es k.sendWindow).mono _
  | dropped _ h hover =>
    refine ⟨?_, fun _ hstart => ⟨hk', hview.trans hstart⟩⟩
    rw [hk', hview]
    refine (htold.remove (fun hv => ?_) sid _).mono _
    rcases htold.responded hv with h | h | ⟨core, rfl, -⟩
    · exact .inl h
    · exact .inr h
    · exact .inl (htold.isOver core rfl (hover core rfl))
  | reset code h =>
    refine .reset hacc hopen (Inbound.take_of_not_brings ?_ _) hk' (hview.trans (if_pos rfl))
    rcases h with rfl | ⟨k, -, ⟨inc, rfl, -⟩ | ⟨last, code', d, rfl, -⟩⟩ <;> exact id

/-- A frame that fails leaves the streams alone. -/
theorem Dispatched.alike_of_error {e : H2Error} (hr : r = .error e) :
    c'.events = c.events ∧ ∀ sid, Alike (c.coreAt sid) (c'.coreAt sid) := by
  subst hr
  obtain ⟨evs, hevents, htouch, -, rfl | hok⟩ := hd.touches
  · refine ⟨hevents.trans (List.append_nil _), fun sid => ?_⟩
    have ht := htouch sid
    rw [List.filter_nil] at ht
    generalize c.coreAt sid = o at ht
    generalize c'.coreAt sid = o' at ht
    cases ht with
    | kept => exact .refl _
    | window k w h => exact .some Iff.rfl rfl
    | begun k h => exact .refl _
    | dropped hok => cases hok
  · cases hok

/-- A header block is under way on a stream that was opened. -/
theorem Dispatched.begun (h : c'.continuationStream = some sid) :
    c.continuationStream = some sid ∨ c.coreAt sid ≠ none := by
  rcases hf : isHeaderFrame f with _ | _
  · rw [(hd.continuationStream_eq hf).1] at h
    exact .inl h
  · cases hd with
    | ignored hp => exact .inl h
    | failed hp e => exact .inl h
    | headersBegun hs =>
      cases h
      exact .inr fun hnone => by cases hnone.symm.trans (coreAt_of_get? hs)
    | headersContinued hs => exact .inl h
    | @block _ b _ _ hb h' =>
      rw [h'.continuationStream_eq] at h
      cases f with
      | headers k encoded es eh p => exact .inl h
      | continuation k encoded eh => cases h
      | _ => cases hf
    | _ => cases hf

/-- **The block that is under way knows whether it ends its stream.** -/
theorem Dispatched.knows (hr : r = .ok ()) (hacc : Accounts g c) (hopen : c.state.done = false)
    (hadmits : c.continuationStream = continues f) {s' : H2Stream}
    (h : c'.continuationStream = some sid) (hs' : c'.streams.get? sid = some s') :
    (s'.headersEndStream = true → ((g sid).take sid f).ended = true) ∧
      (¬ s'.core.Over → ((g sid).take sid f).ended = true → s'.headersEndStream = true) := by
  rcases hf : isHeaderFrame f with _ | _
  · have hnone : continues f = none := by cases f <;> first | rfl | cases hf
    rw [(hd.continuationStream_eq hf).1, hadmits, hnone] at h
    cases h
  · cases hd with
    | ignored hp =>
      cases f with
      | continuation k encoded eh =>
        cases (hadmits.symm.trans h)
        cases Eq.symm hs' |>.trans hp
      | headers k encoded es eh p => exact hp.elim
      | _ => cases hf
    | failed hp e => cases hr
    | @headersBegun k encoded es p s hs =>
      obtain rfl := Option.some_inj.mp h
      have htake : (g k).take k (.headers k encoded es false p) =
          { g k with ended := (g k).ended || es } := if_pos rfl
      rw [Table.get?_modify, if_pos rfl, hs] at hs'
      cases hs'
      rw [htake]
      refine ⟨fun hes => Bool.or_eq_true_iff.mpr (.inr hes), fun hover hended => ?_⟩
      rcases Bool.or_eq_true_iff.mp hended with hended | hes
      · have hpending := ((hacc.told k).live hopen s.core (coreAt_of_get? hs) hover).2.2 hended
        cases hadmits.symm.trans hpending
      · exact hes
    | @headersContinued k encoded s hs =>
      obtain rfl := Option.some_inj.mp (hadmits.symm.trans h)
      rw [Table.get?_modify, if_pos rfl, hs] at hs'
      obtain rfl := Option.some_inj.mp hs'
      exact hacc.block hopen k s hadmits hs
    | @block _ b _ _ hb h' =>
      rw [h'.continuationStream_eq, (continuationStream_takeBlock hb hadmits).1] at h
      cases h
    | _ => cases hf

/-- Only GOAWAY is told of as GOAWAY. -/
theorem Dispatched.mem_goAway {code : ErrorCode} {d : List UInt8}
    (h : .goAway k code d ∈ c'.events) : .goAway k code d ∈ c.events ∨ f = .goAway k code d := by
  obtain ⟨evs, hevents, -, hgo, -⟩ := hd.touches
  rw [hevents] at h
  exact (List.mem_append.mp h).imp_right (hgo k code d)

end

/-- GOAWAY keeps only the streams that the peer may have processed. -/
theorem Dispatched.kept_of_goAway {code : ErrorCode} {d : List UInt8}
    (hd : Dispatched c (.goAway k code d) c' (.ok ())) :
    c'.state.done = true ∧ ∀ sid core, c'.coreAt sid = some core →
      ∃ s, c.streams.get? sid = some s ∧ s.core = core ∧ sid ≤ k := by
  cases hd with
  | ignored hp => exact hp.elim
  | block hb => cases hb
  | goAway =>
    refine ⟨congrArg (fun i => i.state.done) (inert_resetAll _ _), fun sid core hcore => ?_⟩
    rw [coreAt_resetAll] at hcore
    split at hcore
    · cases hcore
    · rename_i hmem
      obtain ⟨s, hs, rfl⟩ := get?_of_coreAt (c := c) hcore
      refine ⟨s, hs, rfl, ?_⟩
      by_contra hlt
      refine hmem (List.mem_filter.mpr ⟨?_, decide_eq_true (Nat.lt_of_not_le hlt)⟩)
      rw [Table.mem_keys_iff, Table.Order.get?_walk, hs]
      rfl

/-- The connection fails with the streams as they were. -/
theorem Accounts.fatalError {g' : Nat → Inbound} (hacc : Accounts g c) (c' : H2Connection)
    (hopen : c.state.done = false) (hevents : c'.events = c.events)
    (hcore : ∀ sid, Alike (c.coreAt sid) (c'.coreAt sid)) (hnext : c'.nextStreamId = c.nextStreamId)
    (hbegun : ∀ sid, c'.continuationStream = some sid → sid < c.nextStreamId)
    (htake : ∀ sid, (g sid).ended = true → g' sid = g sid) (e : H2Error) :
    Accounts g' (c'.fatalError e) := by
  have hdone := fatalError_done c' e
  have hview : ∀ sid, (c'.fatalError e).view sid = c.view sid :=
    fun sid => (view_fatalError c' e sid).trans (view_congr _ hevents sid)
  have hcore' : ∀ sid, Alike (c.coreAt sid) ((c'.fatalError e).coreAt sid) :=
    fun sid => coreAt_fatalError c' e sid ▸ hcore sid
  have hnext' : (c'.fatalError e).nextStreamId = c.nextStreamId :=
    (congrArg Setup.nextStreamId (setup_fatalError c' e)).trans hnext
  refine ⟨fun sid => ?_, fun sid hsid => ?_, fun sid hsid => ?_,
    fun h => (nomatch h.symm.trans hdone), ?_⟩
  · rw [hdone, hview]
    exact ((hacc.told sid).same id (hcore' sid)).close (htake sid)
  · obtain ⟨hnone, hstart⟩ := hacc.fresh sid (hnext' ▸ hsid)
    have halike := hcore' sid
    rw [hnone] at halike
    exact ⟨halike.eq_none, (hview sid).trans hstart⟩
  · have hcont : (c'.fatalError e).continuationStream = c'.continuationStream := by
      rw [H2Connection.fatalError]
      split <;> rfl
    exact hnext' ▸ hbegun sid (hcont.symm.trans hsid)
  · rintro ⟨k, code, d, hmem⟩
    have hmem : .goAway k code d ∈ c.events := by
      rw [← hevents]
      rw [H2Connection.fatalError] at hmem
      split at hmem
      · exact hmem
      · rcases List.mem_append.mp hmem with hmem | hmem
        · exact hmem
        · cases List.mem_singleton.mp hmem
    exact absurd (hacc.goAway ⟨k, code, d, hmem⟩).1 (Bool.eq_false_iff.mp hopen)

/-- **A frame is handled.** -/
theorem accounts_takeFrame {raw : List UInt8} (hacc : Accounts g c) (hopen : c.state.done = false)
    (hx : Undisturbed c (.frame raw f)) :
    Accounts (fun sid => (g sid).take sid f) (c.takeFrame f) := by
  have hended : ∀ sid, (g sid).ended = true → (g sid).take sid f = g sid :=
    fun sid h => Inbound.take_of_ended h sid f
  rcases takeFrame_cases c f with ⟨e, b, -, hc⟩ | ⟨hadmits, c', r, hd, hc⟩
  · rw [hc]
    exact hacc.fatalError { c with receivedAnyFrame := b } hopen rfl (fun _ => .refl _) rfl
      hacc.begun hended e
  · have hnext : c'.nextStreamId = c.nextStreamId := by
      rw [← nextStreamId_takeFrame c f, hc]
      exact (congrArg Setup.nextStreamId (setup_settle c' r)).symm
    rw [hc]
    have hacc' : Accounts g { c with receivedAnyFrame := true } := { hacc with }
    have hcont := continuationStream_of_admits hadmits
    have hbegun : ∀ sid, c'.continuationStream = some sid → sid < c.nextStreamId := by
      intro sid hsid
      rcases hd.begun hsid with h | h
      · exact hacc.begun sid h
      · by_contra hlt
        exact h (hacc.fresh sid (Nat.le_of_not_lt hlt)).1
    rcases r with e | _
    · obtain ⟨hevents, hcore⟩ := hd.alike_of_error rfl
      exact hacc.fatalError _ hopen hevents hcore hnext hbegun hended e
    · have hfollows := hd.follows rfl hacc' hopen hcont
      refine ⟨fun sid => (hfollows sid).told, fun sid hsid => ?_, fun sid hsid => ?_,
        fun hdone sid s hsid hs => ?_, ?_⟩
      · obtain ⟨hnone, hstart⟩ := hacc.fresh sid (hnext ▸ hsid)
        exact (hfollows sid).fresh hnone hstart
      · exact hnext ▸ hbegun sid hsid
      · exact hd.knows rfl hacc' hopen hcont hsid hs
      · rintro ⟨k, code, d, hmem⟩
        rcases hd.mem_goAway hmem with hmem | rfl
        · exact absurd (hacc.goAway ⟨k, code, d, hmem⟩).1 (Bool.eq_false_iff.mp hopen)
        · obtain ⟨hdone, hkept⟩ := hd.kept_of_goAway
          refine ⟨hdone, fun sid hresp => ?_⟩
          rcases (hfollows sid).told.responded hresp with h | h | ⟨core, hk, hcore⟩
          · exact .inl h
          · exact .inr h
          · obtain ⟨s, hs, rfl, hle⟩ := hkept sid core hk
            have hover := hx raw k code d rfl sid s hs hle hcore
            exact .inl ((hfollows sid).told.isOver _ hk hover)

theorem done_of_sendRequest {headers : List HeaderField} {es : Bool}
    (h : c.sendRequest headers es = (c', .ok k)) : c.state.done = false := by
  rw [Bool.eq_false_iff]
  intro hdone
  rw [sendRequest, if_pos hdone] at h
  cases h

/-- A stream is opened. -/
theorem Accounts.openStream (hacc : Accounts g c) (hopen : c.state.done = false)
    (headers : List HeaderField) (es : Bool) :
    Accounts (fun sid => if sid = c.nextStreamId then .start else g sid) (c.openStream headers es) := by
  have hcore := coreAt_openStream c headers es
  have hview : ∀ sid, (c.openStream headers es).view sid = c.view sid := fun _ => rfl
  refine ⟨fun sid => ?_, fun sid hsid => ?_, fun sid hsid => ?_, fun hdone sid s hsid hs => ?_, ?_⟩
  · rw [hcore, hview]
    by_cases hsid : sid = c.nextStreamId
    · rw [if_pos hsid, if_pos hsid, (hacc.fresh sid hsid.ge).2]
      refine ⟨nofun, fun _ k hk _ => ⟨rfl, rfl, nofun⟩, fun k hk hover => ?_, nofun⟩
      cases hk
      cases es <;> rcases hover with h | h <;> cases h
    · rw [if_neg hsid, if_neg hsid]
      exact hacc.told sid
  · change c.nextStreamId + 2 ≤ sid at hsid
    rw [hcore, hview, if_neg (by omega)]
    exact hacc.fresh sid (by omega)
  · exact Nat.lt_add_right 2 (hacc.begun sid hsid)
  · have hlt := hacc.begun sid hsid
    change (c.streams.insert _ _).get? sid = some s at hs
    rw [Table.get?_insert, if_neg (Nat.ne_of_lt hlt)] at hs
    rw [if_neg (Nat.ne_of_lt hlt)]
    exact hacc.block hopen sid s hsid hs
  · exact fun hgo => absurd (hacc.goAway hgo).1 (Bool.eq_false_iff.mp hopen)

variable {data : List UInt8} {s : H2Stream}

/-- Sending data does not end the stream for the peer. -/
theorem over_sent (hmay : c.MaySend k s data) (es : Bool) {state : StreamState}
    (hstate : state = if es then if s.state = .halfClosedRemote then .closed else .halfClosedLocal
      else s.state) : (state = .closed ∨ state = .halfClosedRemote) ↔ s.core.Over := by
  rw [hstate, Core.Over, H2Stream.core]
  rcases hmay.state with h | h <;> rw [h] <;> cases es <;> simp

theorem sendChunks_alike (hmay : c.MaySend k s data) (es : Bool) (sid : Nat) :
    Alike (c.coreAt sid) ((c.sendChunks k s data es).coreAt sid) := by
  rw [coreAt_sendChunks hmay.stream]
  split
  · rename_i hsid
    rw [hsid, coreAt_of_get? hmay.stream]
    exact .some (over_sent hmay es rfl) rfl
  · exact .refl _

/-- Data is sent. -/
theorem Accounts.sendChunks (hacc : Accounts g c) (hmay : c.MaySend k s data) (es : Bool) :
    Accounts g (c.sendChunks k s data es) := by
  have hcore := sendChunks_alike hmay es
  refine ⟨fun sid => (hacc.told sid).same id (hcore sid), fun sid hsid => ?_, hacc.begun,
    fun hopen sid s' hsid hs' => ?_, hacc.goAway⟩
  · obtain ⟨hnone, hstart⟩ := hacc.fresh sid hsid
    have halike := hcore sid
    rw [hnone] at halike
    exact ⟨halike.eq_none, hstart⟩
  · change (c.streams.modify k _).get? sid = some s' at hs'
    rcases Table.get?_modify_eq_some hmay.stream hs' with ⟨rfl, rfl⟩ | ⟨-, hs'⟩
    · obtain ⟨hes, hnot⟩ := hacc.block hopen sid s hsid hmay.stream
      exact ⟨hes, fun h => hnot fun h' => h ((over_sent hmay es rfl).mpr h')⟩
    · exact hacc.block hopen sid s' hsid hs'

/-- **One step keeps the account.** -/
theorem accounts_step {x : ConnStep} (hgen : c.Genuine x) (hx : Undisturbed c x)
    (hown : ∀ sid code, x ≠ .own (.resetStream sid code)) (hacc : Accounts g c) :
    Accounts (recordInbound g c x) (c.step x) := by
  have hfatal : ∀ e, Accounts g (c.fatalError e) := by
    intro e
    rcases hopen : c.state.done with _ | _
    · exact hacc.fatalError _ hopen rfl (fun _ => .refl _) rfl hacc.begun (fun _ _ => rfl) e
    · rw [H2Connection.fatalError, if_pos hopen]
      exact hacc
  cases x with
  | malformed e => exact hfatal e
  | overflow => exact hfatal _
  | frame raw f => exact accounts_takeFrame hacc hgen.1 hx
  | own l =>
    cases l with
    | sendRequest headers es =>
      rw [step, own, recordInbound]
      rcases sendRequest_cases c headers es with ⟨e, heq⟩ | heq
      · rw [heq]
        exact hacc
      · have hopen := done_of_sendRequest heq
        rw [heq]
        exact hacc.openStream hopen headers es
    | sendData sid data es =>
      exact sendData_induction (P := Accounts g) hacc fun s hmay => hacc.sendChunks hmay es
    | resetStream sid code => exact absurd rfl (hown sid code)
    | sendGoaway code =>
      exact ⟨fun sid => (hacc.told sid).close fun _ => rfl, hacc.fresh, hacc.begun, by rintro ⟨⟩,
        fun hgo => ⟨rfl, (hacc.goAway hgo).2⟩⟩
    | setMaxRecvBuf n => exact { hacc with }
    | sendPing => exact { hacc with }

end H2Connection
end Ringline.H2
