import Ringline.H2.Outcome

/-!
# Streams at a glance

Most of what can be said about a stream depends on three of its fields only: its state, its send
window, and whether its response was delivered.  `coreAt c sid` is these three, and this file says
how each part of the frame handling changes the cores and the events.  `Touch` is all that a frame can
do to the core of a stream, with the events that the client is told of it (`Dispatched.touches`).
-/

set_option autoImplicit false

namespace Ringline.H2

/-- The stream that an event is about. -/
def H2Event.stream : H2Event → Option Nat
  | .response sid _ _ | .data sid _ _ | .trailers sid _ | .streamReset sid _ => some sid
  | _ => none

/-- The part of a stream that decides what may happen on it. -/
structure Core where
  state : StreamState
  sendWindow : FlowControl
  responded : Bool
deriving DecidableEq

def H2Stream.core (s : H2Stream) : Core := ⟨s.state, s.sendWindow, s.receivedInitialResponse⟩

namespace H2Connection

variable {c : H2Connection}

/-- The core of a stream in the table. -/
def coreAt (c : H2Connection) (sid : Nat) : Option Core := (c.streams.get? sid).map H2Stream.core

variable {s : H2Stream} {sid : Nat}

theorem coreAt_of_get? (h : c.streams.get? sid = some s) : c.coreAt sid = some s.core := by
  rw [coreAt, h, Option.map_some]

theorem get?_of_coreAt {k : Core} (h : c.coreAt sid = some k) :
    ∃ s, c.streams.get? sid = some s ∧ s.core = k := Option.map_eq_some_iff.mp h

/-! ## Changes of the table -/

section

variable (t : Table Nat H2Stream) (k : Nat) (g : H2Stream → H2Stream) (sid : Nat)

/-- The cores of a table. -/
def coreIn (t : Table Nat H2Stream) (sid : Nat) : Option Core := (t.get? sid).map H2Stream.core

theorem coreIn_modify_of_core (h : ∀ s, (g s).core = s.core) :
    coreIn (t.modify k g) sid = coreIn t sid := by
  rw [coreIn, coreIn, Table.get?_modify]
  split
  · rw [Option.map_map]
    exact congrArg (Option.map · (t.get? sid)) (funext h)
  · rfl

theorem coreIn_modify (h : t.get? k = some s) :
    coreIn (t.modify k g) sid = if sid = k then some (g s).core else coreIn t sid := by
  rw [coreIn, Table.get?_modify]
  split
  · rename_i hk
    rw [hk, h]
    rfl
  · rfl

theorem coreIn_erase : coreIn (t.erase k) sid = if sid = k then none else coreIn t sid := by
  rw [coreIn, Table.get?_erase]
  split <;> rfl

end

theorem coreAt_of_erase (c c' : H2Connection) {k : Nat} (h : c'.streams = c.streams.erase k)
    (j : Nat) : c'.coreAt j = if j = k then none else c.coreAt j := by
  rw [coreAt, h]
  exact coreIn_erase c.streams k j

/-! ## The calls of the client -/

theorem coreAt_openStream (c : H2Connection) (headers : List HeaderField) (es : Bool) (j : Nat) :
    (c.openStream headers es).coreAt j =
      if j = c.nextStreamId then
        some ⟨if es then .halfClosedLocal else .open, ⟨c.remoteSettings.initialWindowSize⟩, false⟩
      else c.coreAt j := by
  have hinsert : ∀ s, coreIn (c.streams.insert c.nextStreamId s) j =
      if j = c.nextStreamId then some s.core else c.coreAt j := by
    intro s
    rw [coreIn, Table.get?_insert]
    split <;> rfl
  refine (hinsert _).trans ?_
  rcases es with _ | _ <;> rfl

theorem coreAt_sendChunks (hs : c.streams.get? sid = some s) (data : List UInt8) (es : Bool)
    (j : Nat) :
    (c.sendChunks sid s data es).coreAt j =
      if j = sid then
        some ⟨if es then if s.state = .halfClosedRemote then .closed else .halfClosedLocal
            else s.state, ⟨s.sendWindow.window - (data.length % 4294967296 : Nat)⟩,
          s.receivedInitialResponse⟩
      else c.coreAt j :=
  coreIn_modify c.streams sid _ j hs

variable (c)

theorem coreAt_resetStream (sid : Nat) (code : ErrorCode) (j : Nat) :
    (c.resetStream sid code).coreAt j =
      if j = sid then (c.coreAt j).map fun k => { k with state := .closed } else c.coreAt j := by
  have hmodify : coreIn (c.streams.modify sid fun s => { s with state := .closed }) j =
      if j = sid then (c.coreAt j).map fun k => { k with state := .closed } else c.coreAt j := by
    rw [coreIn, Table.get?_modify]
    split
    · rw [coreAt, Option.map_map, Option.map_map]
      rfl
    · rfl
  exact hmodify

/-! ## The parts of the handlers -/

theorem coreAt_fatalError (e : H2Error) (j : Nat) : (c.fatalError e).coreAt j = c.coreAt j := by
  rw [fatalError]
  split <;> rfl

theorem coreAt_headersBegun (sid : Nat) (encoded : List UInt8) (es : Bool) (j : Nat) : ({ c with
      streams := c.streams.modify sid fun s =>
        { s with
          headerBuf := s.headerBuf ++ encoded
          receivingHeaders := true
          headersEndStream := es }
      continuationStream := some sid } : H2Connection).coreAt j = c.coreAt j :=
  coreIn_modify_of_core c.streams sid _ j fun _ => rfl

theorem coreAt_headersContinued (sid : Nat) (encoded : List UInt8) (j : Nat) : ({ c with
      streams := c.streams.modify sid fun s =>
        { s with headerBuf := s.headerBuf ++ encoded } } : H2Connection).coreAt j = c.coreAt j :=
  coreIn_modify_of_core c.streams sid _ j fun _ => rfl

theorem coreAt_takeBlock (f : Frame) (sid : Nat) : (c.takeBlock f).coreAt sid = c.coreAt sid := by
  cases f with
  | headers k encoded es eh p => exact coreIn_modify_of_core c.streams k _ sid fun _ => rfl
  | continuation k encoded eh => exact coreIn_modify_of_core c.streams k _ sid fun _ => rfl
  | _ => rfl

theorem events_takeBlock (f : Frame) : (c.takeBlock f).events = c.events := by
  cases f <;> rfl

/-- The event of a header block. -/
def headersEvent (sid : Nat) (responded : Bool) (headers : List HeaderField) (es : Bool) : H2Event :=
  if !responded then .response sid headers es else .trailers sid headers

theorem events_deliverHeaders (sid : Nat) (s : H2Stream) (headers : List HeaderField) (es : Bool) :
    (c.deliverHeaders sid s headers es).events =
      c.events ++ [headersEvent sid s.receivedInitialResponse headers es] := by
  rw [deliverHeaders]
  split <;> rfl

variable {c}

theorem coreAt_deliverHeaders (hs : c.streams.get? sid = some s) (headers : List HeaderField)
    (es : Bool) (j : Nat) :
    (c.deliverHeaders sid s headers es).coreAt j =
      if j = sid then
        if s.state.remote es = .closed then none else some ⟨s.state.remote es, s.sendWindow, true⟩
      else c.coreAt j := by
  have hmod := fun g => coreIn_modify c.streams sid g j hs
  rw [deliverHeaders]
  split
  · refine (coreIn_erase _ sid j).trans ?_
    split
    · rfl
    · rename_i hj
      exact (hmod _).trans (if_neg hj)
  · exact hmod _

section

variable (c : H2Connection)

theorem coreAt_maybeSendWindowUpdates (sid n j : Nat) :
    (c.maybeSendWindowUpdates sid n).coreAt j = c.coreAt j := by
  obtain ⟨w, t, fs, h, hsame, -⟩ := maybeSendWindowUpdates_eq c sid n
  have hcore := congrArg (Option.map H2Stream.core) (hsame j)
  rw [Option.map_map, Option.map_map] at hcore
  rw [h]
  exact hcore

theorem events_maybeSendWindowUpdates (sid n : Nat) :
    (c.maybeSendWindowUpdates sid n).events = c.events := by
  obtain ⟨w, t, fs, h, -, -⟩ := maybeSendWindowUpdates_eq c sid n
  rw [h]

theorem events_deliverData (sid : Nat) (s : H2Stream) (w : FlowControl) (payload : List UInt8)
    (es : Bool) :
    (c.deliverData sid s w payload es).events = c.events ++ [.data sid payload es] := by
  rw [deliverData]
  split <;> exact events_maybeSendWindowUpdates _ _ _

theorem events_refuseData (sid n : Nat) : (c.refuseData sid n).events = c.events := by
  rw [refuseData]
  split <;> rfl

end

theorem coreAt_deliverData (hs : c.streams.get? sid = some s) (hclosed : s.state ≠ .closed)
    (w : FlowControl) (payload : List UInt8) (es : Bool) (j : Nat) :
    (c.deliverData sid s w payload es).coreAt j =
      if j = sid then
        if s.state.remote es = .closed then none
        else some ⟨s.state.remote es, s.sendWindow, s.receivedInitialResponse⟩
      else c.coreAt j := by
  have hkept : ∀ g e n, ((({ c with streams := c.streams.modify sid g } : H2Connection).push
      e).maybeSendWindowUpdates sid n).coreAt j = if j = sid then some (g s).core else c.coreAt j :=
    fun g e n => (coreAt_maybeSendWindowUpdates _ sid n j).trans (coreIn_modify c.streams sid g j hs)
  rw [deliverData]
  split
  · rename_i hend
    refine (coreIn_erase _ sid j).trans ?_
    split
    · rw [if_pos hend.2]
    · rename_i hj
      exact (hkept _ _ _).trans (if_neg hj)
  · rename_i hend
    have hopen : s.state.remote es ≠ .closed := by
      intro h
      rcases es with _ | _
      · exact hclosed h
      · exact hend ⟨rfl, h⟩
    rw [hkept, if_neg hopen]
    rfl

theorem coreAt_resetAll (ids : List Nat) (c : H2Connection) (j : Nat) :
    (c.resetAll ids).coreAt j = if j ∈ ids then none else c.coreAt j := by
  induction ids generalizing c with
  | nil => rfl
  | cons id ids ih =>
    rw [resetAll, ih]
    have herase : ((({ c with streams := c.streams.erase id } : H2Connection)).push
        (.streamReset id .refusedStream)).coreAt j = if j = id then none else c.coreAt j :=
      coreIn_erase c.streams id j
    rw [herase]
    by_cases hmem : j ∈ ids
    · simp [hmem]
    · simp [hmem]

theorem events_resetAll (ids : List Nat) (c : H2Connection) :
    (c.resetAll ids).events = c.events ++ ids.map (.streamReset · .refusedStream) := by
  induction ids generalizing c with
  | nil => simp [resetAll]
  | cons id ids ih =>
    rw [resetAll, ih]
    simp [push]

end H2Connection

/-! ## Frames -/

/-- The frame brings something to the stream. -/
def Frame.Brings (sid : Nat) : Frame → Prop
  | .data k _ _ | .headers k _ _ _ _ => k = sid
  | _ => False

/-- The entry of a stream after HEADERS or DATA of the peer. -/
def Core.received (k : Core) (es responded : Bool) : Option Core :=
  if k.state.remote es = .closed then none else some ⟨k.state.remote es, k.sendWindow, responded⟩

namespace H2Connection

variable {c c' : H2Connection} {f : Frame} {r : Except H2Error Unit}

/-- The frame brings something to the stream, or completes a header block of it. -/
def Concerns (c : H2Connection) (f : Frame) (sid : Nat) : Prop :=
  f.Brings sid ∨ ∃ b, c.completes f = some b ∧ b.streamId = sid

/-- What a frame does to the entry of a stream, with the events of the stream. -/
inductive Touch (c : H2Connection) (f : Frame) (r : Except H2Error Unit) (sid : Nat) :
    List H2Event → Option Core → Option Core → Prop
  | kept (o : Option Core) (h : r = .ok () → ¬ c.Concerns f sid) :
    Touch c f r sid [] o o
  | window (k : Core) (w : FlowControl)
      (h : (∃ s, f = .settings false s) ∨
        ∃ inc, sid ≠ 0 ∧ f = .windowUpdate sid inc ∧ k.sendWindow.increase inc = .ok w) :
    Touch c f r sid [] (some k) (some { k with sendWindow := w })
  | begun (k : Core) {encoded : List UInt8} {es : Bool} {p : Option Priority}
      (h : f = .headers sid encoded es false p) : Touch c f r sid [] (some k) (some k)
  | headers (k : Core) {b : Block} (fields : List HeaderField) (hb : c.completes f = some b)
      (hsid : b.streamId = sid) (hend : k.responded = true → b.endStream = true) :
    Touch c f r sid [headersEvent sid k.responded fields b.endStream] (some k)
      (k.received b.endStream true)
  | data (k : Core) {payload : List UInt8} {es : Bool} (h : f = .data sid payload es)
      (hclosed : k.state ≠ .closed) (hremote : k.state ≠ .halfClosedRemote) :
    Touch c f r sid [.data sid payload es] (some k) (k.received es k.responded)
  | dropped {o : Option Core} {payload : List UInt8} {es : Bool} (hr : r = .ok ())
      (h : f = .data sid payload es)
      (hover : ∀ k, o = some k → k.state = .closed ∨ k.state = .halfClosedRemote) :
    Touch c f r sid [] o none
  | reset {o : Option Core} (code : ErrorCode)
      (h : f = .rstStream sid code ∨
        ∃ k, o = some k ∧ ((∃ inc, f = .windowUpdate sid inc ∧ k.sendWindow.window + inc > 0x7fffffff) ∨
          ∃ last code d, f = .goAway last code d ∧ last < sid)) :
    Touch c f r sid [.streamReset sid code] o none

/-- What a frame does to all streams. -/
def Touches (c : H2Connection) (f : Frame) (r : Except H2Error Unit) (c' : H2Connection) : Prop :=
  ∃ evs, c'.events = c.events ++ evs ∧
    (∀ sid, Touch c f r sid (evs.filter (·.stream = some sid)) (c.coreAt sid) (c'.coreAt sid)) ∧
    (∀ k code d, .goAway k code d ∈ evs → f = .goAway k code d) ∧ (evs = [] ∨ r = .ok ())

/-- No event comes. -/
theorem Touches.quiet (hevents : c'.events = c.events)
    (h : ∀ sid, Touch c f r sid [] (c.coreAt sid) (c'.coreAt sid)) : Touches c f r c' :=
  ⟨[], hevents.trans (List.append_nil _).symm, h, by simp, .inl rfl⟩

/-- An event comes that is about no stream. -/
theorem Touches.notice {e : H2Event} (hevents : c'.events = c.events ++ [e]) (he : e.stream = none)
    (hgo : ∀ k code d, e ≠ .goAway k code d)
    (h : ∀ sid, Touch c f (.ok ()) sid [] (c.coreAt sid) (c'.coreAt sid)) :
    Touches c f (.ok ()) c' := by
  refine ⟨[e], hevents, fun sid => ?_, fun k code d hmem => ?_, .inr rfl⟩
  · simpa [he] using h sid
  · exact absurd (List.mem_singleton.mp hmem).symm (hgo k code d)

/-- An event comes that is about the stream of the frame. -/
theorem Touches.event {e : H2Event} {k : Nat} (hevents : c'.events = c.events ++ [e])
    (he : e.stream = some k) (hf : ∀ sid, c.Concerns f sid → sid = k)
    (hother : ∀ sid, sid ≠ k → c'.coreAt sid = c.coreAt sid)
    (h : Touch c f (.ok ()) k [e] (c.coreAt k) (c'.coreAt k)) : Touches c f (.ok ()) c' := by
  refine ⟨[e], hevents, fun sid => ?_, fun k code d hmem => ?_, .inr rfl⟩
  · by_cases hsid : sid = k
    · subst hsid
      simpa [he] using h
    · rw [hother sid hsid]
      simpa [he, Ne.symm hsid] using Touch.kept _ fun _ h => hsid (hf sid h)
  · rw [← List.mem_singleton.mp hmem] at he
    cases he

theorem coreAt_of_completes {b : Block} (hb : c.completes f = some b) :
    ∃ k, c.coreAt b.streamId = some k := by
  cases completes_cases hb with
  | headers _ _ _ hs => exact ⟨_, coreAt_of_get? hs⟩
  | continuation _ hs => exact ⟨_, coreAt_of_get? hs⟩

theorem checkHeaders_responded {s : H2Stream} {headers : List HeaderField} {es : Bool}
    (h : checkHeaders s headers es = .ok ()) (hs : s.receivedInitialResponse = true) : es = true := by
  rw [checkHeaders, hs] at h
  cases es with
  | true => rfl
  | false =>
    simp only [Bool.not_true, Bool.false_eq_true, if_false, Bool.not_false, if_true] at h
    split at h <;> cases h

/-- **What handling a frame does to the streams.** -/
theorem Dispatched.touches (h : Dispatched c f c' r) : Touches c f r c' := by
  have hkept : ∀ {f : Frame} {r : Except H2Error Unit}, (∀ sid, r = .ok () → ¬ c.Concerns f sid) →
      c'.events = c.events → (∀ sid, c'.coreAt sid = c.coreAt sid) → Touches c f r c' :=
    fun hf hevents hcore => .quiet hevents fun sid => hcore sid ▸ .kept _ (hf sid)
  have hbrings : ∀ {sid} {f : Frame}, c.completes f = none → ¬ f.Brings sid → ¬ c.Concerns f sid :=
    fun hnone hbrings h => h.elim hbrings fun ⟨b, hb, _⟩ => by cases hnone.symm.trans hb
  cases h with
  | ignored hp =>
    refine hkept (fun sid _ => hbrings ?_ ?_) rfl fun _ => rfl
    · cases f with
      | continuation k encoded eh =>
        rw [Passive] at hp
        cases eh <;> simp [completes, hp]
      | _ => first | rfl | cases hp
    · cases f <;> first | exact id | cases hp
  | failed hp e => exact hkept (by simp) rfl fun _ => rfl
  | acknowledged s => exact .notice rfl rfl (by simp) fun _ => .kept _ fun _ => hbrings rfl id
  | settings s =>
    have happlied := settingsApplied c s
    refine .quiet happlied.events fun sid => ?_
    have hadj := happlied.adjusted sid
    rw [coreAt, coreAt]
    generalize c.streams.get? sid = o at hadj
    generalize (c.handleSettings false s).1.streams.get? sid = o' at hadj
    cases hadj with
    | same => exact .kept _ fun _ => hbrings rfl id
    | moved hopen hle => exact .window _ _ (.inl ⟨s, rfl⟩)
  | @headersBegun k encoded es p s hs =>
    refine .quiet rfl fun sid => ?_
    rw [coreAt_headersBegun]
    by_cases hsid : sid = k
    · subst hsid
      rw [coreAt_of_get? hs]
      exact .begun _ rfl
    · exact .kept _ fun _ => hbrings rfl fun h => hsid (Eq.symm h)
  | @headersContinued k encoded s hs =>
    exact hkept (fun _ _ => hbrings rfl id) rfl (coreAt_headersContinued c k encoded)
  | @block _ b _ _ hb h =>
    have hcore := coreAt_takeBlock c f
    have hevents := events_takeBlock c f
    cases h with
    | tooLong e => exact hkept (by simp) hevents hcore
    | refused e => exact hkept (by simp) hevents hcore
    | gone hgone =>
      obtain ⟨k, hk⟩ := coreAt_of_completes hb
      rw [← hcore, coreAt, hgone] at hk
      cases hk
    | delivered s headers hs hdec hcheck =>
      have hk : c.coreAt b.streamId = some s.core := (hcore _).symm.trans (coreAt_of_get? hs)
      have hcore' := coreAt_deliverHeaders (c := (c.takeBlock f).withDecoded b) hs headers b.endStream
      refine .event (k := b.streamId) ((events_deliverHeaders ((c.takeBlock f).withDecoded b) _ s
        headers _).trans (congrArg (· ++ _) hevents)) ?_ ?_ ?_ ?_
      · rw [headersEvent]
        split <;> rfl
      · rintro sid (h | ⟨b', hb', rfl⟩)
        · cases completes_cases hb with
          | headers => exact Eq.symm h
          | continuation => exact h.elim
        · rw [Option.some.inj (hb'.symm.trans hb)]
      · exact fun sid hsid => ((hcore' sid).trans (if_neg hsid)).trans (hcore sid)
      · rw [hcore', if_pos rfl, hk]
        exact .headers s.core headers hb rfl (checkHeaders_responded hcheck)
  | @dataRefused k payload es w hw hgone =>
    have hcore := coreAt_of_erase c { ({ c with connRecvWindow := w } : H2Connection).refuseData k
      (payload.length % 4294967296) with streams := c.streams.erase k } rfl
    refine .quiet (events_refuseData { c with connRecvWindow := w } k _) fun sid => ?_
    rw [hcore]
    split
    · rename_i hsid
      subst hsid
      refine .dropped rfl rfl fun core hk => ?_
      obtain ⟨s, hs, rfl⟩ := get?_of_coreAt hk
      exact hgone s hs
    · rename_i hsid
      exact .kept _ fun _ => hbrings rfl fun h => hsid (Eq.symm h)
  | dataOverrun => exact hkept (by simp) rfl fun _ => rfl
  | @dataDelivered k payload es w rw s hw hs hclosed hremote hrw =>
    have hcore := coreAt_deliverData (c := { c with connRecvWindow := w }) hs hclosed rw payload es
    refine .event (k := k) (events_deliverData { c with connRecvWindow := w } k s rw payload es) rfl
      (fun sid h => by_contra fun hsid =>
        hbrings (f := .data k payload es) rfl (fun h => hsid (Eq.symm h)) h)
      (fun sid hsid => (hcore sid).trans (if_neg hsid)) ?_
    rw [hcore, if_pos rfl, coreAt_of_get? hs]
    exact .data s.core rfl hclosed hremote
  | reset k code =>
    have hcore := coreAt_of_erase c (({ c with streams := c.streams.erase k } :
      H2Connection).push (.streamReset k code)) rfl
    refine .event (k := k) rfl rfl (fun sid h => absurd h (hbrings rfl id))
      (fun sid hsid => (hcore sid).trans (if_neg hsid)) ?_
    rw [hcore, if_pos rfl]
    exact .reset code (.inl rfl)
  | pong data => exact .notice rfl rfl (by simp) fun _ => .kept _ fun _ => hbrings rfl id
  | goAway last code debugData =>
    refine ⟨.goAway last code debugData :: ((c.order.walk c.streams).keys.filter (last < ·)).map
      (.streamReset · .refusedStream), ?_, fun sid => ?_, ?_, .inr rfl⟩
    · rw [events_resetAll]
      simp [push]
    · have hnodup : ((c.order.walk c.streams).keys.filter (last < ·)).Nodup :=
        (c.order.walk c.streams).nodup.filter _
      rw [List.filter_cons_of_neg (by simp [H2Event.stream]),
        Table.filter_map_of_nodup _ H2Event.stream (fun _ => rfl) hnodup, coreAt_resetAll]
      split
      · rename_i hmem
        obtain ⟨hkey, hlast⟩ := List.mem_filter.mp hmem
        rw [Table.mem_keys_iff, Table.Order.get?_walk] at hkey
        obtain ⟨s, hs⟩ := Option.isSome_iff_exists.mp hkey
        exact .reset _ (.inr ⟨s.core, coreAt_of_get? hs,
          .inr ⟨last, code, debugData, rfl, of_decide_eq_true hlast⟩⟩)
      · exact .kept _ fun _ => hbrings rfl id
    · intro k code' d hmem
      simpa [eq_comm, and_comm] using hmem
  | @credit k inc s w hsid hs hw =>
    refine .quiet rfl fun sid => ?_
    have hcore : ({ c with streams := c.streams.modify k fun s => { s with sendWindow := w } } :
        H2Connection).coreAt sid = if sid = k then some { s.core with sendWindow := w }
          else c.coreAt sid := coreIn_modify c.streams k _ sid hs
    rw [hcore]
    split
    · rename_i heq
      subst heq
      rw [coreAt_of_get? hs]
      exact .window _ w (.inr ⟨inc, hsid, rfl, hw⟩)
    · exact .kept _ fun _ => hbrings rfl id
  | @creditOverflow k inc s hsid hs hw =>
    have hcore := coreAt_of_erase c ((({ c with streams := c.streams.erase k } :
      H2Connection).emit (.rstStream k .flowControlError)).push
        (.streamReset k .flowControlError)) (k := k) rfl
    refine .event (k := k) rfl rfl (fun sid h => absurd h (hbrings rfl id))
      (fun sid hsid => (hcore sid).trans (if_neg hsid)) ?_
    rw [hcore, if_pos rfl]
    exact .reset _ (.inr ⟨s.core, coreAt_of_get? hs, .inl ⟨inc, rfl, hw⟩⟩)
  | _ => exact hkept (fun _ _ => hbrings rfl id) rfl fun _ => rfl

end H2Connection
end Ringline.H2
