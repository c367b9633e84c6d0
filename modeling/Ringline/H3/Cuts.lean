import Ringline.H3.RequestStream

/-!
# How a stream is cut into reads

The bytes of a request stream come in rounds of reads, and the end of the stream comes with the last
one.  The frames are the same wherever the bytes are cut, so that the connection tells the same in all
cases but one (`rounded_readAll`): it matters whether the end comes together with some bytes or alone,
because a frame is told to be the last one only if the end of the stream is known when it is complete.

The two cases are told apart exactly if `EndMatters`: the last frame is the first header section of the
stream, or trailers, or DATA while our side is closed (`cuts_agree_iff`).  Trailers whose end comes late
are even refused (`late_end_refuses_trailers`).
-/

set_option autoImplicit false

namespace Ringline.H3

open List
open H2 (HeaderField)

/-! ## Sequences -/

namespace Told

theorem andThen_ok (rs : RequestStream) (f : RequestStream → Told) :
    (⟨[], .ok rs⟩ : Told).andThen f = f rs := Told.ext (nil_append _) rfl

theorem andThen_assoc (t : Told) (f g : RequestStream → Told) :
    (t.andThen f).andThen g = t.andThen fun rs => (f rs).andThen g := by
  rcases t with ⟨events, e | rs⟩
  · rfl
  · dsimp only [andThen]
    rcases (f rs).result with e | rs'
    · rfl
    · exact Told.ext (append_assoc _ _ _) rfl

variable {t : Told}

theorem andThen_congr {f g : RequestStream → Told} (h : ∀ rs, t.result = .ok rs → f rs = g rs) :
    t.andThen f = t.andThen g := by
  rcases t with ⟨events, e | rs⟩
  · rfl
  · dsimp only [andThen]
    rw [h rs rfl]

theorem result_andThen_of_ok {rs : RequestStream} (h : t.result = .ok rs) (f : RequestStream → Told) :
    (t.andThen f).result = (f rs).result := by
  rw [andThen, h]

/-- Nothing comes after a failure. -/
theorem andThen_of_error {e : H3Error} (h : t.result = .error e) (f : RequestStream → Told) :
    t.andThen f = t := by
  rcases t with ⟨events, r⟩
  obtain rfl := h
  rfl

theorem result_andThen {f : RequestStream → Told} {rs' : RequestStream}
    (h : (t.andThen f).result = .ok rs') : ∃ rs, t.result = .ok rs ∧ (f rs).result = .ok rs' := by
  rcases t with ⟨events, e | rs⟩
  · cases h
  · exact ⟨rs, rfl, h⟩

theorem events_andThen_of_ok {rs : RequestStream} (h : t.result = .ok rs) (f : RequestStream → Told) :
    (t.andThen f).events = t.events ++ (f rs).events := by
  rw [andThen, h]

end Told

namespace RequestStream

variable {limit sid : Nat} {rs : RequestStream}

/-- Frames that are not at the end. -/
theorem takeAll_append {xs ys : List Frame} {atEnd : Bool} (h : ys ≠ [] ∨ atEnd = false) :
    rs.takeAll limit sid (xs ++ ys) atEnd =
      (rs.takeAll limit sid xs false).andThen (takeAll limit sid · ys atEnd) := by
  induction xs generalizing rs with
  | nil => rw [nil_append, takeAll, Told.andThen_ok]
  | cons frame xs ih =>
    have hnot : (atEnd && (xs ++ ys).isEmpty) = false := by
      rcases h with h | h
      · rw [isEmpty_eq_false_iff.mpr (append_ne_nil_of_right_ne_nil _ h), Bool.and_false]
      · rw [h, Bool.false_and]
    rw [cons_append, takeAll, takeAll, hnot, Bool.false_and, Told.andThen_assoc]
    exact Told.andThen_congr fun rs' _ => ih

variable {rs' : RequestStream}

/-- What `take_keeps` says of one frame holds for several. -/
theorem takeAll_keeps {frames : List Frame} {atEnd : Bool}
    (h : (rs.takeAll limit sid frames atEnd).result = .ok rs') :
    rs'.recvBuf = rs.recvBuf ∧ (atEnd = false → rs.state ≠ .closed → rs'.state ≠ .closed) ∧
      (atEnd = false → ∀ ev ∈ (rs.takeAll limit sid frames atEnd).events, ev.terminal = false) := by
  induction frames generalizing rs with
  | nil =>
    rw [← Except.ok.inj h]
    exact ⟨rfl, fun _ hopen => hopen, nofun⟩
  | cons frame frames ih =>
    rw [takeAll, takeOne] at h ⊢
    rcases htake : rs.take limit sid frame (atEnd && frames.isEmpty) with e | taken
    · rw [htake] at h
      cases h
    · rw [htake] at h
      obtain ⟨hbuf, hstate, hevents⟩ := take_keeps htake
      obtain ⟨hbuf', hstate', hevents'⟩ := ih h
      refine ⟨hbuf'.trans hbuf, ?_, ?_⟩
      · rintro rfl hopen
        exact hstate' rfl (hstate rfl hopen)
      · rintro rfl
        exact forall_mem_append.mpr ⟨hevents rfl, hevents' rfl⟩

theorem rest_ne_nil_of_error {buf : List UInt8} {e : H3Error} (h : (frames.drain buf).error = some e) :
    (frames.drain buf).rest ≠ [] := by
  intro hnil
  have hnext := Framing.next_rest_of_error h
  rw [hnil] at hnext
  cases hnext

/-- The stream has nothing in its buffer that could be taken. -/
def Settled (rs : RequestStream) : Prop := frames.next rs.recvBuf = .more

/-- The rest of a stream, with its end: what comes of it if the end is known with the last bytes, and
what comes of it if the end comes `alone`. -/
def whole (limit sid : Nat) (rs : RequestStream) (bytes : List UInt8) (alone : Bool) : Told :=
  let d := frames.drain (rs.recvBuf ++ bytes)
  (takeAll limit sid { rs with recvBuf := [] } d.items (!alone && d.rest.isEmpty)).andThen
    (settle sid · d.error d.rest true)

theorem round_nil_eq_whole (h : rs.Settled) :
    rs.round limit sid [] true = rs.whole limit sid [] true := by
  rw [round, whole, append_nil, Framing.drain_of_more h]
  rfl

/-- **A round may be left out**, if its bytes come with the rest. -/
theorem round_andThen_whole (data : List UInt8) {more : List UInt8} {alone : Bool}
    (h : more ≠ [] ∨ alone = true) :
    (rs.round limit sid data false).andThen (whole limit sid · more alone) =
      rs.whole limit sid (data ++ more) alone := by
  rw [round, whole, ← append_assoc, Told.andThen_assoc, Bool.false_and]
  generalize rs.recvBuf ++ data = buf
  rcases herror : (frames.drain buf).error with _ | e
  · rw [Framing.drain_append more herror]
    generalize hd : frames.drain ((frames.drain buf).rest ++ more) = d
    dsimp only [Drained.after]
    -- the frames that were complete after the first round are not at the end
    have hlast : d.items ≠ [] ∨ (!alone && d.rest.isEmpty) = false := by
      rcases h with h | h
      · by_cases hitems : d.items = []
        · right
          have hrest := Framing.eq_rest_of_items_nil (hd.symm ▸ hitems)
          rw [hd] at hrest
          rw [hrest, isEmpty_eq_false_iff.mpr (append_ne_nil_of_right_ne_nil _ h),
            Bool.and_false]
        · exact .inl hitems
      · rw [h]
        exact .inr rfl
    rw [takeAll_append hlast, Told.andThen_assoc]
    refine Told.andThen_congr fun rs' hrs' => ?_
    have hbuf : rs'.recvBuf = [] := (takeAll_keeps hrs').1
    rw [settle, if_neg (fun hfin => Bool.false_ne_true hfin.1), Told.andThen_ok, whole]
    rw [hd, ← hbuf]
  · rw [Framing.drain_append_of_error more herror]
    rw [isEmpty_eq_false_iff.mpr
      (append_ne_nil_of_left_ne_nil (rest_ne_nil_of_error herror) _), Bool.and_false]
    rfl

/-- A round without the end leaves a stream that is settled and not closed. -/
theorem settled_round {data : List UInt8} (hopen : rs.state ≠ .closed)
    (h : (rs.round limit sid data false).result = .ok rs') : rs'.Settled ∧ rs'.state ≠ .closed := by
  rw [round, Bool.false_and] at h
  obtain ⟨rs₁, hrs₁, hsettle⟩ := Told.result_andThen h
  rcases herror : (frames.drain (rs.recvBuf ++ data)).error with _ | e
  · rw [herror, settle, if_neg (fun hfin => Bool.false_ne_true hfin.1)] at hsettle
    obtain rfl := Except.ok.inj hsettle
    have hstays : rs₁.state ≠ .closed := (takeAll_keeps hrs₁).2.1 rfl hopen
    exact ⟨Framing.next_rest _ herror, hstays⟩
  · rw [herror] at hsettle
    cases hsettle

end RequestStream

/-! ## The rounds of a connection -/

/-- Rounds that bring these bytes, and the end of the stream with the last of them, or `alone`. -/
inductive Brings : List Answers → List UInt8 → Bool → Prop where
  | last {a : Answers} {data : List UInt8} :
    Link.readLoop false a.reads = ⟨data, true, none⟩ → Brings [a] data data.isEmpty
  | cons {a : Answers} {rounds : List Answers} {data bytes : List UInt8} {alone : Bool} :
    Link.readLoop false a.reads = ⟨data, false, none⟩ → Brings rounds bytes alone →
      Brings (a :: rounds) (data ++ bytes) alone

variable {rounds : List Answers} {bytes : List UInt8} {alone : Bool}

theorem Brings.ne_nil_or (h : Brings rounds bytes alone) : bytes ≠ [] ∨ alone = true := by
  induction h with
  | @last a data hread =>
    cases data with
    | nil => exact .inr rfl
    | cons b data => exact .inl (cons_ne_nil b data)
  | cons hread hrounds ih => exact ih.imp_left (append_ne_nil_of_right_ne_nil _)

namespace Link

/-- The rounds of reads of a stream. -/
def readAll (l : Link) (sid : Nat) (rounds : List Answers) : Link :=
  rounds.foldl (fun l ans => l.readRequestStream ans sid) l

/-- What the rounds have told. -/
def told (l : Link) (sid : Nat) (rounds : List Answers) : List H3Event :=
  (l.readAll sid rounds).conn.events.drop l.conn.events.length

variable {limit sid : Nat} {rs : RequestStream} {l : Link}

theorem failed_readAll (h : Failed sid l) (rounds : List Answers) :
    Failed sid (l.readAll sid rounds) ∧ (l.readAll sid rounds).conn.events = l.conn.events := by
  induction rounds generalizing l with
  | nil => exact ⟨h, rfl⟩
  | cons ans rounds ih =>
    obtain ⟨hfailed, hevents⟩ := failed_readRequestStream h ans
    obtain ⟨hfailed', hevents'⟩ := ih hfailed
    exact ⟨hfailed', hevents'.trans hevents⟩

/-- One thing after the other, in the connection. -/
theorem Rounded.andThen {t : Told} {f : RequestStream → Told} {events : List H3Event} {l₁ l₂ : Link}
    (h : Rounded limit sid t events l₁)
    (hok : ∀ rs, t.result = .ok rs → Rounded limit sid (f rs) l₁.conn.events l₂)
    (hfailed : Failed sid l₁ → Failed sid l₂ ∧ l₂.conn.events = l₁.conn.events) :
    Rounded limit sid (t.andThen f) events l₂ := by
  rcases hresult : t.result with e | rs
  · obtain ⟨hstays, hsame⟩ := hfailed (h.failed e hresult)
    rw [Told.andThen_of_error hresult]
    refine ⟨fun rs hrs => ?_, fun _ _ => hstays, hsame.trans h.events⟩
    rw [hresult] at hrs
    cases hrs
  · have hnext := hok rs hresult
    have hthen := Told.result_andThen_of_ok hresult f
    refine ⟨fun rs' hrs' => hnext.ok rs' (hthen ▸ hrs'), fun e he => hnext.failed e (hthen ▸ he), ?_⟩
    rw [hnext.events, h.events, Told.events_andThen_of_ok hresult, append_assoc]

/-- **What a stream comes to does not depend on the rounds**, but for the end that comes alone. -/
theorem rounded_readAll (hbrings : Brings rounds bytes alone) (h : Tracks limit sid rs l)
    (hopen : rs.state ≠ .closed) (hsettled : rs.Settled) :
    Rounded limit sid (rs.whole limit sid bytes alone) l.conn.events (l.readAll sid rounds) := by
  induction hbrings generalizing rs l with
  | @last a data hread =>
    have hround := rounded_readRequestStream h hopen hread
    cases data with
    | nil =>
      rw [RequestStream.round_nil_eq_whole hsettled] at hround
      exact hround
    | cons b data => exact hround
  | @cons a rounds data bytes alone hread hrounds ih =>
    have hround := rounded_readRequestStream h hopen hread
    rw [← RequestStream.round_andThen_whole data hrounds.ne_nil_or]
    refine hround.andThen (fun rs' hrs' => ?_) fun hfailed => failed_readAll hfailed rounds
    obtain ⟨hsettled', hopen'⟩ := RequestStream.settled_round hopen hrs'
    exact ih (hround.ok rs' hrs') hopen' hsettled'

/-- What the rounds have told, and whether the connection has failed. -/
theorem told_readAll (hbrings : Brings rounds bytes alone) (h : Tracks limit sid rs l)
    (hopen : rs.state ≠ .closed) (hsettled : rs.Settled) :
    l.told sid rounds = (rs.whole limit sid bytes alone).events ∧
      ((l.readAll sid rounds).quic.closed = false ↔
        ∃ rs', (rs.whole limit sid bytes alone).result = .ok rs') := by
  have hall := rounded_readAll hbrings h hopen hsettled
  constructor
  · rw [told, hall.events, drop_left]
  · rcases hresult : (rs.whole limit sid bytes alone).result with e | rs'
    · rw [(hall.failed e hresult).stopped]
      exact ⟨nofun, fun ⟨_, h⟩ => nomatch h⟩
    · exact ⟨fun _ => ⟨rs', rfl⟩, fun _ => (hall.ok rs' hresult).running⟩

end Link

/-! ## Consecutive DATA -/

/-- An event before others; DATA before DATA of the same stream is put together with it. -/
def glue : H3Event → List H3Event → List H3Event
  | .data s₁ d₁ e₁, .data s₂ d₂ e₂ :: rest =>
    if s₁ = s₂ then .data s₁ (d₁ ++ d₂) (e₁ || e₂) :: rest
    else .data s₁ d₁ e₁ :: .data s₂ d₂ e₂ :: rest
  | ev, rest => ev :: rest

theorem glue_data (sid : Nat) (d₁ d₂ : List UInt8) (e₁ e₂ : Bool) (rest : List H3Event) :
    glue (.data sid d₁ e₁) (.data sid d₂ e₂ :: rest) = .data sid (d₁ ++ d₂) (e₁ || e₂) :: rest :=
  if_pos rfl

/-- Events, with consecutive payloads of a stream put together. -/
def mergeData (events : List H3Event) : List H3Event := events.foldr glue []

theorem mergeData_append_congr (events : List H3Event) {xs ys : List H3Event}
    (h : mergeData xs = mergeData ys) : mergeData (events ++ xs) = mergeData (events ++ ys) := by
  rw [mergeData, mergeData, foldr_append, foldr_append]
  exact congrArg (foldr glue · events) h

/-- Something that can be said of DATA as well when it has been put together. -/
def Additive (p : H3Event → Bool) : Prop :=
  ∀ sid d₁ d₂ e₁ e₂,
    p (.data sid (d₁ ++ d₂) (e₁ || e₂)) = (p (.data sid d₁ e₁) || p (.data sid d₂ e₂))

theorem any_glue {p : H3Event → Bool} (hp : Additive p) (ev : H3Event) (rest : List H3Event) :
    (glue ev rest).any p = (p ev || rest.any p) := by
  fun_cases glue ev rest with
  | case1 s d₁ e₁ d₂ e₂ rest => rw [any_cons, any_cons, hp, Bool.or_assoc]
  | case2 s₁ d₁ e₁ s₂ d₂ e₂ rest hne => rfl
  | case3 ev rest hne => rfl

theorem any_mergeData {p : H3Event → Bool} (hp : Additive p) (events : List H3Event) :
    (mergeData events).any p = events.any p := by
  induction events with
  | nil => rfl
  | cons ev events ih =>
    have hfold : mergeData (ev :: events) = glue ev (mergeData events) := rfl
    rw [hfold, any_glue hp, ih, any_cons]

/-! ## The last frame -/

/-- The first header section, at the end of the stream. -/
def H3Event.headAtEnd : H3Event → Bool
  | .request _ _ atEnd | .response _ _ atEnd => atEnd
  | _ => false

/-- The error for a frame that should not be there. -/
def H3Event.unexpected : H3Event → Bool
  | .error .frameUnexpected => true
  | _ => false

/-- No check of a header section fails as a frame that should not be there. -/
theorem checkHeaders_ne_frameUnexpected {limit : Nat} {kind : HeaderKind} {encoded : List UInt8} :
    checkHeaders limit kind encoded ≠ .error .frameUnexpected := by
  rw [checkHeaders]
  split
  · nofun
  · rcases hdecode : Qpack.decode encoded with e | headers
    · rw [Qpack.failsPlainly_decode encoded e hdecode]
      nofun
    · dsimp only
      split
      · nofun
      · have hvalidate : validateHeaders kind headers ≠ .error .frameUnexpected := by
          rw [validateHeaders]
          split
          · nofun
          · split
            · nofun
            · nofun
        rcases hvalid : validateHeaders kind headers with e | _
        · rw [hvalid] at hvalidate
          exact fun h => hvalidate (congrArg Except.error (Except.error.inj h))
        · nofun

namespace RequestStream

variable {limit sid : Nat} {rs : RequestStream}

variable {frame : Frame}

/-- The last frame, with the end of the stream or before it. -/
def lastTold (limit sid : Nat) (rs : RequestStream) (frame : Frame) (alone : Bool) : Told :=
  (rs.takeOne limit sid frame !alone).andThen (settle sid · none [] true)

theorem lastTold_of_error {e : H3Error}
    (h : rs.take limit sid frame (!alone) = .error e) :
    rs.lastTold limit sid frame alone = ⟨[.error e], .error e⟩ := by
  rw [lastTold, takeOne, h]
  rfl

theorem lastTold_of_ok {taken : RequestStream × List H3Event}
    (h : rs.take limit sid frame (!alone) = .ok taken) :
    rs.lastTold limit sid frame alone = ⟨taken.2 ++ taken.1.finEvents sid,
      .ok { taken.1 with state := taken.1.state.closeRemote, recvBuf := [] }⟩ := by
  rw [lastTold, takeOne, h]
  rfl

/-- A stream without frames that are left, and its last frame. -/
theorem whole_of_last {init : List Frame} {last : Frame}
    (h : frames.drain (rs.recvBuf ++ bytes) = ⟨init ++ [last], none, []⟩) (alone : Bool) :
    rs.whole limit sid bytes alone =
      (takeAll limit sid { rs with recvBuf := [] } init false).andThen
        (lastTold limit sid · last alone) := by
  rw [whole, h]
  rw [takeAll_append (.inl (cons_ne_nil last [])), Told.andThen_assoc]
  refine Told.andThen_congr fun rs' _ => ?_
  rw [takeAll, Told.andThen_assoc, isEmpty_nil, isEmpty_nil, Bool.and_true, Bool.and_true,
    lastTold]
  refine Told.andThen_congr fun rs'' _ => ?_
  rw [takeAll, Told.andThen_ok]

/-- Where there is no last frame, the end of the stream may come when it wants. -/
theorem whole_of_no_last (limit sid : Nat)
    (h : ∀ init last, frames.drain (rs.recvBuf ++ bytes) ≠ ⟨init ++ [last], none, []⟩) :
    rs.whole limit sid bytes true = rs.whole limit sid bytes false := by
  rw [whole, whole]
  generalize hd : frames.drain (rs.recvBuf ++ bytes) = d at h
  by_cases hrest : d.rest = []
  · rcases eq_nil_or_concat d.items with hitems | ⟨init, last, hitems⟩
    · rw [hitems]
      rfl
    · rcases herror : d.error with _ | e
      · exact absurd (Drained.ext (hitems.trans concat_eq_append) herror hrest) (h init last)
      · rw [← hd] at herror hrest
        exact absurd hrest (rest_ne_nil_of_error herror)
  · rw [isEmpty_eq_false_iff.mpr hrest, Bool.and_false, Bool.and_false]

/-- The frame makes a difference if it is known to be the last one: trailers are refused otherwise, the
first header section says so, and so does DATA, for which nothing makes up later unless our side is
open as well. -/
def Sensitive (limit : Nat) (rs : RequestStream) : Frame → Prop
  | .headers encoded =>
    rs.trailersReceived = false ∧ (rs.initialHeadersReceived = false →
      ∃ headers, checkHeaders limit rs.headerKind encoded = .ok headers)
  | .data _ =>
    rs.trailersReceived = false ∧ rs.initialHeadersReceived = true ∧ rs.state ≠ .open
  | .settings _ | .goAway _ | .unknown _ _ => False

/-- It matters whether the end of the stream comes with the last bytes: there is a last frame, and it
makes a difference. -/
def EndMatters (limit sid : Nat) (rs : RequestStream) (bytes : List UInt8) : Prop :=
  ∃ init last rs', frames.drain (rs.recvBuf ++ bytes) = ⟨init ++ [last], none, []⟩ ∧
    (takeAll limit sid { rs with recvBuf := [] } init false).result = .ok rs' ∧
      rs'.Sensitive limit last

theorem any_finEvents {p : H3Event → Bool} (hp : p (.data sid [] true) = false) :
    (rs.finEvents sid).any p = false := by
  rw [finEvents]
  split
  · rw [any_cons, hp]
    rfl
  · rfl

theorem finEvents_of_not_open (h : rs.state ≠ .open) : rs.finEvents sid = [] := if_neg h

theorem closeRemote_ne_open (s : StreamState) : s.closeRemote ≠ .open := by
  cases s <;> exact nofun


/-- What tells the two cases apart. -/
theorem lastTold_of_sensitive (sid : Nat) (h : rs.Sensitive limit frame) :
    ∃ p, Additive p ∧ (∀ ev : H3Event, ev.terminal = false → p ev = false) ∧
      (rs.lastTold limit sid frame true).events.any p ≠
        (rs.lastTold limit sid frame false).events.any p := by
  cases frame with
  | headers encoded =>
    obtain ⟨htrailers, hcheck⟩ := h
    rcases hinitial : rs.initialHeadersReceived with _ | _
    · -- the first header section
      obtain ⟨headers, hcheck⟩ := hcheck hinitial
      have htake : ∀ atEnd, rs.take limit sid (.headers encoded) atEnd =
          .ok (rs.begun atEnd, [rs.headEvent sid headers atEnd]) := by
        intro atEnd
        rw [take, if_neg (by rw [htrailers]; exact Bool.false_ne_true),
          if_neg (fun h => Bool.false_ne_true (hinitial.symm.trans h.1)), hcheck]
        dsimp only
        rw [if_neg (by rw [hinitial]; exact Bool.false_ne_true)]
      refine ⟨H3Event.headAtEnd, fun _ _ _ _ _ => rfl, fun ev hev => ?_, ?_⟩
      · cases ev with
        | request | response => exact hev
        | trailers | data | goAway | streamReset | zeroRttRejected | error => rfl
      · rw [lastTold_of_ok (htake _), lastTold_of_ok (htake _), any_append, any_append,
          any_finEvents rfl, any_finEvents rfl, headEvent, headEvent]
        cases rs.clientInitiated <;> rintro ⟨⟩
    · -- trailers
      have hlate : rs.take limit sid (.headers encoded) false = .error .frameUnexpected := by
        rw [take, if_neg (by rw [htrailers]; exact Bool.false_ne_true), if_pos ⟨hinitial, rfl⟩]
      refine ⟨H3Event.unexpected, fun _ _ _ _ _ => rfl, fun ev hev => ?_, ?_⟩
      · cases ev with
        | error e => cases hev
        | request | response | trailers | data | goAway | streamReset | zeroRttRejected => rfl
      · rw [lastTold_of_error hlate]
        rcases hcheck : checkHeaders limit rs.headerKind encoded with e | headers
        · have htake : rs.take limit sid (.headers encoded) true = .error e := by
            rw [take, if_neg (by rw [htrailers]; exact Bool.false_ne_true),
              if_neg (fun h => by cases h.2), hcheck]
          rw [lastTold_of_error htake]
          have hne : e ≠ .frameUnexpected := by
            rintro rfl
            exact checkHeaders_ne_frameUnexpected hcheck
          cases e <;> first | exact absurd rfl hne | rintro ⟨⟩
        · have htake : rs.take limit sid (.headers encoded) true =
              .ok ({ rs with trailersReceived := true, state := rs.state.closeRemote },
                [.trailers sid headers]) := by
            rw [take, if_neg (by rw [htrailers]; exact Bool.false_ne_true),
              if_neg (fun h => by cases h.2), hcheck]
            exact if_pos hinitial
          rw [lastTold_of_ok htake, finEvents_of_not_open (closeRemote_ne_open _)]
          rintro ⟨⟩
  | data payload =>
    obtain ⟨htrailers, hinitial, hstate⟩ := h
    have htake : ∀ atEnd, rs.take limit sid (.data payload) atEnd =
        .ok ({ rs with state := if atEnd then rs.state.closeRemote else rs.state },
          [.data sid payload atEnd]) := by
      intro atEnd
      rw [take, if_neg]
      rw [hinitial, htrailers]
      simp
    refine ⟨H3Event.terminal, fun _ _ _ _ _ => rfl, fun _ hev => hev, ?_⟩
    rw [lastTold_of_ok (htake _), lastTold_of_ok (htake _), finEvents_of_not_open,
      finEvents_of_not_open]
    · rintro ⟨⟩
    · exact closeRemote_ne_open _
    · exact hstate
  | settings s => exact h.elim
  | goAway id => exact h.elim
  | unknown t payload => exact h.elim

/-- Where there is nothing to tell them apart, they are the same but for DATA that is cut. -/
theorem lastTold_of_not_sensitive (sid : Nat) (h : ¬ rs.Sensitive limit frame) :
    mergeData (rs.lastTold limit sid frame true).events =
        mergeData (rs.lastTold limit sid frame false).events ∧
      (rs.lastTold limit sid frame true).result = (rs.lastTold limit sid frame false).result := by
  -- mostly the frame is taken in the same way
  have hsame : rs.take limit sid frame false = rs.take limit sid frame true →
      mergeData (rs.lastTold limit sid frame true).events =
          mergeData (rs.lastTold limit sid frame false).events ∧
        (rs.lastTold limit sid frame true).result = (rs.lastTold limit sid frame false).result := by
    intro htake
    have hlast : rs.lastTold limit sid frame true = rs.lastTold limit sid frame false := by
      rw [lastTold, lastTold, takeOne, takeOne, Bool.not_true, Bool.not_false, htake]
    rw [hlast]
    exact ⟨rfl, rfl⟩
  cases frame with
  | headers encoded =>
    apply hsame
    rw [take, take]
    by_cases htrailers : rs.trailersReceived = true
    · rw [if_pos htrailers, if_pos htrailers]
    · have hfirst : rs.initialHeadersReceived = false ∧
          ∀ headers, checkHeaders limit rs.headerKind encoded ≠ .ok headers := by
        rcases hinitial : rs.initialHeadersReceived with _ | _
        · refine ⟨rfl, fun headers hcheck => h ⟨Bool.eq_false_iff.mpr htrailers, fun _ => ?_⟩⟩
          exact ⟨headers, hcheck⟩
        · refine absurd ⟨Bool.eq_false_iff.mpr htrailers, fun hnot => ?_⟩ h
          rw [hinitial] at hnot
          cases hnot
      obtain ⟨hinitial, hcheck⟩ := hfirst
      have hnot : ∀ atEnd : Bool, ¬ (rs.initialHeadersReceived = true ∧ atEnd = false) :=
        fun _ h => Bool.false_ne_true (hinitial.symm.trans h.1)
      rw [if_neg htrailers, if_neg htrailers, if_neg (hnot _), if_neg (hnot _)]
      rcases hresult : checkHeaders limit rs.headerKind encoded with e | headers
      · rfl
      · exact absurd hresult (hcheck headers)
  | data payload =>
    by_cases hrefused : rs.initialHeadersReceived = false ∨ rs.trailersReceived = true
    · apply hsame
      rw [take, take, if_pos hrefused, if_pos hrefused]
    · obtain ⟨hinitial, htrailers⟩ := not_or.mp hrefused
      have hstate : rs.state = .open := by
        by_contra hstate
        exact h ⟨Bool.eq_false_iff.mpr htrailers, Bool.eq_true_of_not_eq_false hinitial, hstate⟩
      have htake : ∀ atEnd, rs.take limit sid (.data payload) atEnd =
          .ok ({ rs with state := if atEnd then rs.state.closeRemote else rs.state },
            [.data sid payload atEnd]) := by
        intro atEnd
        rw [take, if_neg hrefused]
      have hcut : mergeData [.data sid payload false, .data sid [] true] =
          mergeData [.data sid payload true] := by
        refine (glue_data sid payload [] false true []).trans ?_
        rw [append_nil]
        rfl
      rw [lastTold_of_ok (htake _), lastTold_of_ok (htake _)]
      rw [hstate]
      exact ⟨hcut, rfl⟩
  | settings s => exact hsame rfl
  | goAway id => exact hsame rfl
  | unknown t payload => exact hsame rfl

/-- **The end may come alone or not, unless it matters.** -/
theorem whole_agree_iff (bytes : List UInt8) :
    (mergeData (rs.whole limit sid bytes true).events =
        mergeData (rs.whole limit sid bytes false).events ∧
      ((∃ rs', (rs.whole limit sid bytes true).result = .ok rs') ↔
        ∃ rs', (rs.whole limit sid bytes false).result = .ok rs')) ↔
      ¬ rs.EndMatters limit sid bytes := by
  by_cases hlast : ∃ init last, frames.drain (rs.recvBuf ++ bytes) = ⟨init ++ [last], none, []⟩
  · obtain ⟨init, last, hd⟩ := hlast
    rw [whole_of_last hd, whole_of_last hd]
    rcases hresult : (takeAll limit sid { rs with recvBuf := [] } init false).result with e | rs'
    · rw [Told.andThen_of_error hresult, Told.andThen_of_error hresult]
      refine ⟨fun _ => ?_, fun _ => ⟨rfl, Iff.rfl⟩⟩
      rintro ⟨init', last', rs', hd', hresult', -⟩
      obtain ⟨rfl, -⟩ := append_inj' (congrArg Drained.items (hd.symm.trans hd')) rfl
      rw [hresult] at hresult'
      cases hresult'
    · have hmatters : rs.EndMatters limit sid bytes ↔ rs'.Sensitive limit last := by
        constructor
        · rintro ⟨init', last', rs'', hd', hresult', hsensitive⟩
          obtain ⟨rfl, hlast⟩ := append_inj' (congrArg Drained.items (hd.symm.trans hd')) rfl
          obtain rfl := singleton_inj.mp hlast
          rw [hresult] at hresult'
          rw [Except.ok.inj hresult']
          exact hsensitive
        · exact fun hsensitive => ⟨init, last, rs', hd, hresult, hsensitive⟩
      rw [hmatters, Told.events_andThen_of_ok hresult, Told.events_andThen_of_ok hresult,
        Told.result_andThen_of_ok hresult, Told.result_andThen_of_ok hresult]
      constructor
      · rintro ⟨hevents, -⟩ hsensitive
        obtain ⟨p, hp, hunended, hne⟩ := lastTold_of_sensitive sid hsensitive
        have hany : any _ p = any _ p := congrArg (any · p) hevents
        have hbefore : (takeAll limit sid { rs with recvBuf := [] } init false).events.any p = false :=
          any_eq_false.mpr fun ev hev =>
            Bool.eq_false_iff.mp (hunended ev ((takeAll_keeps hresult).2.2 rfl ev hev))
        rw [any_mergeData hp, any_mergeData hp, any_append, any_append, hbefore] at hany
        exact hne hany
      · intro hnot
        obtain ⟨hevents, hsame⟩ := lastTold_of_not_sensitive sid hnot
        exact ⟨mergeData_append_congr _ hevents, by rw [hsame]⟩
  · have hnone := whole_of_no_last limit sid fun init last hd =>
      hlast ⟨init, last, hd⟩
    rw [hnone]
    refine ⟨fun _ => ?_, fun _ => ⟨rfl, Iff.rfl⟩⟩
    rintro ⟨init, last, -, hd, -⟩
    exact hlast ⟨init, last, hd⟩

end RequestStream

namespace Link

/-- **When the cuts do not matter.**  Two ways of cutting a stream into reads give the same events, with
consecutive payloads put together, and the same outcome, if and only if the end of the stream comes
alone in both or in neither, or it does not matter. -/
theorem cuts_agree_iff {limit sid : Nat} {rs : RequestStream} {l : Link} (h : Tracks limit sid rs l)
    (hopen : rs.state ≠ .closed) (hsettled : rs.Settled) {bytes : List UInt8}
    {rounds₁ rounds₂ : List Answers} {alone₁ alone₂ : Bool} (h₁ : Brings rounds₁ bytes alone₁)
    (h₂ : Brings rounds₂ bytes alone₂) :
    (mergeData (l.told sid rounds₁) = mergeData (l.told sid rounds₂) ∧
      ((l.readAll sid rounds₁).quic.closed = false ↔ (l.readAll sid rounds₂).quic.closed = false)) ↔
      alone₁ = alone₂ ∨ ¬ rs.EndMatters limit sid bytes := by
  obtain ⟨htold₁, hclosed₁⟩ := told_readAll h₁ h hopen hsettled
  obtain ⟨htold₂, hclosed₂⟩ := told_readAll h₂ h hopen hsettled
  rw [htold₁, htold₂, hclosed₁, hclosed₂, ← RequestStream.whole_agree_iff]
  by_cases heq : alone₁ = alone₂
  · rw [heq]
    exact ⟨fun _ => .inl rfl, fun _ => ⟨rfl, Iff.rfl⟩⟩
  · rw [or_iff_right heq]
    cases alone₁ with
    | true =>
      obtain rfl := (Bool.eq_false_of_not_eq_true fun h => heq h.symm : alone₂ = false)
      exact Iff.rfl
    | false =>
      obtain rfl := (Bool.eq_true_of_not_eq_false fun h => heq h.symm : alone₂ = true)
      rw [iff_comm (a := ∃ rs', _), eq_comm]

/-- A connection of a client that has sent a request on stream 0. -/
def asked : Link :=
  (((⟨.new {}, ⟨false, []⟩⟩ : Link).handleQuicEvent { opened := .ok (some 2) }
    (.connected 0)).1.sendRequest { opened := .ok (some 0) } [] true).1

theorem tracks_asked :
    Tracks (256 * 1024) 0 ⟨.halfClosedLocal, [], true, false, false⟩ asked :=
  ⟨by decide +kernel, by decide +kernel, by decide +kernel, by decide +kernel, by decide +kernel⟩

/-- HEADERS with `:status: 200`, and trailers with `content-length: 0`. -/
def answerWithTrailers : List UInt8 :=
  [0x01, 0x03, 0x00, 0x00, 0xd9, 0x01, 0x03, 0x00, 0x00, 0xc4]

/-- A single round. -/
def atOnce (bytes : List UInt8) : List Answers := [{ reads := [.ok (bytes, true)] }]

/-- Two rounds, with the end of the stream in the second one. -/
def inTwo (first second : List UInt8) : List Answers :=
  [{ reads := [.ok (first, false)] }, { reads := [.ok (second, true)] }]

theorem brings_atOnce (bytes : List UInt8) : Brings (atOnce bytes) bytes bytes.isEmpty := by
  refine .last ?_
  rw [readLoop, if_neg Bool.false_ne_true]
  rw [if_pos (.inr rfl)]

theorem brings_inTwo (first : List UInt8) (hne : first ≠ []) (second : List UInt8) :
    Brings (inTwo first second) (first ++ second) second.isEmpty := by
  refine .cons ?_ (brings_atOnce second)
  rw [readLoop, if_neg Bool.false_ne_true]
  dsimp only
  rw [if_neg (not_or.mpr ⟨hne, Bool.false_ne_true⟩), readLoop, append_nil]

/-- The trailers of a response are told, and they are refused if the end of the stream comes after
them. -/
theorem late_end_refuses_trailers :
    asked.told 0 (atOnce answerWithTrailers) =
        [.response 0 [⟨bytesOf ":status", bytesOf "200"⟩] false,
          .trailers 0 [⟨bytesOf "content-length", bytesOf "0"⟩]] ∧
      asked.told 0 (inTwo answerWithTrailers []) =
        [.response 0 [⟨bytesOf ":status", bytesOf "200"⟩] false, .error .frameUnexpected] ∧
      mergeData (asked.told 0 (atOnce answerWithTrailers)) ≠
        mergeData (asked.told 0 (inTwo answerWithTrailers [])) := by
  refine ⟨?_, ?_, ?_⟩ <;> decide +kernel

/-- A response that is cut in the middle of its header section. -/
theorem cuts_agree_iff_inTwo :
    mergeData (asked.told 0 (inTwo (answerWithTrailers.take 3) (answerWithTrailers.drop 3))) =
      mergeData (asked.told 0 (atOnce answerWithTrailers)) :=
  ((cuts_agree_iff tracks_asked nofun rfl
    (brings_inTwo (answerWithTrailers.take 3) nofun (answerWithTrailers.drop 3))
    (brings_atOnce answerWithTrailers)).mpr (.inl rfl)).1

end Link
end Ringline.H3
