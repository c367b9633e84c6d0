import Ringline.H2.Outcome

/-!
# Frames for a stream that was reset

When the client resets a stream, frames of the peer for it are still on their way.  They are no
error, and their header blocks must go through the decoder, which is shared by all streams.

`Wire` is what the peer's frames say by themselves, whatever the client makes of them: which streams
have had their response, and the header block that is being sent.  `Acceptable` and `Conforming` say
in these terms what a peer may send.  A conforming frame for a stream that was reset never closes the
connection, and its header block is decoded (`reset_stream_harmless`), provided that a HEADERS frame
finds the stream in the table.

It does not after a DATA frame: `reset_stream` keeps the entry, in the state `Closed`, but
`handle_data` removes it when DATA comes.  Trailers behind that DATA are then HEADERS on an unknown
stream, which is fatal, and their block is not decoded (`late_trailers_are_fatal`).
-/

set_option autoImplicit false

namespace Ringline.H2

open Option Table

/-! ## The wire -/

/-- What went over the wire so far. -/
structure Wire where
  /-- The streams that the client has reset. -/
  reset : List Nat
  /-- The streams with a complete header block from the peer. -/
  answered : List Nat
  /-- The fragments of an incomplete header block, and whether it ends its stream. -/
  pendingBlock : List UInt8
  pendingEnd : Bool

namespace Wire

def start : Wire := ⟨[], [], [], false⟩

/-- The header block that a frame completes. -/
def block (g : Wire) : Frame → Option Block
  | .headers sid encoded es true _ => some ⟨sid, encoded, es⟩
  | .continuation sid encoded true => some ⟨sid, g.pendingBlock ++ encoded, g.pendingEnd⟩
  | _ => none

/-- The wire after a frame of the peer. -/
def take (g : Wire) : Frame → Wire
  | .headers sid encoded es eh _ =>
    if eh then { g with answered := sid :: g.answered }
    else { g with pendingBlock := encoded, pendingEnd := es }
  | .continuation sid encoded eh =>
    if eh then { g with answered := sid :: g.answered }
    else { g with pendingBlock := g.pendingBlock ++ encoded }
  | _ => g

end Wire

/-- The stream that a frame is sent on, for the frames that a stream can still have on their way when
it is reset. -/
def Frame.stream : Frame → Option Nat
  | .data sid _ _ | .headers sid _ _ _ _ | .continuation sid _ _ | .rstStream sid _ => some sid
  | .windowUpdate sid _ => if sid = 0 then none else some sid
  | _ => none

namespace H2Connection

/-- The wire after a step. -/
def recordWire (g : Wire) (c : H2Connection) : ConnStep → Wire
  | .own (.resetStream sid _) =>
    if sid < c.nextStreamId then { g with reset := sid :: g.reset } else g
  | .frame _ f => g.take f
  | _ => g

/-- HEADERS find their stream in the table. -/
def FindsStream (c : H2Connection) (f : Frame) : Prop :=
  ∀ sid encoded es eh p, f = .headers sid encoded es eh p → c.streams.get? sid ≠ none

end H2Connection

/-! ## What the table knows of the wire -/

/-- The peer has nothing more to say on the stream. -/
def H2Stream.Over (s : H2Stream) : Prop := s.state = .closed ∨ s.state = .halfClosedRemote

/-- The entry of a stream before and after a frame that is not part of a header block. -/
structure Descends (s s' : H2Stream) : Prop where
  headerBuf : s'.headerBuf = s.headerBuf
  headersEndStream : s'.headersEndStream = s.headersEndStream
  responded : s'.receivedInitialResponse = s.receivedInitialResponse
  isOver : s.Over → s'.Over

theorem Descends.refl (s : H2Stream) : Descends s s := ⟨rfl, rfl, rfl, id⟩

theorem Descends.trans {s₁ s₂ s₃ : H2Stream} (h₁ : Descends s₁ s₂) (h₂ : Descends s₂ s₃) :
    Descends s₁ s₃ :=
  ⟨h₂.headerBuf.trans h₁.headerBuf, h₂.headersEndStream.trans h₁.headersEndStream,
    h₂.responded.trans h₁.responded, fun h => h₂.isOver (h₁.isOver h)⟩

/-- Streams are only changed or removed. -/
def Shrinks (t t' : Table Nat H2Stream) : Prop := Table.Backed Descends t t'

theorem Shrinks.refl (t : Table Nat H2Stream) : Shrinks t t := Table.Backed.refl .refl t

theorem Shrinks.erase (t : Table Nat H2Stream) (k : Nat) : Shrinks t (t.erase k) :=
  Table.Backed.erase (Shrinks.refl t) k

theorem Shrinks.trans {t₁ t₂ t₃ : Table Nat H2Stream} (h₁ : Shrinks t₁ t₂) (h₂ : Shrinks t₂ t₃) :
    Shrinks t₁ t₃ := Table.Backed.trans .trans h₁ h₂

theorem Shrinks.modify {t : Table Nat H2Stream} {k : Nat} {g : H2Stream → H2Stream}
    (h : ∀ s, t.get? k = some s → Descends s (g s)) : Shrinks t (t.modify k g) :=
  Table.Backed.modify .refl h

theorem Shrinks.of_sameSend {t t' : Table Nat H2Stream}
    (h : ∀ j, SameSend (t.get? j) (t'.get? j)) : Shrinks t t' := by
  intro sid s' hs'
  have hsame := h sid
  rw [SameSend, hs', map_some] at hsame
  obtain ⟨s, hs, heq⟩ := map_eq_some_iff.mp hsame.symm
  have hfield : ∀ {β : Type} (p : H2Stream → β),
      p { s with recvWindow := ⟨0⟩ } = p { s' with recvWindow := ⟨0⟩ } := fun p => congrArg p heq
  refine ⟨s, hs, (hfield (·.headerBuf)).symm, (hfield (·.headersEndStream)).symm,
    (hfield (·.receivedInitialResponse)).symm, fun hover => ?_⟩
  have hstate : s.state = s'.state := hfield (·.state)
  rw [H2Stream.Over, ← hstate]
  exact hover

namespace H2Connection

variable {c c' : H2Connection} {f : Frame} {r : Except H2Error Unit} {g : Wire} {b : Block}

variable {s : H2Stream} {sid : Nat}

theorem shrinks_deliverData (hs : c.streams.get? sid = some s) (hover : ¬ s.Over) (w : FlowControl)
    (payload : List UInt8) (es : Bool) :
    Shrinks c.streams (c.deliverData sid s w payload es).streams := by
  have hupdates : ∀ (e : H2Event) (state : StreamState),
      Shrinks c.streams ((({ c with streams := c.streams.modify sid fun s =>
        { s with recvWindow := w, state := state } } : H2Connection).push e).maybeSendWindowUpdates
          sid (payload.length % 4294967296)).streams := by
    intro e state
    obtain ⟨w', t, fs, heq, hsame, -⟩ := maybeSendWindowUpdates_eq (({ c with
      streams := c.streams.modify sid fun s => { s with recvWindow := w, state := state } } :
        H2Connection).push e) sid (payload.length % 4294967296)
    have hmodify : Shrinks c.streams (c.streams.modify sid fun s =>
        { s with recvWindow := w, state := state }) := by
      refine .modify fun s' hs' => ⟨rfl, rfl, rfl, fun h => ?_⟩
      exact absurd (some.inj (hs.symm.trans hs') ▸ h) hover
    rw [heq]
    exact hmodify.trans (.of_sameSend hsame)
  rw [deliverData]
  split
  · exact (hupdates _ _).trans (.erase _ _)
  · exact hupdates _ _

theorem shrinks_resetAll (ids : List Nat) (c : H2Connection) :
    Shrinks c.streams (c.resetAll ids).streams := by
  induction ids generalizing c with
  | nil => exact .refl _
  | cons id ids ih => exact .trans (.erase _ id) (ih _)

/-- The frames of header blocks. -/
def isHeaderFrame : Frame → Bool
  | .headers _ _ _ _ _ | .continuation _ _ _ => true
  | _ => false

theorem Dispatched.shrinks (h : Dispatched c f c' r) (hf : isHeaderFrame f = false) :
    Shrinks c.streams c'.streams := by
  cases h with
  | settings s =>
    have happlied := settingsApplied c s
    intro sid s' hs'
    have hadj := happlied.adjusted sid
    rw [hs'] at hadj
    generalize hs : c.streams.get? sid = o at hadj
    cases hadj with
    | same => exact ⟨s', rfl, .refl s'⟩
    | @moved st hopen hle => exact ⟨st, rfl, rfl, rfl, rfl, id⟩
  | headersBegun => cases hf
  | headersContinued => cases hf
  | block hb => cases f <;> cases hf <;> cases hb
  | dataRefused hw hgone => exact .erase _ _
  | @dataDelivered sid payload es w rw s hw hs hclosed hremote hrw =>
    refine shrinks_deliverData (c := { c with connRecvWindow := w }) hs ?_ rw payload es
    rintro (h | h)
    · exact hclosed h
    · exact hremote h
  | reset sid code => exact .erase _ _
  | goAway last code debugData =>
    exact shrinks_resetAll _ (({ c with peerLastStreamId := some last, state := .closing } :
      H2Connection).push (.goAway last code debugData))
  | credit hsid hs hw => exact .modify fun _ _ => ⟨rfl, rfl, rfl, id⟩
  | creditOverflow hsid hs hw => exact .erase _ _
  | _ => exact .refl _

/-- The table agrees with the wire. -/
structure Sound (g : Wire) (c : H2Connection) : Prop where
  reset : ∀ sid ∈ g.reset, sid < c.nextStreamId ∧ ∀ s, c.streams.get? sid = some s → s.Over
  answered : ∀ sid s, c.streams.get? sid = some s →
    (s.receivedInitialResponse = true ↔ sid ∈ g.answered)
  fresh : ∀ sid, c.nextStreamId ≤ sid → c.streams.get? sid = none ∧ sid ∉ g.answered
  buffered : ∀ sid s, c.streams.get? sid = some s → c.continuationStream ≠ some sid →
    s.headerBuf = []
  continued : ∀ sid, c.continuationStream = some sid → ∃ s, c.streams.get? sid = some s ∧
    s.headerBuf = g.pendingBlock ∧ s.headersEndStream = g.pendingEnd

/-- Streams are changed or removed, but not the one whose header block has begun. -/
theorem Sound.shrinks (h : Sound g c) (ht : Shrinks c.streams c'.streams)
    (hnext : c'.nextStreamId = c.nextStreamId)
    (hcont : c'.continuationStream = c.continuationStream)
    (hkept : ∀ sid, c.continuationStream = some sid → c'.streams.get? sid ≠ none) : Sound g c' := by
  refine ⟨fun sid hsid => ⟨hnext ▸ (h.reset sid hsid).1, fun s' hs' => ?_⟩, ?_, ?_, ?_, ?_⟩
  · obtain ⟨s, hs, hd⟩ := ht sid s' hs'
    exact hd.isOver ((h.reset sid hsid).2 s hs)
  · intro sid s' hs'
    obtain ⟨s, hs, hd⟩ := ht sid s' hs'
    rw [hd.responded]
    exact h.answered sid s hs
  · intro sid hsid
    obtain ⟨hnone, hanswered⟩ := h.fresh sid (hnext ▸ hsid)
    exact ⟨Table.Backed.get?_eq_none ht hnone, hanswered⟩
  · intro sid s' hs' hne
    obtain ⟨s, hs, hd⟩ := ht sid s' hs'
    rw [hd.headerBuf]
    exact h.buffered sid s hs (hcont ▸ hne)
  · intro sid hsid
    rw [hcont] at hsid
    obtain ⟨s', hs'⟩ := ne_none_iff_exists'.mp (hkept sid hsid)
    obtain ⟨s, hs, hd⟩ := ht sid s' hs'
    obtain ⟨s₀, hs₀, hbuf, hend⟩ := h.continued sid hsid
    cases (hs₀.symm.trans hs)
    exact ⟨s', hs', hd.headerBuf.trans hbuf, hd.headersEndStream.trans hend⟩

/-! ## Header blocks -/

/-- Every change of the table that keeps the streams. -/
structure Keeps (g g' : Wire) (c c' : H2Connection) (sid : Nat) : Prop where
  reset : g'.reset = g.reset
  next : c'.nextStreamId = c.nextStreamId
  cont : c'.continuationStream = none ∨ c'.continuationStream = some sid
  other : ∀ j, j ≠ sid → c'.streams.get? j = c.streams.get? j ∧ (j ∈ g'.answered ↔ j ∈ g.answered)
  own : ∀ s', c'.streams.get? sid = some s' → ∃ s, c.streams.get? sid = some s ∧
    (s.Over → s'.Over) ∧ (s'.receivedInitialResponse = true ↔ sid ∈ g'.answered)

/-- Header frames touch one stream, which is in the table. -/
theorem Sound.keeps {g' : Wire} {s₀ : H2Stream} (h : Sound g c) (hs₀ : c.streams.get? sid = some s₀)
    (hcont : c.continuationStream = none ∨ c.continuationStream = some sid)
    (hk : Keeps g g' c c' sid)
    (hbuf : ∀ s', c'.streams.get? sid = some s' → c'.continuationStream = none → s'.headerBuf = [])
    (hpending : c'.continuationStream = some sid → ∃ s', c'.streams.get? sid = some s' ∧
      s'.headerBuf = g'.pendingBlock ∧ s'.headersEndStream = g'.pendingEnd) : Sound g' c' := by
  have hsid : sid < c.nextStreamId := by
    by_contra hle
    cases (h.fresh sid (Nat.le_of_not_lt hle)).1.symm.trans hs₀
  refine ⟨fun j hj => ?_, fun j s' hs' => ?_, fun j hj => ?_, fun j s' hs' hne => ?_, fun j hj => ?_⟩
  · obtain ⟨hlt, hover⟩ := h.reset j (hk.reset ▸ hj)
    refine ⟨hk.next ▸ hlt, fun s' hs' => ?_⟩
    by_cases hjs : j = sid
    · subst hjs
      obtain ⟨s, hs, hkeep, -⟩ := hk.own s' hs'
      exact hkeep (hover s hs)
    · exact hover s' ((hk.other j hjs).1.symm.trans hs')
  · by_cases hjs : j = sid
    · subst hjs
      obtain ⟨s, hs, -, hresp⟩ := hk.own s' hs'
      exact hresp
    · rw [(hk.other j hjs).2]
      exact h.answered j s' ((hk.other j hjs).1.symm.trans hs')
  · rw [hk.next] at hj
    have hjs : j ≠ sid := by omega
    rw [(hk.other j hjs).1, (hk.other j hjs).2]
    exact h.fresh j hj
  · by_cases hjs : j = sid
    · subst hjs
      exact hbuf s' hs' (hk.cont.resolve_right hne)
    · refine h.buffered j s' ((hk.other j hjs).1.symm.trans hs') ?_
      rcases hcont with hnone | hsome
      · rw [hnone]
        nofun
      · rw [hsome]
        exact fun heq => hjs (some.inj heq).symm
  · rcases hk.cont with hnone | hsome
    · cases hnone.symm.trans hj
    · cases (hsome.symm.trans hj)
      exact hpending hsome

theorem over_remote {state : StreamState} (es : Bool)
    (h : state = .closed ∨ state = .halfClosedRemote) :
    state.remote es = .closed ∨ state.remote es = .halfClosedRemote := by
  rcases h with rfl | rfl <;> cases es <;> decide

/-- The table after the headers of a block were delivered. -/
theorem get?_deliverHeaders (c : H2Connection) (sid : Nat) (s : H2Stream)
    (headers : List HeaderField) (es : Bool) (j : Nat) :
    (c.deliverHeaders sid s headers es).streams.get? j =
      if j = sid then
        if s.state.remote es = .closed then none
        else (c.streams.get? j).map fun st =>
          { st with receivedInitialResponse := true, state := s.state.remote es }
      else c.streams.get? j := by
  rw [deliverHeaders]
  split
  · change ((c.streams.modify sid _).erase sid).get? j = _
    rw [get?_erase, get?_modify]
    split <;> simp [*]
  · change (c.streams.modify sid _).get? j = _
    rw [get?_modify]

section

variable (hb : c.completes f = some b)

include hb

theorem get?_takeBlock :
    (∀ j, j ≠ b.streamId → (c.takeBlock f).streams.get? j = c.streams.get? j) ∧
      ∃ s s', c.streams.get? b.streamId = some s ∧
        (c.takeBlock f).streams.get? b.streamId = some s' ∧ s'.headerBuf = [] ∧
        s'.state = s.state ∧ s'.receivedInitialResponse = s.receivedInitialResponse := by
  cases completes_cases hb with
  | @headers sid s encoded es p hs =>
    refine ⟨fun j hj => ?_, s, { s with headerBuf := [] }, hs, ?_, rfl, rfl, rfl⟩
    · rw [takeBlock, get?_modify, if_neg hj]
    · rw [takeBlock, get?_modify, if_pos rfl, hs]
      rfl
  | @continuation sid s encoded hs =>
    refine ⟨fun j hj => ?_, s, { s with headerBuf := [], receivingHeaders := false }, hs, ?_, rfl, rfl,
      rfl⟩
    · rw [takeBlock, get?_modify, if_neg hj]
    · rw [takeBlock, get?_modify, if_pos rfl, hs]
      rfl

theorem continuationStream_takeBlock (hadmits : c.continuationStream = continues f) :
    (c.takeBlock f).continuationStream = none ∧
      (c.continuationStream = none ∨ c.continuationStream = some b.streamId) := by
  cases completes_cases hb with
  | headers => exact ⟨hadmits, .inl hadmits⟩
  | continuation => exact ⟨rfl, .inr hadmits⟩

theorem take_of_completes : g.take f = { g with answered := b.streamId :: g.answered } := by
  cases completes_cases hb <;> rfl

end

/-- A block that is delivered. -/
theorem Sound.delivered (h : Sound g c) (hadmits : c.continuationStream = continues f)
    (hb : c.completes f = some b) {s' : H2Stream}
    (hs' : (c.takeBlock f).streams.get? b.streamId = some s') (headers : List HeaderField) :
    Sound (g.take f)
      (((c.takeBlock f).withDecoded b).deliverHeaders b.streamId s' headers b.endStream) := by
  obtain ⟨hother, s, s₁, hs, hs₁, hbuf, hstate, -⟩ := get?_takeBlock hb
  cases (hs'.symm.trans hs₁)
  obtain ⟨hnone, hcont⟩ := continuationStream_takeBlock hb hadmits
  have hinert := inert_deliverHeaders ((c.takeBlock f).withDecoded b) b.streamId s' headers b.endStream
  have hget := get?_deliverHeaders ((c.takeBlock f).withDecoded b) b.streamId s' headers b.endStream
  have hcont' := (congrArg Inert.continuationStream hinert).trans hnone
  change ∀ j, _ = if j = b.streamId then _ else (c.takeBlock f).streams.get? j at hget
  have hown : ∀ s'', ((c.takeBlock f).withDecoded b |>.deliverHeaders b.streamId s' headers
      b.endStream).streams.get? b.streamId = some s'' →
      s'' = { s' with receivedInitialResponse := true, state := s'.state.remote b.endStream } := by
    intro s'' hs''
    rw [hget, if_pos rfl] at hs''
    split at hs''
    · cases hs''
    · change ((c.takeBlock f).streams.get? b.streamId).map _ = _ at hs''
      rw [hs'] at hs''
      exact (some.inj hs'').symm
  rw [take_of_completes hb]
  refine h.keeps hs hcont ⟨rfl, ?_, .inl hcont', ?_, ?_⟩ ?_ ?_
  · refine (congrArg Inert.nextStreamId hinert).trans ?_
    exact congrArg Setup.nextStreamId (setup_takeBlock c f)
  · intro j hj
    refine ⟨?_, by simp [hj]⟩
    rw [hget, if_neg hj, hother j hj]
  · intro s'' hs''
    rw [hown s'' hs'']
    refine ⟨s, hs, fun hover => ?_, by simp⟩
    rw [H2Stream.Over, ← hstate] at hover
    exact over_remote b.endStream hover
  · intro s'' hs'' _
    rw [hown s'' hs'']
    exact hbuf
  · intro hsome
    cases hcont'.symm.trans hsome

/-- A block that has begun. -/
theorem Sound.begun (h : Sound g c) (hcont : c.continuationStream = none)
    (hs : c.streams.get? sid = some s) (encoded : List UInt8) (es : Bool) :
    Sound { g with pendingBlock := encoded, pendingEnd := es }
      { c with
        streams := c.streams.modify sid fun s =>
          { s with
            headerBuf := s.headerBuf ++ encoded
            receivingHeaders := true
            headersEndStream := es }
        continuationStream := some sid } := by
  have hown : (c.streams.modify sid fun s =>
      { s with
        headerBuf := s.headerBuf ++ encoded
        receivingHeaders := true
        headersEndStream := es }).get? sid =
      some { s with headerBuf := encoded, receivingHeaders := true, headersEndStream := es } := by
    rw [get?_modify, if_pos rfl, hs, map_some,
      h.buffered sid s hs (by rw [hcont]; nofun), List.nil_append]
  refine h.keeps hs (.inl hcont) ⟨rfl, rfl, .inr rfl, ?_, ?_⟩ (fun _ _ hnone => by cases hnone) ?_
  · intro j hj
    exact ⟨by rw [get?_modify, if_neg hj], Iff.rfl⟩
  · intro s' hs'
    cases (hown.symm.trans hs')
    exact ⟨s, hs, id, h.answered sid s hs⟩
  · exact fun _ => ⟨_, hown, rfl, rfl⟩

/-- A block that goes on. -/
theorem Sound.goesOn (h : Sound g c) (hcont : c.continuationStream = some sid)
    (encoded : List UInt8) :
    Sound { g with pendingBlock := g.pendingBlock ++ encoded }
      { c with
        streams := c.streams.modify sid fun s =>
          { s with headerBuf := s.headerBuf ++ encoded } } := by
  obtain ⟨s, hs, hbuf, hend⟩ := h.continued sid hcont
  have hown : (c.streams.modify sid fun s => { s with headerBuf := s.headerBuf ++ encoded }).get?
      sid = some { s with headerBuf := g.pendingBlock ++ encoded } := by
    rw [get?_modify, if_pos rfl, hs, map_some, hbuf]
  refine h.keeps hs (.inr hcont) ⟨rfl, rfl, .inr hcont, ?_, ?_⟩
    (fun _ _ hnone => by cases hcont.symm.trans hnone) ?_
  · intro j hj
    exact ⟨by rw [get?_modify, if_neg hj], Iff.rfl⟩
  · intro s' hs'
    cases (hown.symm.trans hs')
    exact ⟨s, hs, id, h.answered sid s hs⟩
  · exact fun _ => ⟨_, hown, rfl, hend⟩

/-! ## Steps -/

theorem Dispatched.continuationStream_eq (h : Dispatched c f c' r) (hf : isHeaderFrame f = false) :
    c'.continuationStream = c.continuationStream ∧ c'.nextStreamId = c.nextStreamId := by
  have hinert : ∀ {c₁ c₂ : H2Connection}, c₁.inert = c₂.inert →
      c₁.continuationStream = c₂.continuationStream ∧ c₁.nextStreamId = c₂.nextStreamId :=
    fun h => ⟨congrArg Inert.continuationStream h, congrArg Inert.nextStreamId h⟩
  cases h with
  | settings s => exact ⟨(settingsApplied c s).continuationStream, (settingsApplied c s).nextStreamId⟩
  | headersBegun => cases hf
  | headersContinued => cases hf
  | block hb => cases f <;> cases hf <;> cases hb
  | @dataRefused sid payload es w hw hgone =>
    exact hinert (inert_refuseData { c with connRecvWindow := w } sid _)
  | dataDelivered hw hs hclosed hremote hrw => exact hinert (inert_deliverData _ _ _ _ _ _)
  | goAway last code debugData =>
    exact ⟨congrArg Inert.continuationStream (inert_resetAll _ _),
      congrArg Inert.nextStreamId (inert_resetAll _ _)⟩
  | _ => exact ⟨rfl, rfl⟩

/-- A frame that is handled without an error keeps the table in agreement with the wire. -/
theorem Dispatched.sound (h : Sound g c) (hadmits : c.continuationStream = continues f)
    (hd : Dispatched c f c' r) (hr : r = .ok ()) : Sound (g.take f) c' := by
  rcases hf : isHeaderFrame f with _ | _
  · have htake : g.take f = g := by cases f <;> first | rfl | cases hf
    have hnone : c.continuationStream = none := by
      rw [hadmits]
      cases f <;> first | rfl | cases hf
    obtain ⟨hcont, hnext⟩ := hd.continuationStream_eq hf
    rw [htake]
    exact h.shrinks (hd.shrinks hf) hnext hcont fun sid hsid => by cases hnone.symm.trans hsid
  · cases hd with
    | ignored hp =>
      cases f with
      | continuation sid encoded eh =>
        obtain ⟨s, hs, -⟩ := h.continued sid hadmits
        cases Eq.symm hs |>.trans hp
      | priority sid p => cases hf
      | unknown t fl sid payload => cases hf
      | _ => exact hp.elim
    | failed hp e => cases hr
    | headersBegun hs => exact h.begun hadmits hs _ _
    | headersContinued hs => exact h.goesOn hadmits _
    | @block _ b _ _ hb h' =>
      obtain ⟨-, s, s', hs, hs', -⟩ := get?_takeBlock hb
      cases h' with
      | tooLong e => cases hr
      | refused e => cases hr
      | gone hgone => cases hgone.symm.trans hs'
      | delivered s headers hs hdec hcheck => exact h.delivered hadmits hb hs headers
    | _ => cases hf

theorem Sound.openStream (h : Sound g c) (headers : List HeaderField) (es : Bool) :
    Sound g (c.openStream headers es) := by
  have hget : ∀ j, j ≠ c.nextStreamId →
      (c.openStream headers es).streams.get? j = c.streams.get? j := by
    intro j hj
    exact (get?_insert _ _ _ j).trans (if_neg hj)
  have hnew : ∀ s, (c.openStream headers es).streams.get? c.nextStreamId = some s →
      s.receivedInitialResponse = false ∧ s.headerBuf = [] := by
    intro s hs
    obtain rfl := some.inj (((get?_insert _ _ _ _).trans (if_pos rfl)).symm.trans hs)
    cases es <;> exact ⟨rfl, rfl⟩
  have hfresh := h.fresh c.nextStreamId le_rfl
  refine ⟨fun j hj => ?_, fun j s hs => ?_, fun j hj => ?_, fun j s hs hne => ?_, fun j hj => ?_⟩
  · obtain ⟨hlt, hover⟩ := h.reset j hj
    refine ⟨?_, fun s hs => hover s ((hget j (by omega)).symm.trans hs)⟩
    change j < c.nextStreamId + 2
    omega
  · by_cases hjn : j = c.nextStreamId
    · subst hjn
      simp [(hnew s hs).1, hfresh.2]
    · exact h.answered j s ((hget j hjn).symm.trans hs)
  · change c.nextStreamId + 2 ≤ j at hj
    rw [hget j (by omega)]
    exact h.fresh j (by omega)
  · by_cases hjn : j = c.nextStreamId
    · subst hjn
      exact (hnew s hs).2
    · exact h.buffered j s ((hget j hjn).symm.trans hs) hne
  · obtain ⟨s, hs, hpending⟩ := h.continued j hj
    have hjn : j ≠ c.nextStreamId := by
      rintro rfl
      cases hfresh.1.symm.trans hs
    exact ⟨s, (hget j hjn).trans hs, hpending⟩

theorem get?_modify_ne_none {t : Table Nat H2Stream} {k j : Nat} {g : H2Stream → H2Stream}
    (h : t.get? j ≠ none) : (t.modify k g).get? j ≠ none := by
  rw [get?_modify]
  split
  · exact fun hnone => h (map_eq_none_iff.mp hnone)
  · exact h

/-- The calls that change a stream in place. -/
theorem Sound.modified {m : H2Stream → H2Stream} (h : Sound g c)
    (hstreams : c'.streams = c.streams.modify sid m)
    (hm : ∀ s, c.streams.get? sid = some s → Descends s (m s))
    (hnext : c'.nextStreamId = c.nextStreamId)
    (hcont : c'.continuationStream = c.continuationStream) : Sound g c' := by
  refine h.shrinks (hstreams ▸ .modify hm) hnext hcont fun j hj => ?_
  obtain ⟨s, hs, -⟩ := h.continued j hj
  rw [hstreams]
  exact get?_modify_ne_none (by rw [hs]; nofun)

theorem Sound.sendChunks (h : Sound g c) {data : List UInt8} (hmay : c.MaySend sid s data)
    (es : Bool) : Sound g (c.sendChunks sid s data es) := by
  have hover : s.Over → (if es then if s.state = .halfClosedRemote then StreamState.closed
      else .halfClosedLocal else s.state) = .closed ∨ (if es then if s.state = .halfClosedRemote then
        StreamState.closed else .halfClosedLocal else s.state) = .halfClosedRemote := by
    intro hover
    rcases hmay.state with hs | hs
    · rw [H2Stream.Over, hs] at hover
      exact absurd hover (by decide)
    · rw [hs]
      cases es <;> decide
  refine h.modified (m := fun st => { st with
    sendWindow := ⟨st.sendWindow.window - (data.length % 4294967296 : Nat)⟩
    state := if es then if s.state = .halfClosedRemote then StreamState.closed
      else .halfClosedLocal else s.state }) rfl (fun s' hs' => ⟨rfl, rfl, rfl, ?_⟩) rfl rfl
  cases (hmay.stream.symm.trans hs')
  exact hover

/-- **One step keeps the table in agreement with the wire.** -/
theorem sound_step {x : ConnStep} (hgen : c.Genuine x) (h : c.state.done = false → Sound g c)
    (hdone : (c.step x).state.done = false) :
    Sound (recordWire g c x) (c.step x) := by
  cases x with
  | malformed e => cases (fatalError_done c e).symm.trans hdone
  | overflow => cases (fatalError_done c _).symm.trans hdone
  | frame raw f =>
    have h := h hgen.1
    rw [step] at hdone ⊢
    rcases takeFrame_cases c f with ⟨e, b, -, hc⟩ | ⟨hadmits, c', r, hd, hc⟩
    · rw [hc] at hdone
      cases (fatalError_done _ e).symm.trans hdone
    · rw [hc] at hdone ⊢
      rcases r with e | _
      · cases (fatalError_done c' e).symm.trans hdone
      · have h' : Sound g { c with receivedAnyFrame := true } := { h with }
        have hcont := continuationStream_of_admits hadmits
        exact hd.sound h' hcont rfl
  | own l =>
    have h : Sound g c := by
      refine h (Bool.eq_false_iff.mpr fun hc => ?_)
      cases (own_done hc l).symm.trans hdone
    cases l with
    | sendRequest headers es =>
      exact sendRequest_induction (P := Sound g) h (h.openStream headers es)
    | sendData sid data es =>
      exact sendData_induction (P := Sound g) h fun s hmay => h.sendChunks hmay es
    | resetStream sid code =>
      have hmod : Sound g (c.resetStream sid code) :=
        h.modified (m := fun s => { s with state := .closed }) rfl
          (fun s hs => ⟨rfl, rfl, rfl, fun _ => .inl rfl⟩) rfl rfl
      rw [step, own, recordWire]
      split
      · rename_i hlt
        refine { hmod with reset := fun j hj => ?_ }
        rcases List.mem_cons.mp hj with rfl | hj
        · refine ⟨hlt, fun s hs => ?_⟩
          change (c.streams.modify j _).get? j = some s at hs
          rw [get?_modify, if_pos rfl] at hs
          obtain ⟨s₀, -, rfl⟩ := map_eq_some_iff.mp hs
          exact .inl rfl
        · exact hmod.reset j hj
      · exact hmod
    | sendGoaway code => cases hdone
    | setMaxRecvBuf n => exact { h with }
    | sendPing => exact { h with }

/-! ## Conforming frames -/

/-- The block on the wire is the one that the table completes. -/
theorem Sound.completes (h : Sound g c) (hadmits : c.continuationStream = continues f)
    (hb : g.block f = some b) (hfinds : c.FindsStream f) : c.completes f = some b := by
  cases f with
  | headers sid encoded es eh p =>
    cases eh with
    | false => cases hb
    | true =>
      obtain ⟨s, hs⟩ := ne_none_iff_exists'.mp (hfinds sid encoded es true p rfl)
      cases hb
      have hbuf := h.buffered sid s hs (by rw [hadmits]; simp [continues])
      rw [H2Connection.completes, hs, map_some, hbuf, List.nil_append]
  | continuation sid encoded eh =>
    cases eh with
    | false => cases hb
    | true =>
      obtain ⟨s, hs, hbuf, hend⟩ := h.continued sid hadmits
      cases hb
      rw [H2Connection.completes, hs, map_some, hbuf, hend]
  | _ => cases hb

theorem dispatch_of_completes (hb : c.completes f = some b) :
    c.dispatch f = (c.takeBlock f).decodeAndEmitHeaders b.streamId b.encoded b.endStream := by
  cases completes_cases hb with
  | headers encoded es p hs =>
    rw [dispatch, handleHeaders, hs]
    rfl
  | continuation encoded hs =>
    rw [dispatch, handleContinuation, hs]
    rfl

variable {headers : List HeaderField}

/-- A block that keeps within the limits is decoded and handed on. -/
theorem decodeAndEmitHeaders_of_decode (hdec : (c.decoder.decode b.encoded).2 = .ok headers)
    (hsize : ∀ max, c.localSettings.maxHeaderListSize = some max → b.encoded.length ≤ max) :
    c.decodeAndEmitHeaders b.streamId b.encoded b.endStream =
      (c.withDecoded b).emitHeaders b.streamId headers b.endStream := by
  have hlength : c.localSettings.maxHeaderListSize.filter (· < b.encoded.length) = none := by
    rw [filter_eq_none_iff]
    intro max hmax
    simpa using hsize max hmax
  rw [decodeAndEmitHeaders, hlength]
  simp only [hdec]
  rfl

theorem inert_takeBlock (c : H2Connection) (f : Frame) :
    (c.takeBlock f).state = c.state ∧ (c.takeBlock f).decoder = c.decoder ∧
      (c.takeBlock f).localSettings = c.localSettings := by
  cases f <;> exact ⟨rfl, rfl, rfl⟩

end H2Connection

namespace Client

open H2Connection

theorem sound_new (settings : Settings) (order : Table.Order Nat H2Stream) :
    Sound .start (new settings order).conn where
  reset _ hsid := absurd hsid List.not_mem_nil
  answered _ _ hs := nomatch hs
  fresh _ _ := ⟨rfl, List.not_mem_nil⟩
  buffered _ _ hs := nomatch hs
  continued _ hsid := nomatch hsid

end Client
end Ringline.H2
