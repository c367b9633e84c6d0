import Ringline.H2.HpackReference
import Ringline.H2.ResetStreams
import Ringline.H2.SettingsLaw

/-!
# Header compression between the client and its peer

Each direction of a connection has its own dynamic table, which the sender of header blocks keeps and
their receiver follows.  Which sizes it may have is up to the receiver: 4096 until its SETTINGS say
something else.

`Peer` is the other side of the connection, in the terms of `Reference`: the table with which it
reads the blocks of the client and the limit that is in force for it, and the table with which it
writes its own.  `InSync` says that blocks are understood in both directions, and **`peers_in_sync`**
that they are along every run against a conforming peer, if

* the client's own `header_table_size` is at most 4096 — `H2Connection::new` sizes the *encoder* by
  it, although it says how large a table the peer may use, and gives the decoder the constant 4096;
* SETTINGS without HEADER_TABLE_SIZE come only while the limit is at least 4096, which is what they
  are taken for;
* the client does not enable server push, since the header blocks of PUSH_PROMISE are not decoded;
* HEADERS find their stream in the table, and blocks have at most 256 fields and keep within
  MAX_HEADER_LIST_SIZE.

A smaller `header_table_size` is harmless: the encoder's table is then only a beginning of the one
the peer has.  With a larger one, a peer that makes use of it is refused (`larger_table_is_refused`).
-/

set_option autoImplicit false

namespace Ringline.H2

open Reference (Reading applyAll)
open Reference
open List

/-! ## The peer -/

/-- The other side of a connection, as far as header compression is concerned. -/
structure Peer where
  wire : Wire
  /-- The table for the blocks of the client. -/
  reader : Reference.Table
  /-- The limit for that table which the client has acknowledged. -/
  limit : Nat
  /-- The table for the blocks that the peer writes. -/
  writer : Reference.Table

namespace Peer

def start : Peer := ⟨.start, .start, 4096, .start⟩

/-- The header block that a frame of the peer completes. -/
def block (p : Peer) : Frame → Option (List UInt8)
  | .pushPromise _ _ encoded true => some encoded
  | f => (p.wire.block f).map Block.encoded

end Peer

namespace H2Connection

variable {p : Peer} {c c' : H2Connection}

/-- The reader's table after the client's block, if the step sends one. -/
def readerAfter (p : Peer) (c : H2Connection) : ConnStep → Reference.Table
  | .own (.sendRequest headers es) =>
    match (c.sendRequest headers es).2 with
    | .ok _ =>
      ((decode p.limit p.reader (c.encoder.encode headers).2).map Prod.snd).getD p.reader
    | .error _ => p.reader
  | _ => p.reader

/-- The writer's table after the peer's block, if the step completes one. -/
def writerAfter (p : Peer) (c : H2Connection) : ConnStep → Reference.Table
  | .frame _ f =>
    match p.block f with
    | some bs =>
      ((decode c.localSettings.headerTableSize p.writer bs).map Prod.snd).getD p.writer
    | none => p.writer
  | _ => p.writer

/-- The peer after a step.  SETTINGS are in force once the client has handled them, which is when it
acknowledges them. -/
def recordPeer (p : Peer) (c : H2Connection) (x : ConnStep) : Peer where
  wire := recordWire p.wire c x
  reader := readerAfter p c x
  limit := (lastOf 0x1 (c.paramsOf x)).getD p.limit
  writer := writerAfter p c x

/-- What a peer may send: frames where they may come, header blocks that are made of representations
with a meaning for its own table, which is not larger than the client allows, and PUSH_PROMISE only
if the client allows that. -/
structure PeerConforms (p : Peer) (c : H2Connection) (f : Frame) : Prop where
  admitted : c.admits f = .ok ()
  block : ∀ bs, p.block f = some bs → ∃ reps r, Reference.Block reps bs ∧
    applyAll c.localSettings.headerTableSize ⟨p.writer, []⟩ reps = some r
  push : ∀ sid promised encoded eh, f = .pushPromise sid promised encoded eh →
    c.localSettings.enablePush = true

/-- What the client relies on. -/
structure PeerSuits (p : Peer) (c : H2Connection) (raw : List UInt8) (f : Frame) : Prop where
  tableSize : ∀ s, f = .settings false s →
    lastOf 0x1 (Settings.params (raw.drop 9)) = none → 4096 ≤ p.limit
  finds : c.FindsStream f
  size : ∀ bs headers t, p.block f = some bs →
    decode c.localSettings.headerTableSize p.writer bs = some (headers, t) →
    headers.length ≤ maxHeaderFields ∧ ∀ max, c.localSettings.maxHeaderListSize = some max →
      bs.length ≤ max ∧ (headers.map HeaderField.size).sum ≤ max

/-- Header blocks are understood in both directions: what a request sends means its headers to the
peer, and the headers that a block of the peer means are those that the client goes on with. -/
structure InSync (p : Peer) (c : H2Connection) (x : ConnStep) : Prop where
  request : ∀ headers es sid, x = .own (.sendRequest headers es) →
    (c.sendRequest headers es).2 = .ok sid →
    ∃ bs t, (c.step x).sendBuf = c.sendBuf ++ [.headers sid bs es true none] ∧
      decode p.limit p.reader bs = some (headers, t)
  response : ∀ raw f bs reps r, x = .frame raw f → p.block f = some bs → Reference.Block reps bs →
    applyAll c.localSettings.headerTableSize ⟨p.writer, []⟩ reps = some r →
    ∃ b, b.encoded = bs ∧ c.completes f = some b ∧
      c.handleFrame f = ((({ c with receivedAnyFrame := true } : H2Connection).takeBlock f).withDecoded
        b).emitHeaders b.streamId r.headers b.endStream

/-- The headers of a request are made of `Vec`s. -/
def FitHeaders (x : ConnStep) : Prop :=
  ∀ headers es, x = .own (.sendRequest headers es) → ∀ h ∈ headers, h.Fits

/-! ## The invariant -/

/-- The client's encoder is behind the reader of the peer, and its decoder is with the writer. -/
structure Synced (p : Peer) (c : H2Connection) : Prop where
  ahead : Reference.Table.Ahead c.encoder.dynamicTable.reference p.reader
  admissible : Admissible p.limit c.encoder p.reader
  writer : c.decoder.dynamicTable.reference = p.writer
  limit : c.decoder.maxTableSize = 4096
  small : c.localSettings.headerTableSize ≤ 4096
  noPush : c.localSettings.enablePush = false

/-- The other calls and frames leave encoder and decoder alone. -/
theorem Synced.of_eq {p' : Peer} (h : Synced p c) (hreader : p'.reader = p.reader)
    (hlimit : p'.limit = p.limit) (hwriter : p'.writer = p.writer)
    (hencoder : c'.encoder = c.encoder) (hdecoder : c'.decoder = c.decoder)
    (hlocal : c'.localSettings = c.localSettings) : Synced p' c' := by
  refine ⟨?_, ?_, ?_, ?_, ?_, ?_⟩
  · rw [hencoder, hreader]
    exact h.ahead
  · rw [hencoder, hreader, hlimit]
    exact h.admissible
  · rw [hdecoder, hwriter]
    exact h.writer
  · rw [hdecoder]
    exact h.limit
  · rw [hlocal]
    exact h.small
  · rw [hlocal]
    exact h.noPush

/-! ## Requests -/

/-- The block of a request. -/
theorem Synced.request (h : Synced p c) {headers : List HeaderField} (hfits : ∀ f ∈ headers, f.Fits)
    (es : Bool) :
    ∃ t, decode p.limit p.reader (c.encoder.encode headers).2 = some (headers, t) ∧
      ∀ p' : Peer, p'.reader = t → p'.limit = p.limit → p'.writer = p.writer →
        Synced p' (c.openStream headers es) := by
  obtain ⟨t, hdec, hahead, hadm⟩ := decode_encode Reference.Table.tracks_ahead h.ahead h.admissible hfits
  refine ⟨t, hdec, fun p' hreader hlimit hwriter => ⟨?_, ?_, ?_, h.limit, h.small, h.noPush⟩⟩
  · rw [hreader]
    exact hahead
  · rw [hreader, hlimit]
    exact hadm
  · rw [hwriter]
    exact h.writer

/-! ## Blocks of the peer -/

variable {f : Frame} {raw : List UInt8}

theorem block_of_no_push (h : ∀ sid promised encoded eh, f ≠ .pushPromise sid promised encoded eh) :
    p.block f = (p.wire.block f).map Block.encoded := by
  cases f with
  | pushPromise sid promised encoded eh => exact absurd rfl (h sid promised encoded eh)
  | _ => rfl

theorem inert_emitHeaders (c : H2Connection) (sid : Nat) (headers : List HeaderField) (es : Bool) :
    (c.emitHeaders sid headers es).1.inert = c.inert := by
  rw [emitHeaders]
  split
  · rfl
  · rcases hs : c.streams.get? sid with _ | s
    · rfl
    · rcases hcheck : checkHeaders s headers es with e | _
      · simp only [hcheck]
      · simp only [hcheck]
        exact inert_deliverHeaders c sid s headers es

/-- **A block of the peer is read as it is meant.** -/
theorem Synced.response {bs : List UInt8} {reps : List Reference.Representation} {r : Reading}
    (h : Synced p c) (hsound : Sound p.wire c) (hconf : PeerConforms p c f)
    (hsuits : PeerSuits p c raw f) (hbs : p.block f = some bs) (hreps : Reference.Block reps bs)
    (hr : applyAll c.localSettings.headerTableSize ⟨p.writer, []⟩ reps = some r) :
    ∃ b, b.encoded = bs ∧ c.completes f = some b ∧
      c.handleFrame f = ((({ c with receivedAnyFrame := true } : H2Connection).takeBlock f).withDecoded
        b).emitHeaders b.streamId r.headers b.endStream ∧
      decode c.localSettings.headerTableSize p.writer bs = some (r.headers, r.table) ∧
      (c.decoder.decode bs).1.dynamicTable.reference = r.table := by
  have hpush : ∀ sid promised encoded eh, f ≠ .pushPromise sid promised encoded eh := by
    intro sid promised encoded eh hf
    cases h.noPush.symm.trans (hconf.push sid promised encoded eh hf)
  have hmeans : decode c.localSettings.headerTableSize p.writer bs =
      some (r.headers, r.table) := (hreps.reads hr).decode_eq
  obtain ⟨hcount, hsize⟩ := hsuits.size bs r.headers r.table hbs hmeans
  rw [block_of_no_push hpush] at hbs
  obtain ⟨b, hb, rfl⟩ := Option.map_eq_some_iff.mp hbs
  have hcont := continuationStream_of_admits hconf.admitted
  have hcompletes := hsound.completes hcont hb hsuits.finds
  have hmeans' := hmeans
  rw [← h.writer] at hmeans'
  obtain ⟨hdec, htable⟩ := decoder_refines (by rw [h.limit]; exact h.small) hmeans' hcount
  refine ⟨b, rfl, hcompletes, ?_, hmeans, htable⟩
  obtain ⟨-, hdecoder, hlocal⟩ := inert_takeBlock { c with receivedAnyFrame := true } f
  have hcompletes' : ({ c with receivedAnyFrame := true } : H2Connection).completes f = some b :=
    hcompletes
  rw [handleFrame, hconf.admitted]
  refine (dispatch_of_completes hcompletes').trans (decodeAndEmitHeaders_of_decode ?_ ?_)
  · rw [hdecoder]
    exact hdec
  · rw [hlocal]
    exact fun max hmax => (hsize max hmax).1

/-! ## Steps -/

/-- Frames that complete no header block leave encoder and decoder alone, SETTINGS apart. -/
theorem Dispatched.codecs_eq {r : Except H2Error Unit} (h : Dispatched c f c' r)
    (hf : opens f = false) (hb : c.completes f = none) :
    c'.encoder = c.encoder ∧ c'.decoder = c.decoder ∧ c'.localSettings = c.localSettings := by
  have hinert : ∀ {c₁ c₂ : H2Connection}, c₁.inert = c₂.inert → c₁.encoder = c₂.encoder ∧
      c₁.decoder = c₂.decoder ∧ c₁.localSettings = c₂.localSettings := fun h =>
    ⟨congrArg Inert.encoder h, congrArg Inert.decoder h, congrArg Inert.localSettings h⟩
  cases h with
  | settings s => exact absurd hf nofun
  | block hb' => cases hb.symm.trans hb'
  | @dataRefused sid payload es w hw hgone =>
    exact hinert (inert_refuseData { c with connRecvWindow := w } sid _)
  | dataDelivered hw hs hclosed hremote hrw => exact hinert (inert_deliverData _ _ _ _ _ _)
  | goAway last code debugData =>
    exact ⟨congrArg Inert.encoder (inert_resetAll _ _), congrArg Inert.decoder (inert_resetAll _ _),
      congrArg Inert.localSettings (inert_resetAll _ _)⟩
  | _ => exact ⟨rfl, rfl, rfl⟩

theorem paramsOf_of_opens (h : opens f = false) : c.paramsOf (.frame raw f) = [] := by
  cases f with
  | settings ack s =>
    cases ack with
    | true => rfl
    | false => cases h
  | _ => rfl

/-- No block on the wire, none in the table. -/
theorem completes_eq_none {g : Wire} (h : g.block f = none) : c.completes f = none := by
  cases f with
  | headers sid encoded es eh p => cases eh <;> first | rfl | cases h
  | continuation sid encoded eh => cases eh <;> first | rfl | cases h
  | _ => rfl

/-- SETTINGS queue a size that is within the new limit. -/
theorem Synced.settings {s : Settings} {r : Except H2Error Unit} (h : Synced p c)
    (hcont : c.continuationStream = none) (hdec : Settings.decode (raw.drop 9) = .ok s)
    (hsuits : PeerSuits p c raw (.settings false s)) (happlied : SettingsApplied c s c' r) :
    Synced (recordPeer p c (.frame raw (.settings false s))) c' := by
  have hsize := (overlaid_decode hdec).headerTableSize
  have hlimit : (recordPeer p c (.frame raw (.settings false s))).limit =
      (lastOf 0x1 (Settings.params (raw.drop 9))).getD p.limit := by
    change (lastOf 0x1 (c.paramsOf (.frame raw (.settings false s)))).getD p.limit = _
    rw [paramsOf, if_pos hcont]
  have hle : s.headerTableSize ≤ (lastOf 0x1 (Settings.params (raw.drop 9))).getD p.limit ∧
      s.headerTableSize ≤ maxSignalledSize := by
    rw [hsize]
    rcases hlast : lastOf 0x1 (Settings.params (raw.drop 9)) with _ | v
    · exact ⟨hsuits.tableSize s rfl hlast, by decide⟩
    · exact ⟨min_le_left _ _, (min_le_right v maxPeerHeaderTableSize).trans (by decide)⟩
  refine ⟨?_, ?_, ?_, ?_, ?_, ?_⟩
  · rw [happlied.encoder]
    exact h.ahead
  · rw [happlied.encoder, hlimit]
    exact h.admissible.updateMaxTableSize hle.1 hle.2
  · rw [happlied.decoder]
    exact h.writer
  · rw [happlied.decoder]
    exact h.limit
  · rw [happlied.localSettings]
    exact h.small
  · rw [happlied.localSettings]
    exact h.noPush

/-- A frame that is handled without an error. -/
theorem Synced.frame (h : Synced p c) (hgen : c.Genuine (.frame raw f)) (hsound : Sound p.wire c)
    (hconf : PeerConforms p c f) (hsuits : PeerSuits p c raw f)
    (hdone : (c.takeFrame f).state.done = false) :
    Synced (recordPeer p c (.frame raw f)) (c.takeFrame f) := by
  have hreader : (recordPeer p c (.frame raw f)).reader = p.reader := rfl
  rcases hf : opens f with _ | _
  · have hlimit : (recordPeer p c (.frame raw f)).limit = p.limit := by
      change (lastOf 0x1 (c.paramsOf (.frame raw f))).getD p.limit = _
      rw [paramsOf_of_opens hf]
      rfl
    rcases hbs : p.block f with _ | bs
    · have hwriter : (recordPeer p c (.frame raw f)).writer = p.writer := by
        change (match p.block f with | some bs => _ | none => p.writer) = _
        rw [hbs]
      have hpush : ∀ sid promised encoded eh, f ≠ .pushPromise sid promised encoded eh := by
        intro sid promised encoded eh hf
        cases h.noPush.symm.trans (hconf.push sid promised encoded eh hf)
      have hwire : p.wire.block f = none := by
        rw [block_of_no_push hpush] at hbs
        exact Option.map_eq_none_iff.mp hbs
      rcases takeFrame_cases c f with ⟨e, b, -, hc⟩ | ⟨hadmits, c', r, hd, hc⟩
      · rw [hc] at hdone
        cases (fatalError_done _ e).symm.trans hdone
      · rw [hc] at hdone ⊢
        rcases r with e | ⟨⟩
        · cases (fatalError_done c' e).symm.trans hdone
        · obtain ⟨hencoder, hdecoder, hlocal⟩ := hd.codecs_eq hf (completes_eq_none hwire)
          exact h.of_eq hreader hlimit hwriter hencoder hdecoder hlocal
    · obtain ⟨reps, r, hreps, hr⟩ := hconf.block bs hbs
      obtain ⟨b, rfl, hcompletes, hhandle, hmeans, htable⟩ :=
        h.response hsound hconf hsuits hbs hreps hr
      have hwriter : (recordPeer p c (.frame raw f)).writer = r.table := by
        change (match p.block f with | some bs => _ | none => p.writer) = _
        rw [hbs]
        dsimp only
        rw [hmeans]
        rfl
      obtain ⟨-, hdecoder, hlocal⟩ := inert_takeBlock { c with receivedAnyFrame := true } f
      have hencoder := congrArg Setup.encoder (setup_takeBlock { c with receivedAnyFrame := true } f)
      have hinert := inert_emitHeaders ((({ c with receivedAnyFrame := true } :
        H2Connection).takeBlock f).withDecoded b) b.streamId r.headers b.endStream
      rw [takeFrame, hhandle] at hdone ⊢
      generalize ((({ c with receivedAnyFrame := true } : H2Connection).takeBlock f).withDecoded
        b).emitHeaders b.streamId r.headers b.endStream = out at hdone hinert ⊢
      obtain ⟨c', res⟩ := out
      rcases res with e | ⟨⟩
      · cases (fatalError_done c' e).symm.trans hdone
      · have henc : c'.encoder = c.encoder := (congrArg Inert.encoder hinert).trans hencoder
        have hdec : c'.decoder = (c.decoder.decode b.encoded).1 := by
          refine (congrArg Inert.decoder hinert).trans ?_
          exact congrArg (fun d : Decoder => (d.decode b.encoded).1) hdecoder
        have hloc : c'.localSettings = c.localSettings :=
          (congrArg Inert.localSettings hinert).trans hlocal
        refine ⟨?_, ?_, ?_, ?_, ?_, ?_⟩
        · change Reference.Table.Ahead c'.encoder.dynamicTable.reference p.reader
          rw [henc]
          exact h.ahead
        · rw [hlimit]
          change Admissible p.limit c'.encoder p.reader
          rw [henc]
          exact h.admissible
        · rw [hwriter]
          change c'.decoder.dynamicTable.reference = r.table
          rw [hdec]
          exact htable
        · change c'.decoder.maxTableSize = 4096
          rw [hdec]
          exact h.limit
        · change c'.localSettings.headerTableSize ≤ 4096
          rw [hloc]
          exact h.small
        · change c'.localSettings.enablePush = false
          rw [hloc]
          exact h.noPush
  · obtain ⟨s, rfl⟩ := eq_settings_of_opens hf
    have hcont : c.continuationStream = none := continuationStream_of_admits hconf.admitted
    obtain ⟨c', r, happlied, hc⟩ := takeFrame_settings hcont s
    rw [hc] at hdone ⊢
    rcases r with e | ⟨⟩
    · cases (fatalError_done c' e).symm.trans hdone
    · exact h.settings hcont hgen.decoded hsuits happlied

section

variable {x : ConnStep} (hgen : c.Genuine x)
  (hconf : ∀ raw f, x = .frame raw f → PeerConforms p c f)
  (hsuits : ∀ raw f, x = .frame raw f → PeerSuits p c raw f) (hfits : FitHeaders x)
  (h : c.state.done = false → Sound p.wire c ∧ Synced p c)

include hgen hconf hsuits hfits h

/-- **One step keeps both directions in sync.** -/
theorem synced_step (hdone : (c.step x).state.done = false) :
    Synced (recordPeer p c x) (c.step x) := by
  cases x with
  | malformed e => cases (fatalError_done c e).symm.trans hdone
  | overflow => cases (fatalError_done c _).symm.trans hdone
  | frame raw f =>
    obtain ⟨hsound, h⟩ := h hgen.1
    exact h.frame hgen hsound (hconf raw f rfl) (hsuits raw f rfl) hdone
  | own l =>
    have h : Synced p c := by
      refine (h (Bool.eq_false_iff.mpr fun hc => ?_)).2
      cases (own_done hc l).symm.trans hdone
    cases l with
    | sendRequest headers es =>
      obtain ⟨t, hdec, hopened⟩ := h.request (hfits headers es rfl) es
      rw [step, own]
      rcases sendRequest_cases c headers es with ⟨e, heq⟩ | heq
      · rw [heq]
        refine h.of_eq ?_ rfl rfl rfl rfl rfl
        change (match (c.sendRequest headers es).2 with | .ok _ => _ | .error _ => p.reader) = _
        rw [heq]
      · rw [heq]
        refine hopened _ ?_ rfl rfl
        change (match (c.sendRequest headers es).2 with | .ok _ => _ | .error _ => p.reader) = _
        rw [heq, hdec]
        rfl
    | sendData sid data es =>
      exact sendData_induction (P := Synced p) h fun _ _ => h.of_eq rfl rfl rfl rfl rfl rfl
    | _ => exact h.of_eq rfl rfl rfl rfl rfl rfl

theorem inSync_step : InSync p c x where
  request := by
    rintro headers es sid rfl hok
    have hopen : c.state.done = false := by
      rcases hdone : c.state.done with _ | _
      · rfl
      · rw [sendRequest, hdone] at hok
        cases hok
    obtain ⟨t, hdec, -⟩ := (h hopen).2.request (hfits headers es rfl) es
    rcases sendRequest_cases c headers es with ⟨e, heq⟩ | heq
    · rw [heq] at hok
      cases hok
    · rw [heq] at hok
      cases hok
      refine ⟨_, t, ?_, hdec⟩
      rw [step, own, heq]
      rfl
  response := by
    rintro raw f bs reps r rfl hbs hreps hr
    obtain ⟨hsound, h⟩ := h hgen.1
    obtain ⟨b, hb, hcompletes, hhandle, -⟩ :=
      h.response hsound (hconf raw f rfl) (hsuits raw f rfl) hbs hreps hr
    exact ⟨b, hb, hcompletes, hhandle⟩

end

end H2Connection

namespace Client

open H2Connection

theorem synced_new {settings : Settings} (order : Table.Order Nat H2Stream)
    (hsmall : settings.headerTableSize ≤ 4096) (hpush : settings.enablePush = false) :
    Synced .start (new settings order).conn where
  ahead := ⟨⟨_, rfl⟩, hsmall⟩
  admissible := ⟨nofun, nofun, fun _ => le_rfl, hsmall.trans_lt (by decide)⟩
  writer := rfl
  limit := rfl
  small := hsmall
  noPush := hpush

/-- **Header blocks are understood in both directions**, in every run against a conforming peer, for a
client that does not enable push and asks for a table of at most 4096 bytes, if the peer sends what
the client relies on. -/
theorem peers_in_sync (settings : Settings) (order : Table.Order Nat H2Stream) (calls : List Call)
    (hconf : ∀ p ∈ (new settings order).historyOf recordPeer .start calls,
      ∀ raw f, p.2 = .frame raw f → PeerConforms p.1.1 p.1.2 f)
    (hfits : ∀ x ∈ (new settings order).traceOf calls, FitHeaders x.2)
    (hsmall : settings.headerTableSize ≤ 4096) (hpush : settings.enablePush = false)
    (hsuits : ∀ p ∈ (new settings order).historyOf recordPeer .start calls,
      ∀ raw f, p.2 = .frame raw f → PeerSuits p.1.1 p.1.2 raw f) :
    ∀ p ∈ (new settings order).historyOf recordPeer .start calls, InSync p.1.1 p.1.2 p.2 := by
  have hgen : ∀ p ∈ (new settings order).historyOf recordPeer .start calls, p.1.2.Genuine p.2 :=
    fun p hp => genuine_traceOf _ calls _ (mem_traceOf_of_mem_historyOf hp)
  have hfits' : ∀ p ∈ (new settings order).historyOf recordPeer .start calls, FitHeaders p.2 :=
    fun p hp => hfits _ (mem_traceOf_of_mem_historyOf hp)
  have hinv := historyOf_induction recordPeer
    (P := fun g c => c.state.done = false → Sound g.wire c ∧ Synced g c)
    (fun _ => ⟨sound_new settings order, synced_new order hsmall hpush⟩)
    (fun p hp h hdone => ⟨sound_step (hgen p hp) (fun hopen => (h hopen).1) hdone,
      synced_step (hgen p hp) (hconf p hp) (hsuits p hp) (hfits' p hp) h hdone⟩)
  exact fun p hp => inSync_step (hgen p hp) (hconf p hp) (hsuits p hp) (hfits' p hp) (hinv p hp)

/-- The representation of the status 200. -/
theorem block_ok : Reference.Block [.indexed 8] [0x88] :=
  have hbytes : Reference.Representation.Bytes (.indexed 8) [0x88] := ⟨by decide, by decide⟩
  .cons hbytes .nil

/-- A request and its response. -/
theorem peers_in_sync_response :
    ((new .clientDefault .listed).stepsOf
        [.recv emptySettings, .own (.sendRequest [] true), .recv okResponse] =
        [.frame emptySettings (.settings false {}), .own (.sendRequest [] true),
          .frame okResponse (.headers 1 [0x88] true true none)]) ∧
      ∀ p ∈ (new .clientDefault .listed).historyOf recordPeer .start
          [.recv emptySettings, .own (.sendRequest [] true), .recv okResponse],
        InSync p.1.1 p.1.2 p.2 := by
  have hsteps : (new .clientDefault .listed).stepsOf
      [.recv emptySettings, .own (.sendRequest [] true), .recv okResponse] =
      [.frame emptySettings (.settings false {}), .own (.sendRequest [] true),
        .frame okResponse (.headers 1 [0x88] true true none)] := by rfl
  refine ⟨hsteps, peers_in_sync .clientDefault .listed _ ?_ ?_ (by decide) (by decide) ?_⟩
  · intro p hp raw f hx
    rw [historyOf, hsteps] at hp
    simp only [Machine.trace, mem_cons, not_mem_nil, or_false] at hp
    rcases hp with rfl | rfl | rfl
    · cases hx
      exact ⟨rfl, (fun _ hbs => by cases hbs), by simp⟩
    · cases hx
    · cases hx
      refine ⟨rfl, fun bs hbs => ?_, by simp⟩
      cases hbs
      exact ⟨_, _, block_ok, rfl⟩
  · rintro ⟨c, x⟩ hx headers es rfl
    have hx := Machine.mem_of_mem_trace hx
    rw [hsteps] at hx
    simp only [mem_cons, not_mem_nil, or_false, reduceCtorEq, false_or,
      ConnStep.own.injEq, Local.sendRequest.injEq] at hx
    obtain ⟨rfl, -⟩ := hx
    exact fun h hh => absurd hh not_mem_nil
  · intro p hp raw f hx
    rw [historyOf, hsteps] at hp
    simp only [Machine.trace, mem_cons, not_mem_nil, or_false] at hp
    rcases hp with rfl | rfl | rfl
    · cases hx
      exact ⟨fun _ _ _ => le_rfl, by simp [FindsStream], fun _ _ _ hbs => by cases hbs⟩
    · cases hx
    · cases hx
      refine ⟨by simp, ?_, fun bs headers t hbs hmeans => ?_⟩
      · intro sid encoded es eh pr hf
        cases hf
        rintro ⟨⟩
      · cases hbs
        have heq : decode 4096 .start [0x88] =
            some ([⟨bytesOf ":status", bytesOf "200"⟩], .start) := by rfl
        cases (Option.some_inj.mp (heq.symm.trans hmeans))
        refine ⟨by decide, fun max hmax => ?_⟩
        cases hmax
        decide

/-- A response whose block raises the table size to 8192. -/
def resizedResponse : List UInt8 := [0, 0, 4, 1, 5, 0, 0, 0, 1, 0x3f, 0xe1, 0x3f, 0x88]

/-- **A table larger than 4096 bytes is refused**, although the client has asked for it. -/
theorem larger_table_is_refused :
    ∃ (settings : Settings) (order : Table.Order Nat H2Stream) (calls : List Call),
      (∀ p ∈ (new settings order).historyOf recordPeer .start calls,
        ∀ raw f, p.2 = .frame raw f → PeerConforms p.1.1 p.1.2 f) ∧
      (∀ x ∈ (new settings order).traceOf calls, FitHeaders x.2) ∧
      ∃ p ∈ (new settings order).historyOf recordPeer .start calls, ¬ InSync p.1.1 p.1.2 p.2 := by
  let settings : Settings := { Settings.clientDefault with headerTableSize := 8192 }
  let calls : List Call :=
    [.recv emptySettings, .own (.sendRequest [] true), .recv resizedResponse]
  let before : List ConnStep :=
    [.frame emptySettings (.settings false {}), .own (.sendRequest [] true)]
  let last : ConnStep :=
    .frame resizedResponse (.headers 1 [0x3f, 0xe1, 0x3f, 0x88] true true none)
  have hsteps : (new settings .listed).stepsOf calls = before ++ [last] := by rfl
  have hbytes : Reference.Representation.Bytes (.sizeUpdate 8192) [0x3f, 0xe1, 0x3f] := ⟨by decide, by decide⟩
  have hblock : Reference.Block [.sizeUpdate 8192, .indexed 8] [0x3f, 0xe1, 0x3f, 0x88] :=
    .cons hbytes block_ok
  refine ⟨settings, .listed, calls, ?_, ?_, _, mem_historyOf_last hsteps recordPeer .start, ?_⟩
  · intro p hp raw f hx
    rw [historyOf, hsteps] at hp
    simp only [before, last, cons_append, nil_append, Machine.trace, mem_cons,
      not_mem_nil, or_false] at hp
    rcases hp with rfl | rfl | rfl
    · cases hx
      exact ⟨rfl, (fun _ hbs => by cases hbs), by simp⟩
    · cases hx
    · cases hx
      refine ⟨rfl, fun bs hbs => ?_, by simp⟩
      cases hbs
      exact ⟨_, _, hblock, rfl⟩
  · rintro ⟨c, x⟩ hx headers es rfl
    have hx := Machine.mem_of_mem_trace hx
    rw [hsteps] at hx
    simp only [before, last, cons_append, nil_append, mem_cons, not_mem_nil,
      or_false, reduceCtorEq, false_or, ConnStep.own.injEq, Local.sendRequest.injEq] at hx
    obtain ⟨rfl, -⟩ := hx
    exact fun h hh => absurd hh not_mem_nil
  · intro h
    obtain ⟨b, hb, hcompletes, hhandle⟩ := h.response _ _ _ _ _ rfl rfl hblock rfl
    cases hcompletes
    cases congrArg Prod.snd hhandle

end Client
end Ringline.H2
