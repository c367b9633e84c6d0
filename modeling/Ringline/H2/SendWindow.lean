import Ringline.H2.SettingsLaw
import Ringline.H2.StreamCore

/-!
# The credit for sending

The peer grants credit: a stream starts with the initial window in force, WINDOW_UPDATE adds to it,
and a new INITIAL_WINDOW_SIZE moves it for every stream, possibly below what was already sent.
`Credit` keeps these books by what the peer says.  The client keeps them in its send windows, and
what it has sent is never more than what it was granted when it sent it (`data_within_credit`).

The exception is a stream that the client has reset.  SETTINGS leave its window alone, since it is
closed, but `handle_headers` does not look at the state of a stream: a header block that ends the
stream makes it half closed, and the client may send again, with a window that has missed the
change (`revived_stream_overdraws`).
-/

set_option autoImplicit false

namespace Ringline.H2

open List H2Connection

/-! ## What was sent -/

variable (sid : Nat)

/-- The length of the payload of a DATA frame of the stream. -/
def dataLength : Frame → Nat
  | .data sid' payload _ => if sid' = sid then payload.length else 0
  | _ => 0

/-- The length of the payload of a DATA frame. -/
def anyDataLength : Frame → Nat
  | .data _ payload _ => payload.length
  | _ => 0

/-- The DATA sent on a stream. -/
def dataSent (fs : List Frame) : Nat := (fs.map (dataLength sid)).sum

/-- The DATA sent on all streams. -/
def allDataSent (fs : List Frame) : Nat := (fs.map anyDataLength).sum

@[simp] theorem dataSent_append (fs gs : List Frame) :
    dataSent sid (fs ++ gs) = dataSent sid fs + dataSent sid gs := by
  simp [dataSent]

@[simp] theorem allDataSent_append (fs gs : List Frame) :
    allDataSent (fs ++ gs) = allDataSent fs + allDataSent gs := by
  simp [allDataSent]

/-- Nothing but DATA frames counts. -/
theorem dataSent_eq_zero (fs : List Frame)
    (h : ∀ g ∈ fs, ∀ sid payload es, g ≠ .data sid payload es) :
    (∀ sid, dataSent sid fs = 0) ∧ allDataSent fs = 0 := by
  induction fs with
  | nil => exact ⟨fun _ => rfl, rfl⟩
  | cons g fs ih =>
    obtain ⟨hstream, hall⟩ := ih fun g hg => h g (mem_cons_of_mem _ hg)
    have hg := h g mem_cons_self
    refine ⟨fun sid => ?_, ?_⟩
    · rw [← singleton_append, dataSent_append, hstream]
      cases g with
      | data sid' payload es => exact absurd rfl (hg sid' payload es)
      | _ => rfl
    · rw [← singleton_append, allDataSent_append, hall]
      cases g with
      | data sid' payload es => exact absurd rfl (hg sid' payload es)
      | _ => rfl

/-- `dataFrames` carries its chunks in order, with END_STREAM on the last one only. -/
theorem dataFrames_eq (es : Bool) {chunks : List (List UInt8)} (h : chunks ≠ []) :
    ∃ init last, dataFrames sid es chunks =
      init.map (.data sid · false) ++ [.data sid last es] ∧ init ++ [last] = chunks := by
  induction chunks using dataFrames.induct with
  | case1 => exact absurd rfl h
  | case2 chunk => exact ⟨[], chunk, rfl, rfl⟩
  | case3 chunk rest hrest ih =>
    obtain ⟨init, last, hframes, hinit⟩ := ih fun hnil => by
      subst hnil
      exact hrest rfl
    refine ⟨chunk :: init, last, ?_, by rw [cons_append, hinit]⟩
    rw [dataFrames, hframes]
    · rfl
    · exact hrest

theorem sent_dataFrames (es : Bool) (chunks : List (List UInt8)) :
    (∀ j, dataSent j (dataFrames sid es chunks) =
      if sid = j then chunks.flatten.length else 0) ∧
    allDataSent (dataFrames sid es chunks) = chunks.flatten.length := by
  induction chunks using dataFrames.induct with
  | case1 => exact ⟨fun j => by simp [dataFrames, dataSent], rfl⟩
  | case2 chunk =>
    exact ⟨fun j => by simp [dataFrames, dataSent, dataLength],
      by simp [dataFrames, allDataSent, anyDataLength]⟩
  | case3 chunk rest hrest ih =>
    have hframes : dataFrames sid es (chunk :: rest) =
        [.data sid chunk false] ++ dataFrames sid es rest := by
      rw [dataFrames]
      · rfl
      · exact hrest
    rw [hframes]
    refine ⟨fun j => ?_, ?_⟩
    · rw [dataSent_append, ih.1 j]
      by_cases hj : sid = j <;> simp [dataSent, dataLength, hj]
    · rw [allDataSent_append, ih.2]
      simp [allDataSent, anyDataLength]

theorem flatten_dataChunks {m : Nat} (hm : 0 < m) (data : List UInt8) :
    (dataChunks m data).flatten = data := by
  rw [dataChunks]
  split
  · rename_i hnil
    rw [hnil]
    rfl
  · exact Chunks.flatten_chunks hm data

theorem dataChunks_ne_nil {m : Nat} (hm : 0 < m) (data : List UInt8) :
    dataChunks m data ≠ [] := by
  intro h
  have hflat := flatten_dataChunks hm data
  rw [h, flatten_nil] at hflat
  subst hflat
  cases h

/-! ## The books of the peer -/

/-- What the peer has granted. -/
structure Credit where
  /-- The initial window in force. -/
  initial : Nat
  conn : Int
  stream : Nat → Int

/-- Nothing was said yet. -/
def Credit.start : Credit := ⟨65535, 65535, fun _ => 0⟩

namespace H2Connection

variable {c c' : H2Connection} {r : Except H2Error Unit} {g : Credit}

/-- The credit after a step: a new stream has the initial window in force, and WINDOW_UPDATE and
SETTINGS that are accepted change what was granted. -/
def recordCredit (g : Credit) (c : H2Connection) : ConnStep → Credit
  | .own (.sendRequest headers es) =>
    match (c.sendRequest headers es).2 with
    | .ok sid => { g with stream := Function.update g.stream sid g.initial }
    | .error _ => g
  | .frame raw f =>
    match c.admits f, f with
    | .ok (), .windowUpdate sid inc =>
      if sid = 0 then { g with conn := g.conn + inc }
      else { g with stream := Function.update g.stream sid (g.stream sid + inc) }
    | .ok (), .settings false _ =>
      let initial := (lastOf 0x4 (Settings.params (raw.drop 9))).getD g.initial
      { g with
        initial := initial
        stream := fun sid => g.stream sid + ((initial : Int) - g.initial) }
    | _, _ => g
  | _ => g

/-- SETTINGS carry the initial window. -/
def CarriesWindow (c : H2Connection) (x : ConnStep) : Prop :=
  ∀ raw s, x = .frame raw (.settings false s) → c.continuationStream = none →
    (lastOf 0x4 (Settings.params (raw.drop 9))).isSome = true

/-- Data is shorter than 2³² bytes. -/
def ShortData : ConnStep → Prop
  | .own (.sendData _ data _) => data.length < 4294967296
  | _ => True

/-- The condition under which a step keeps the books: no header block that ends a stream comes for
one that is closed. -/
def NoRevival (c : H2Connection) (x : ConnStep) : Prop :=
  ∀ raw f b s, x = .frame raw f → c.completes f = some b → b.endStream = true →
    c.streams.get? b.streamId = some s → s.state ≠ .closed

/-- The windows of the client are covered by what was granted. -/
structure Covered (g : Credit) (c : H2Connection) : Prop where
  valid : c.remoteSettings.Valid
  initial : c.remoteSettings.initialWindowSize = g.initial
  nonneg : 0 ≤ c.connSendWindow.window
  conn : c.connSendWindow.window + allDataSent c.sendBuf ≤ g.conn
  stream : ∀ sid k, c.coreAt sid = some k → k.state ≠ .closed →
    k.sendWindow.window + dataSent sid c.sendBuf ≤ g.stream sid
  bounded : ∀ sid k, c.coreAt sid = some k → k.state ≠ .closed → k.sendWindow.window ≤ 0x7fffffff
  known : ∀ sid k, c.coreAt sid = some k → k.state ≠ .closed → sid < c.nextStreamId
  unsent : ∀ sid, c.nextStreamId ≤ sid → dataSent sid c.sendBuf = 0

/-- How a step sends DATA, with the credit before it. -/
structure SendsWithin (g : Credit) (c : H2Connection) (x : ConnStep) : Prop where
  /-- A failing `send_data` does nothing. -/
  refused : ∀ sid data es e, x = .own (.sendData sid data es) →
    (c.sendData sid data es).2 = .error e → c.step x = c
  /-- The frames carry the data in order, with END_STREAM on the last one only. -/
  framed : ∀ sid data es, x = .own (.sendData sid data es) → (c.sendData sid data es).2 = .ok () →
    ∃ (init : List (List UInt8)) (last : List UInt8), (c.step x).sendBuf =
        c.sendBuf ++ (init.map (.data sid · false) ++ [.data sid last es]) ∧
      init.flatten ++ last = data
  /-- What is sent on a stream is covered when it is sent. -/
  stream : ∀ sid, dataSent sid (c.step x).sendBuf ≠ dataSent sid c.sendBuf →
    (dataSent sid (c.step x).sendBuf : Int) ≤ g.stream sid
  /-- So is what is sent on all streams, at any time. -/
  conn : (allDataSent (c.step x).sendBuf : Int) ≤ (recordCredit g c x).conn

/-! ## Frames -/

theorem connSendWindow_settle (c : H2Connection) (r : Except H2Error Unit) :
    (c.settle r).connSendWindow = c.connSendWindow := by
  rcases r with e | _
  · rw [settle, fatalError]
    split <;> rfl
  · rfl

/-- A window that is open after a frame was open before it, and has grown by its WINDOW_UPDATE at
most. -/
structure Grown (f : Frame) (sid : Nat) (w w' : Int) : Prop where
  le : w' = w ∨ ∃ inc, sid ≠ 0 ∧ f = .windowUpdate sid inc ∧ w' = w + inc
  bounded : w ≤ 0x7fffffff → w' ≤ 0x7fffffff

theorem Grown.refl (f : Frame) (sid : Nat) (w : Int) : Grown f sid w w := ⟨.inl rfl, id⟩

variable {f : Frame} {sid : Nat} {s : Settings} {raw : List UInt8} {x : ConnStep}

/-- **Streams across a frame.**  A stream that is not closed after a frame was not closed before it,
and its window is the same or has grown by a WINDOW_UPDATE. -/
theorem Dispatched.stream_back (h : Dispatched c f c' r) (hf : opens f = false)
    (hclosed : ∀ b s, c.completes f = some b → b.endStream = true →
      c.streams.get? b.streamId = some s → s.state ≠ .closed) {k' : Core}
    (hk' : c'.coreAt sid = some k') (hopen : k'.state ≠ .closed) :
    ∃ k, c.coreAt sid = some k ∧ k.state ≠ .closed ∧
      Grown f sid k.sendWindow.window k'.sendWindow.window := by
  obtain ⟨evs, -, htouch, -, -⟩ := h.touches
  have ht := htouch sid
  generalize evs.filter (·.stream = some sid) = own at ht
  generalize hk : c.coreAt sid = o at ht ⊢
  generalize c'.coreAt sid = o' at ht hk'
  cases ht with
  | kept => exact ⟨k', hk', hopen, .refl f sid _⟩
  | begun => exact ⟨k', hk', hopen, .refl f sid _⟩
  | window k w h =>
    cases hk'
    obtain ⟨s, rfl⟩ | ⟨inc, hsid, rfl, hw⟩ := h
    · exact absurd hf nofun
    · have hwin := FlowControl.increase_eq_ok hw
      exact ⟨k, rfl, hopen, .inr ⟨inc, hsid, rfl, hwin.1⟩, fun _ => hwin.2⟩
  | @headers k b fields hb hsid hend =>
    rw [Core.received] at hk'
    split at hk'
    · cases hk'
    · cases hk'
      refine ⟨k, rfl, ?_, .refl f sid _⟩
      rcases hes : b.endStream with _ | _
      · rw [hes] at hopen
        exact hopen
      · obtain ⟨s, hs, rfl⟩ := get?_of_coreAt hk
        exact hclosed b s hb hes (hsid ▸ hs)
  | data k h hne hremote =>
    rw [Core.received] at hk'
    split at hk'
    · cases hk'
    · cases hk'
      exact ⟨k, rfl, hne, .refl f sid _⟩
  | dropped => cases hk'
  | reset => cases hk'

/-- The connection window across a frame. -/
theorem Dispatched.connSendWindow_eq (h : Dispatched c f c' r) (hf : opens f = false) :
    c'.connSendWindow = c.connSendWindow ∨
      ∃ inc, f = .windowUpdate 0 inc ∧
        c'.connSendWindow.window = c.connSendWindow.window + inc := by
  cases h with
  | settings s => exact absurd hf nofun
  | @block _ b _ _ hb h =>
    have htake : (c.takeBlock f).connSendWindow = c.connSendWindow := by cases f <;> rfl
    cases h with
    | delivered s headers hs hdec hcheck =>
      exact .inl ((congrArg Inert.connSendWindow (inert_deliverHeaders _ _ s headers _)).trans htake)
    | _ => exact .inl htake
  | @dataRefused k payload es w hw hgone =>
    exact .inl (congrArg Inert.connSendWindow (inert_refuseData { c with connRecvWindow := w } k _))
  | dataDelivered hw hs hne hremote hrw =>
    exact .inl (congrArg Inert.connSendWindow (inert_deliverData _ _ _ _ _ _))
  | goAway last code debugData => exact .inl (congrArg Inert.connSendWindow (inert_resetAll _ _))
  | connCredit hw => exact .inr ⟨_, rfl, (FlowControl.increase_eq_ok hw).1⟩
  | _ => exact .inl rfl

/-! ## Steps -/

/-- DATA frames are no answers. -/
theorem Replies.dataSent_eq (h : Replies f c c') :
    (∀ sid, dataSent sid c'.sendBuf = dataSent sid c.sendBuf) ∧
      allDataSent c'.sendBuf = allDataSent c.sendBuf := by
  obtain ⟨fs, hfs, hall⟩ := h
  have hzero := dataSent_eq_zero fs fun g hg sid payload es heq => by
    have hanswer := hall g hg
    rw [heq] at hanswer
    exact hanswer
  refine ⟨fun sid => ?_, ?_⟩
  · rw [hfs, dataSent_append, hzero.1, Nat.add_zero]
  · rw [hfs, allDataSent_append, hzero.2, Nat.add_zero]

/-- What `send_data` puts into the send buffer. -/
theorem sent_sendChunks (hvalid : c.remoteSettings.Valid) (sid : Nat) (s : H2Stream)
    (data : List UInt8) (es : Bool) :
    (∀ j, dataSent j (c.sendChunks sid s data es).sendBuf =
      dataSent j c.sendBuf + if sid = j then data.length else 0) ∧
    allDataSent (c.sendChunks sid s data es).sendBuf = allDataSent c.sendBuf + data.length := by
  have hmax : 0 < c.remoteSettings.maxFrameSize := Nat.lt_of_lt_of_le (by decide) hvalid.maxFrameSize
  have hframes := sent_dataFrames sid es (dataChunks c.remoteSettings.maxFrameSize data)
  rw [flatten_dataChunks hmax] at hframes
  refine ⟨fun j => ?_, ?_⟩
  · rw [sendChunks, dataSent_append, hframes.1]
  · rw [sendChunks, allDataSent_append, hframes.2]

section

variable (h : Covered g c)

include h

/-- The windows stay covered when no DATA is sent and every window grows by no more than its
credit. -/
theorem Covered.transfer {g' : Credit} (hvalid : c'.remoteSettings.Valid)
    (hinitial : c'.remoteSettings.initialWindowSize = g'.initial)
    (hnext : c'.nextStreamId = c.nextStreamId)
    (hsent : (∀ sid, dataSent sid c'.sendBuf = dataSent sid c.sendBuf) ∧
      allDataSent c'.sendBuf = allDataSent c.sendBuf)
    (hconn : ∃ n : Nat, c'.connSendWindow.window = c.connSendWindow.window + n ∧
      g.conn + n ≤ g'.conn)
    (hstream : ∀ sid k', c'.coreAt sid = some k' → k'.state ≠ .closed →
      ∃ k, c.coreAt sid = some k ∧ k.state ≠ .closed ∧
        k'.sendWindow.window - k.sendWindow.window ≤ g'.stream sid - g.stream sid ∧
        (k.sendWindow.window ≤ 0x7fffffff → k'.sendWindow.window ≤ 0x7fffffff)) :
    Covered g' c' := by
  refine ⟨hvalid, hinitial, ?_, ?_, ?_, ?_, ?_, ?_⟩
  · have := h.nonneg
    omega
  · have := h.conn
    rw [hsent.2]
    omega
  · intro sid k' hk' hopen
    obtain ⟨k, hk, hne, hle, -⟩ := hstream sid k' hk' hopen
    have := h.stream sid k hk hne
    rw [hsent.1]
    omega
  · intro sid k' hk' hopen
    obtain ⟨k, hk, hne, -, hle⟩ := hstream sid k' hk' hopen
    exact hle (h.bounded sid k hk hne)
  · intro sid k' hk' hopen
    obtain ⟨k, hk, hne, -, -⟩ := hstream sid k' hk' hopen
    rw [hnext]
    exact h.known sid k hk hne
  · intro sid hsid
    rw [hsent.1]
    exact h.unsent sid (hnext ▸ hsid)

/-- A fatal error changes no window. -/
theorem Covered.fatalError (e : H2Error) : Covered g (c.fatalError e) := by
  have hsetup := setup_fatalError c e
  have hremote : (c.fatalError e).remoteSettings = c.remoteSettings :=
    congrArg Setup.remoteSettings hsetup
  refine h.transfer (hremote ▸ h.valid) (hremote ▸ h.initial) (congrArg Setup.nextStreamId hsetup)
    (replies_fatalError (.ping true []) c e).dataSent_eq ⟨0, ?_, by omega⟩ ?_
  · have hwin := connSendWindow_settle c (.error e)
    rw [settle] at hwin
    rw [hwin]
    omega
  · intro sid k' hk' hopen
    rw [coreAt_fatalError] at hk'
    exact ⟨k', hk', hopen, by omega, id⟩

theorem Covered.settle (r : Except H2Error Unit) : Covered g (c.settle r) := by
  rcases r with e | _
  · exact h.fatalError e
  · exact h

/-- The calls that send no DATA and open no stream. -/
theorem Covered.idle (hsetup : c'.setup = c.setup) (hconn : c'.connSendWindow = c.connSendWindow)
    (hsent : (∀ sid, dataSent sid c'.sendBuf = dataSent sid c.sendBuf) ∧ allDataSent c'.sendBuf = allDataSent c.sendBuf)
    (hcore : ∀ sid k', c'.coreAt sid = some k' → k'.state ≠ .closed → c.coreAt sid = some k') :
    Covered g c' := by
  have hremote : c'.remoteSettings = c.remoteSettings := congrArg Setup.remoteSettings hsetup
  refine h.transfer (hremote ▸ h.valid) (hremote ▸ h.initial) (congrArg Setup.nextStreamId hsetup)
    hsent ⟨0, by rw [hconn]; omega, by omega⟩ fun sid k' hk' hopen => ?_
  exact ⟨k', hcore sid k' hk' hopen, hopen, by omega, id⟩

/-- A new stream starts with its credit. -/
theorem Covered.openStream (headers : List HeaderField) (es : Bool) :
    Covered { g with stream := Function.update g.stream c.nextStreamId g.initial }
      (c.openStream headers es) := by
  have hsent : (∀ sid, dataSent sid (c.openStream headers es).sendBuf = dataSent sid c.sendBuf) ∧
      allDataSent (c.openStream headers es).sendBuf = allDataSent c.sendBuf :=
    ⟨fun sid => dataSent_append sid _ _, allDataSent_append _ _⟩
  have hcore : ∀ sid k, (c.openStream headers es).coreAt sid = some k →
      sid = c.nextStreamId ∧ k.sendWindow = ⟨g.initial⟩ ∨
        sid ≠ c.nextStreamId ∧ c.coreAt sid = some k := by
    intro sid k hk
    rw [coreAt_openStream] at hk
    split at hk
    · rename_i hsid
      cases hk
      exact .inl ⟨hsid, by rw [h.initial]⟩
    · rename_i hsid
      exact .inr ⟨hsid, hk⟩
  have hinitial := h.initial ▸ h.valid.initialWindowSize
  refine ⟨h.valid, h.initial, h.nonneg, ?_, ?_, ?_, ?_, ?_⟩
  · rw [hsent.2]
    exact h.conn
  · intro sid k hk hopen
    rw [hsent.1]
    rcases hcore sid k hk with ⟨rfl, hwin⟩ | ⟨hne, hk⟩
    · rw [hwin, h.unsent _ le_rfl]
      simp
    · simp only [Function.update_of_ne hne]
      exact h.stream sid k hk hopen
  · intro sid k hk hopen
    rcases hcore sid k hk with ⟨rfl, hwin⟩ | ⟨hne, hk⟩
    · rw [hwin]
      change (g.initial : Int) ≤ _
      exact_mod_cast hinitial
    · exact h.bounded sid k hk hopen
  · intro sid k hk hopen
    change sid < c.nextStreamId + 2
    rcases hcore sid k hk with ⟨rfl, -⟩ | ⟨-, hk⟩
    · omega
    · have := h.known sid k hk hopen
      omega
  · intro sid hsid
    change c.nextStreamId + 2 ≤ sid at hsid
    rw [hsent.1]
    exact h.unsent sid (by omega)

/-- What is sent is taken off the windows. -/
theorem Covered.sendChunks {s : H2Stream} {data : List UInt8} (hmay : c.MaySend sid s data)
    (hshort : data.length < 4294967296) (es : Bool) : Covered g (c.sendChunks sid s data es) := by
  have hsent := sent_sendChunks h.valid sid s data es
  have hcore := coreAt_sendChunks hmay.stream data es
  have hsopen : s.core.state ≠ .closed := by
    rcases hmay.state with hs | hs <;> exact fun heq => by cases hs.symm.trans heq
  have hlen : data.length % 4294967296 = data.length := Nat.mod_eq_of_lt hshort
  have hwindow := hmay.window
  have hconn := hmay.conn
  rw [hlen] at hcore hwindow hconn
  have hback : ∀ j k, (c.sendChunks sid s data es).coreAt j = some k → k.state ≠ .closed →
      ∃ k₀, c.coreAt j = some k₀ ∧ k₀.state ≠ .closed ∧ k.sendWindow.window =
        k₀.sendWindow.window - (if sid = j then data.length else 0 : Nat) := by
    intro j k hk hopen
    rw [hcore] at hk
    split at hk
    · rename_i hj
      subst hj
      cases hk
      exact ⟨s.core, coreAt_of_get? hmay.stream, hsopen, by rw [if_pos rfl]; rfl⟩
    · rename_i hj
      exact ⟨k, hk, hopen, by rw [if_neg (Ne.symm hj)]; omega⟩
  refine ⟨h.valid, h.initial, ?_, ?_, ?_, ?_, ?_, ?_⟩
  · have := h.nonneg
    change 0 ≤ c.connSendWindow.window - (data.length % 4294967296 : Nat)
    omega
  · have := h.conn
    change c.connSendWindow.window - (data.length % 4294967296 : Nat) + _ ≤ _
    rw [hsent.2]
    omega
  · intro j k hk hopen
    obtain ⟨k₀, hk₀, hne, hwin⟩ := hback j k hk hopen
    have := h.stream j k₀ hk₀ hne
    rw [hsent.1]
    omega
  · intro j k hk hopen
    obtain ⟨k₀, hk₀, hne, hwin⟩ := hback j k hk hopen
    have := h.bounded j k₀ hk₀ hne
    omega
  · intro j k hk hopen
    obtain ⟨k₀, hk₀, hne, -⟩ := hback j k hk hopen
    exact h.known j k₀ hk₀ hne
  · intro j hj
    change c.nextStreamId ≤ j at hj
    have hne : sid ≠ j := by
      have := h.known sid s.core (coreAt_of_get? hmay.stream) hsopen
      omega
    rw [hsent.1, if_neg hne, h.unsent j hj]

end

/-! ## Frames and credit -/

/-- SETTINGS move a window by the change of the initial window, or leave it behind when a window
overflows, which takes a change upwards. -/
theorem SettingsApplied.stream_back (h : SettingsApplied c s c' r)
    (hbounded : ∀ sid k, c.coreAt sid = some k → k.state ≠ .closed →
      k.sendWindow.window ≤ 0x7fffffff) {k' : Core} (hk' : c'.coreAt sid = some k')
    (hopen : k'.state ≠ .closed) :
    ∃ k, c.coreAt sid = some k ∧ k.state ≠ .closed ∧
      k'.sendWindow.window ≤ k.sendWindow.window + c.delta s ∧
      (k.sendWindow.window ≤ 0x7fffffff → k'.sendWindow.window ≤ 0x7fffffff) := by
  obtain ⟨s', hs', rfl⟩ := get?_of_coreAt hk'
  have hadj := h.adjusted sid
  rw [hs'] at hadj
  generalize hs : c.streams.get? sid = o at hadj
  cases hadj with
  | same =>
    refine ⟨s'.core, coreAt_of_get? hs, hopen, ?_, id⟩
    rcases r with e | _
    · obtain ⟨j, st, hst, hne, hover⟩ := h.failed e rfl
      have hle := hbounded j st.core (coreAt_of_get? hst) hne
      change st.sendWindow.window ≤ _ at hle
      omega
    · have hmoved := Option.some.inj (hs'.symm.trans (h.moved rfl sid s' hs hopen))
      exact le_of_eq (congrArg (·.sendWindow.window) hmoved)
  | @moved st hne hle => exact ⟨st.core, coreAt_of_get? hs, hne, le_rfl, fun _ => hle⟩

theorem recordCredit_refused {e : H2Error} (h : c.admits f = .error e) :
    recordCredit g c (.frame raw f) = g := by
  simp only [recordCredit, h]

theorem recordCredit_windowUpdate {inc : Nat} (h : c.admits (.windowUpdate sid inc) = .ok ())
    (raw : List UInt8) :
    recordCredit g c (.frame raw (.windowUpdate sid inc)) =
      if sid = 0 then { g with conn := g.conn + inc }
      else { g with stream := Function.update g.stream sid (g.stream sid + inc) } := by
  simp only [recordCredit, h]

theorem recordCredit_settings (h : c.admits (.settings false s) = .ok ()) (raw : List UInt8) :
    recordCredit g c (.frame raw (.settings false s)) =
      ⟨(lastOf 0x4 (Settings.params (raw.drop 9))).getD g.initial, g.conn, fun sid => g.stream sid +
        (((lastOf 0x4 (Settings.params (raw.drop 9))).getD g.initial : Nat) - g.initial)⟩ := by
  simp only [recordCredit, h]

/-- Frames other than SETTINGS take no credit back. -/
theorem le_recordCredit (g : Credit) (c : H2Connection) (raw : List UInt8) (hf : opens f = false) :
    (recordCredit g c (.frame raw f)).initial = g.initial ∧
      g.conn ≤ (recordCredit g c (.frame raw f)).conn ∧
      ∀ sid, g.stream sid ≤ (recordCredit g c (.frame raw f)).stream sid := by
  have hsame : g.initial = g.initial ∧ g.conn ≤ g.conn ∧ ∀ sid, g.stream sid ≤ g.stream sid :=
    ⟨rfl, le_rfl, fun _ => le_rfl⟩
  rcases hadmits : c.admits f with e | _
  · rw [recordCredit_refused hadmits]
    exact hsame
  · cases f with
    | windowUpdate sid inc =>
      rw [recordCredit_windowUpdate hadmits]
      split
      · exact ⟨rfl, by simp, fun _ => le_rfl⟩
      · refine ⟨rfl, le_rfl, fun j => ?_⟩
        by_cases hj : j = sid
        · rw [hj]
          simp
        · simp [hj]
    | settings ack s =>
      cases ack with
      | true => simpa only [recordCredit, hadmits] using hsame
      | false => exact absurd hf nofun
    | _ => simpa only [recordCredit, hadmits] using hsame

/-- Any other frame. -/
theorem Covered.frame (h : Covered g c) (hf : opens f = false) (hadmits : c.admits f = .ok ())
    (hrevive : c.NoRevival (.frame raw f))
    (hd : Dispatched { c with receivedAnyFrame := true } f c' r) :
    Covered (recordCredit g c (.frame raw f)) c' := by
  obtain ⟨hinitial, hgconn, hgstream⟩ := le_recordCredit g c raw hf
  have hsetup := hd.setup_eq hf
  have hremote : c'.remoteSettings = c.remoteSettings := congrArg Setup.remoteSettings hsetup
  refine h.transfer (hremote ▸ h.valid) (by rw [hremote, hinitial, h.initial])
    (congrArg Setup.nextStreamId hsetup) hd.replies.dataSent_eq ?_ ?_
  · rcases hd.connSendWindow_eq hf with heq | ⟨inc, rfl, heq⟩
    · exact ⟨0, by rw [heq]; simp, by simpa using hgconn⟩
    · refine ⟨inc, heq, ?_⟩
      rw [recordCredit_windowUpdate hadmits, if_pos rfl]
  · intro sid k' hk' hopen
    obtain ⟨k, hk, hne, hgrown⟩ := hd.stream_back hf
      (fun b s hb hes hs => hrevive raw f b s rfl hb hes hs) hk' hopen
    refine ⟨k, hk, hne, ?_, hgrown.bounded⟩
    rcases hgrown.le with heq | ⟨inc, hsid, rfl, heq⟩
    · have := hgstream sid
      omega
    · rw [recordCredit_windowUpdate hadmits, if_neg hsid, heq]
      simp only [Function.update_self]
      omega

/-- SETTINGS. -/
theorem Covered.settings (h : Covered g c) (hdec : Settings.decode (raw.drop 9) = .ok s)
    (hadmits : c.admits (.settings false s) = .ok ())
    (hcarries : (lastOf 0x4 (Settings.params (raw.drop 9))).isSome = true)
    (happlied : SettingsApplied c s c' r) :
    Covered (recordCredit g c (.frame raw (.settings false s))) c' := by
  obtain ⟨v, hv⟩ := Option.isSome_iff_exists.mp hcarries
  have hinitial : s.initialWindowSize = v := by
    rw [(overlaid_decode hdec).initialWindowSize, hv, Option.getD_some]
  have hsent : (∀ sid, dataSent sid c'.sendBuf = dataSent sid c.sendBuf) ∧
      allDataSent c'.sendBuf = allDataSent c.sendBuf := by
    rcases happlied.sendBuf with heq | heq
    · exact (Replies.same (f := .ping true []) heq).dataSent_eq
    · exact (Replies.one (f := .ping true []) heq trivial).dataSent_eq
  rw [recordCredit_settings hadmits, hv, Option.getD_some]
  refine h.transfer ?_ ?_ happlied.nextStreamId hsent ⟨0, ?_, by simp⟩ ?_
  · rw [happlied.remoteSettings]
    exact valid_decode hdec
  · rw [happlied.remoteSettings, hinitial]
  · rw [happlied.connSendWindow]
    simp
  · intro sid k' hk' hopen
    obtain ⟨k, hk, hne, hle, hbound⟩ := happlied.stream_back h.bounded hk' hopen
    refine ⟨k, hk, hne, ?_, hbound⟩
    rw [delta, hinitial, h.initial] at hle
    dsimp only
    omega

/-- **One step keeps the windows covered.** -/
theorem covered_step (hgen : c.Genuine x) (hcarries : c.CarriesWindow x) (hshort : ShortData x)
    (hrevive : c.NoRevival x) (h : Covered g c) : Covered (recordCredit g c x) (c.step x) := by
  cases x with
  | malformed e => exact h.fatalError e
  | overflow => exact h.fatalError _
  | own l =>
    cases l with
    | setMaxRecvBuf n => exact { h with }
    | sendRequest headers es =>
      rw [step, own, recordCredit]
      rcases sendRequest_cases c headers es with ⟨e, heq⟩ | heq
      · rw [heq]
        exact h
      · rw [heq]
        exact h.openStream headers es
    | sendData sid data es =>
      exact sendData_induction (P := Covered g) h fun s hmay => h.sendChunks hmay hshort es
    | resetStream sid code =>
      refine h.idle rfl rfl ⟨fun j => dataSent_append j _ _, allDataSent_append _ _⟩ ?_
      intro j k' hk' hopen
      rw [step, own, coreAt_resetStream] at hk'
      split at hk'
      · obtain ⟨k, -, rfl⟩ := Option.map_eq_some_iff.mp hk'
        exact absurd rfl hopen
      · exact hk'
    | sendPing =>
      exact h.idle rfl rfl ⟨fun j => dataSent_append j _ _, allDataSent_append _ _⟩
        fun _ _ hk _ => hk
    | sendGoaway code =>
      exact h.idle rfl rfl ⟨fun j => dataSent_append j _ _, allDataSent_append _ _⟩
        fun _ _ hk _ => hk
  | frame raw f =>
    rw [step]
    rcases takeFrame_cases c f with ⟨e, b, hadmits, hc⟩ | ⟨hadmits, c', r, hd, hc⟩
    · rw [hc, recordCredit_refused hadmits]
      have h' : Covered g { c with receivedAnyFrame := b } := { h with }
      exact h'.fatalError e
    · rw [hc]
      refine Covered.settle ?_ r
      rcases hf : opens f with _ | _
      · exact h.frame hf hadmits hrevive hd
      · obtain ⟨s, rfl⟩ := eq_settings_of_opens hf
        have hcont : c.continuationStream = none := by
          by_contra hne
          obtain ⟨e, he⟩ := admit_settings_ne hne s
          cases hadmits.symm.trans he
        obtain ⟨rfl, rfl⟩ := hd.settings_eq
        have happlied := settingsApplied { c with receivedAnyFrame := true } s
        exact h.settings hgen.decoded hadmits (hcarries raw s rfl hcont) { happlied with }

/-- Only `send_data` sends DATA. -/
theorem dataSent_step (h : ∀ sid data es, x ≠ .own (.sendData sid data es)) (sid : Nat) :
    dataSent sid (c.step x).sendBuf = dataSent sid c.sendBuf := by
  cases x with
  | malformed e => exact (replies_fatalError (.ping true []) c e).dataSent_eq.1 sid
  | overflow => exact (replies_fatalError (.ping true []) c _).dataSent_eq.1 sid
  | frame raw f => exact (replies_takeFrame c f).dataSent_eq.1 sid
  | own l =>
    cases l with
    | sendRequest headers es =>
      exact sendRequest_induction (P := fun c' => dataSent sid c'.sendBuf = dataSent sid c.sendBuf)
        rfl (dataSent_append sid _ _)
    | sendData j data es => exact absurd rfl (h j data es)
    | setMaxRecvBuf n => rfl
    | _ => exact dataSent_append sid _ _

/-- **One step sends within the credit.** -/
theorem sendsWithin_step (hshort : ShortData x) (h : Covered g c)
    (h' : Covered (recordCredit g c x) (c.step x)) : SendsWithin g c x := by
  refine ⟨?_, ?_, ?_, ?_⟩
  · rintro sid data es e rfl hres
    rcases sendData_cases c sid data es with ⟨e', heq⟩ | ⟨s, hmay, heq⟩
    · rw [step, own, heq]
    · rw [heq] at hres
      cases hres
  · rintro sid data es rfl hres
    rcases sendData_cases c sid data es with ⟨e', heq⟩ | ⟨s, hmay, heq⟩
    · rw [heq] at hres
      cases hres
    · have hmax : 0 < c.remoteSettings.maxFrameSize :=
        Nat.lt_of_lt_of_le (by decide) h.valid.maxFrameSize
      obtain ⟨init, last, hframes, hinit⟩ := dataFrames_eq sid es
        (dataChunks_ne_nil hmax data)
      refine ⟨init, last, ?_, ?_⟩
      · rw [step, own, heq, ← hframes]
        rfl
      · rw [← flatten_dataChunks hmax data, ← hinit]
        simp
  · intro sid hsent
    by_cases hx : ∃ j data es, x = .own (.sendData j data es)
    · obtain ⟨j, data, es, rfl⟩ := hx
      rw [step, own] at hsent ⊢
      rcases sendData_cases c j data es with ⟨e', heq⟩ | ⟨s, hmay, heq⟩
      · rw [heq] at hsent
        exact absurd rfl hsent
      · rw [heq] at hsent ⊢
        have hchunks := (sent_sendChunks h.valid j s data es).1 sid
        have hmod : data.length % 4294967296 = data.length := Nat.mod_eq_of_lt hshort
        have hwindow := hmay.window
        have hopen : s.core.state ≠ .closed := by
          rcases hmay.state with hs | hs <;> exact fun heq => by cases hs.symm.trans heq
        have hcovered := h.stream j s.core (coreAt_of_get? hmay.stream) hopen
        change s.sendWindow.window + _ ≤ _ at hcovered
        dsimp only at hsent ⊢
        rw [hmod] at hwindow
        split at hchunks
        · rename_i hj
          subst hj
          omega
        · omega
    · refine absurd (dataSent_step (fun j data es hj => hx ⟨j, data, es, hj⟩) sid) hsent
  · have := h'.nonneg
    have := h'.conn
    omega

end H2Connection

namespace Client

open H2Connection

theorem covered_new (settings : Settings) (order : Table.Order Nat H2Stream) :
    Covered .start (new settings order).conn := by
  have hsent : (∀ sid, dataSent sid (new settings order).conn.sendBuf = 0) ∧
      allDataSent (new settings order).conn.sendBuf = 0 := by
    refine dataSent_eq_zero _ fun g hg sid payload es heq => ?_
    rw [heq] at hg
    rcases mem_cons.mp hg with hg | hg
    · cases hg
    · split at hg
      · cases mem_singleton.mp hg
      · exact absurd hg not_mem_nil
  have hcore : ∀ sid, (new settings order).conn.coreAt sid = none := fun sid => by
    rw [coreAt]
    exact congrArg _ (Table.get?_empty sid)
  have hvalid : ({} : Settings).Valid := ⟨by decide, le_rfl⟩
  refine ⟨hvalid, rfl, Int.natCast_nonneg 65535, ?_, ?_, ?_, ?_, fun sid _ => hsent.1 sid⟩
  · rw [hsent.2]
    exact le_rfl
  all_goals
    intro sid k hk
    rw [hcore] at hk
    cases hk

/-- **DATA is sent within the credit** in every run in which no header block that ends a stream
comes for one that is closed.  SETTINGS carry the initial window here, and data is shorter than 2³²
bytes. -/
theorem data_within_credit (settings : Settings) (order : Table.Order Nat H2Stream)
    (calls : List Call)
    (hcarries : ∀ x ∈ (new settings order).traceOf calls, x.1.CarriesWindow x.2)
    (hshort : ∀ x ∈ (new settings order).traceOf calls, ShortData x.2)
    (hrevive : ∀ x ∈ (new settings order).traceOf calls, x.1.NoRevival x.2) :
    ∀ p ∈ (new settings order).historyOf recordCredit .start calls,
      SendsWithin p.1.1 p.1.2 p.2 := by
  have hstep : ∀ x ∈ (new settings order).traceOf calls, ∀ g, Covered g x.1 →
      Covered (recordCredit g x.1 x.2) (x.1.step x.2) := fun x hx g hg =>
    covered_step (genuine_traceOf _ calls x hx) (hcarries x hx) (hshort x hx) (hrevive x hx) hg
  intro p hp
  have hx := mem_traceOf_of_mem_historyOf hp
  have hcovered := historyOf_invariant _ (covered_new settings order) hstep p hp
  exact sendsWithin_step (hshort _ hx) hcovered (hstep _ hx _ hcovered)

/-- SETTINGS with an initial window of `257 * n`. -/
def initialWindow (n : UInt8) : List UInt8 := [0, 0, 6, 4, 0, 0, 0, 0, 0, 0, 4, 0, 0, n, n]

/-- The step in which `initialWindow n` is handled. -/
def initialWindowStep (n : UInt8) : ConnStep :=
  .frame (initialWindow n) (.settings false { initialWindowSize := n.toNat * 257 })

theorem carriesWindow_initialWindowStep (n : UInt8) (c : H2Connection) :
    c.CarriesWindow (initialWindowStep n) := by
  rintro raw s heq -
  cases heq
  rfl

/-- A request whose body is sent within an initial window of 257. -/
theorem data_within_credit_post :
    ((new .clientDefault .listed).stepsOf
        [.recv (initialWindow 1), .own (.sendRequest [] false), .own (.sendData 1 [0] true)] =
        [initialWindowStep 1, .own (.sendRequest [] false), .own (.sendData 1 [0] true)]) ∧
      ∀ p ∈ (new .clientDefault .listed).historyOf recordCredit .start
          [.recv (initialWindow 1), .own (.sendRequest [] false), .own (.sendData 1 [0] true)],
        SendsWithin p.1.1 p.1.2 p.2 := by
  have hsteps : (new .clientDefault .listed).stepsOf
      [.recv (initialWindow 1), .own (.sendRequest [] false), .own (.sendData 1 [0] true)] =
      [initialWindowStep 1, .own (.sendRequest [] false), .own (.sendData 1 [0] true)] := by rfl
  have hmem : ∀ x ∈ (new .clientDefault .listed).traceOf
      [.recv (initialWindow 1), .own (.sendRequest [] false), .own (.sendData 1 [0] true)],
      x.2 = initialWindowStep 1 ∨ x.2 = .own (.sendRequest [] false) ∨
        x.2 = .own (.sendData 1 [0] true) := by
    intro x hx
    have hx := Machine.mem_of_mem_trace hx
    rw [hsteps] at hx
    simpa using hx
  refine ⟨hsteps, data_within_credit .clientDefault .listed _ ?_ ?_ ?_⟩
  · rintro ⟨c, x⟩ hx
    rcases hmem _ hx with rfl | rfl | rfl
    · exact carriesWindow_initialWindowStep 1 c
    · exact fun _ _ h => by cases h
    · exact fun _ _ h => by cases h
  · rintro ⟨c, x⟩ hx
    rcases hmem _ hx with rfl | rfl | rfl
    · trivial
    · trivial
    · change [(0 : UInt8)].length < 4294967296
      decide
  · rintro ⟨c, x⟩ hx
    rcases hmem _ hx with rfl | rfl | rfl
    · rintro raw f b s heq hb
      cases heq
      cases hb
    · exact fun _ _ _ _ h => by cases h
    · exact fun _ _ _ _ h => by cases h

/-- **A revived stream overdraws its credit.**  The client resets stream 1, the peer closes all
windows, a header block for stream 1 that was on its way makes it half closed, and the client sends
a byte on it. -/
theorem revived_stream_overdraws :
    ∃ (settings : Settings) (order : Table.Order Nat H2Stream) (calls : List Call),
      (∀ x ∈ (new settings order).traceOf calls, x.1.CarriesWindow x.2) ∧
      (∀ x ∈ (new settings order).traceOf calls, ShortData x.2) ∧
      ∃ p ∈ (new settings order).historyOf recordCredit .start calls,
        ¬ SendsWithin p.1.1 p.1.2 p.2 := by
  let before : List ConnStep :=
    [.own (.sendRequest [] false), initialWindowStep 255, .own (.resetStream 1 .cancel),
      initialWindowStep 0,
      .frame okResponse (.headers 1 [0x88] true true none)]
  let calls : List Call :=
    [.own (.sendRequest [] false), .recv (initialWindow 255), .own (.resetStream 1 .cancel),
      .recv (initialWindow 0), .recv okResponse,
      .own (.sendData 1 [0] false)]
  have hsteps : (new .clientDefault .listed).stepsOf calls =
      before ++ [.own (.sendData 1 [0] false)] := by rfl
  refine ⟨.clientDefault, .listed, calls, ?_, ?_, _,
    mem_historyOf_last hsteps recordCredit .start, ?_⟩
  · rintro ⟨c, x⟩ hx
    have hx := Machine.mem_of_mem_trace hx
    rw [hsteps] at hx
    simp only [before, cons_append, nil_append, mem_cons, not_mem_nil,
      or_false] at hx
    rcases hx with rfl | rfl | rfl | rfl | rfl | rfl
    · exact fun _ _ h => by cases h
    · exact carriesWindow_initialWindowStep 255 c
    · exact fun _ _ h => by cases h
    · exact carriesWindow_initialWindowStep 0 c
    · exact fun _ _ h => by cases h
    · exact fun _ _ h => by cases h
  · rintro ⟨c, x⟩ hx
    have hx := Machine.mem_of_mem_trace hx
    rw [hsteps] at hx
    simp only [before, cons_append, nil_append, mem_cons, not_mem_nil,
      or_false] at hx
    rcases hx with rfl | rfl | rfl | rfl | rfl | rfl
    all_goals first | trivial | (change [(0 : UInt8)].length < 4294967296; decide)
  · intro h
    exact absurd (h.stream 1 (by decide)) (by decide)

end Client
end Ringline.H2
