import Ringline.H2.SettingsLaw

/-!
# The credit for receiving

A server that conforms to the protocol counts the whole payload of every DATA frame, padding
included, against the windows it was granted: 65535 and the WINDOW_UPDATE frames for the connection,
the advertised initial window and the WINDOW_UPDATE frames for a stream (`serverConn`,
`serverStream`).

Frames arrive in order.  So when the client handles a DATA frame, what the server had sent before it
is what the client has handled before it, and the server had read some beginning of what the client
has sent by now; `Conforms` says that the frame was within the windows then.  With such a server
the receive windows of the client are the send windows of the server, as far as the frames of each
side have reached the other (`windows_agree`), and DATA is never refused.

This needs two conditions.

* No DATA frame is padded.  The decoder removes the padding, and `handle_data` counts what is left,
  so the server loses the credit for the padding (`padding_loses_credit`).
* The initial window is at least 65535.  `H2Connection::new` takes it for the window of the
  connection, which the protocol fixes to 65535, and corrects this by a WINDOW_UPDATE only if it is
  larger.
-/

set_option autoImplicit false

namespace Ringline.H2

open List FlowControl

/-! ## The windows of the server -/

variable (sid : Nat)

/-- The credit that a frame of the client grants to a stream; stream 0 is the connection. -/
def increment : Frame → Nat
  | .windowUpdate sid' inc => if sid' = sid then inc else 0
  | _ => 0

/-- The credit that the frames of the client grant. -/
def granted (fs : List Frame) : Nat := (fs.map (increment sid)).sum

/-- The stream was opened by a frame of the client. -/
def Known (fs : List Frame) : Prop :=
  ∃ encoded es eh p, Frame.headers sid encoded es eh p ∈ fs

/-- The DATA that the server has sent, by length of payload, padding included. -/
structure Sent where
  conn : Nat
  stream : Nat → Nat

def Sent.start : Sent := ⟨0, fun _ => 0⟩

/-- A DATA frame of this length is sent. -/
def Sent.add (sent : Sent) (sid n : Nat) : Sent :=
  ⟨sent.conn + n, Function.update sent.stream sid (sent.stream sid + n)⟩

/-- The window of the connection for a server that has read `fs`. -/
def serverConn (fs : List Frame) (sent : Sent) : Int := 65535 + granted 0 fs - sent.conn

/-- The window of a stream for a server that has read `fs`. -/
def serverStream (initial : Nat) (fs : List Frame) (sent : Sent) (sid : Nat) : Int :=
  initial + granted sid fs - sent.stream sid

@[simp] theorem granted_append (fs gs : List Frame) :
    granted sid (fs ++ gs) = granted sid fs + granted sid gs := by
  simp [granted]

/-- What was read of the client's frames grants no more than all of them. -/
theorem granted_take_le (fs : List Frame) (n : Nat) : granted sid (fs.take n) ≤ granted sid fs := by
  conv_rhs => rw [← take_append_drop n fs, granted_append]
  omega

theorem Known.of_take {sid : Nat} {fs : List Frame} {n : Nat} (h : Known sid (fs.take n)) :
    Known sid fs := by
  obtain ⟨encoded, es, eh, p, hmem⟩ := h
  exact ⟨encoded, es, eh, p, mem_of_mem_take hmem⟩

namespace H2Connection

variable {c c' : H2Connection}

/-- The server's DATA, up to the step. -/
def recordSent (sent : Sent) (_ : H2Connection) : ConnStep → Sent
  | .frame raw (.data sid _ _) => sent.add sid (raw.length - 9)
  | _ => sent

/-- A server that has read a beginning of the frames `fs` knows the stream, and has the credit for
`len` bytes of DATA on it. -/
def WithinWindows (initial : Nat) (sent : Sent) (fs : List Frame) (sid len : Nat) : Prop :=
  ∃ n, Known sid (fs.take n) ∧ (len : Int) ≤ serverConn (fs.take n) sent ∧
    (len : Int) ≤ serverStream initial (fs.take n) sent sid

/-- DATA comes where a frame may come, and within the windows that the server had when it sent
it. -/
def Conforms (initial : Nat) (sent : Sent) (c : H2Connection) (x : ConnStep) : Prop :=
  ∀ raw sid payload es, x = .frame raw (.data sid payload es) →
    c.admits (.data sid payload es) = .ok () ∧
      WithinWindows initial sent c.sendBuf sid (raw.length - 9)

/-- DATA carries no padding. -/
def Unpadded (x : ConnStep) : Prop :=
  ∀ raw sid payload es, x = .frame raw (.data sid payload es) → payload.length = raw.length - 9

/-- The receive windows of the client are the windows of the server that has read all frames. -/
structure Agrees (initial : Nat) (sent : Sent) (c : H2Connection) : Prop where
  conn : c.connRecvWindow.window = serverConn c.sendBuf sent
  stream : ∀ sid s, c.streams.get? sid = some s →
    s.recvWindow.window = serverStream initial c.sendBuf sent sid

/-- DATA is not refused for lack of credit. -/
def TakesData (c : H2Connection) (x : ConnStep) : Prop :=
  ∀ raw sid payload es, x = .frame raw (.data sid payload es) →
    (c.handleData sid payload es).2 = .ok ()

/-- The windows agree, and stay between 0 and the initial window. -/
structure Balanced (initial : Nat) (sent : Sent) (c : H2Connection) : Prop
    extends Agrees initial sent c where
  initial_eq : c.initialRecvWindow = initial
  connRange : 0 ≤ c.connRecvWindow.window ∧ c.connRecvWindow.window ≤ initial
  streamRange : ∀ sid s, c.streams.get? sid = some s →
    0 ≤ s.recvWindow.window ∧ s.recvWindow.window ≤ initial
  zero : c.streams.get? 0 = none ∧ 0 < c.nextStreamId
  known : ∀ sid, Known sid c.sendBuf → sid < c.nextStreamId
  fresh : ∀ sid, c.nextStreamId ≤ sid → c.streams.get? sid = none ∧ granted sid c.sendBuf = 0 ∧
    sent.stream sid = 0

/-! ## Steps without DATA -/

/-- Frames that neither grant credit nor open a stream. -/
def Plain : Frame → Prop
  | .windowUpdate _ _ | .headers _ _ _ _ _ => False
  | _ => True

/-- A stream before and after, with the same receive window. -/
def SameRecv (s s' : H2Stream) : Prop := s'.recvWindow = s.recvWindow

/-- Nothing changes for the receive windows. -/
structure Aside (c c' : H2Connection) : Prop where
  conn : c'.connRecvWindow = c.connRecvWindow
  initial : c'.initialRecvWindow = c.initialRecvWindow
  next : c'.nextStreamId = c.nextStreamId
  sendBuf : ∃ fs, c'.sendBuf = c.sendBuf ++ fs ∧ ∀ g ∈ fs, Plain g
  streams : Table.Backed SameRecv c.streams c'.streams

theorem granted_of_plain {fs : List Frame} (h : ∀ g ∈ fs, Plain g) (sid : Nat) :
    granted sid fs = 0 := by
  induction fs with
  | nil => rfl
  | cons g fs ih =>
    rw [← singleton_append, granted_append, ih fun g hg => h g (mem_cons_of_mem _ hg)]
    have hg := h g mem_cons_self
    cases g with
    | windowUpdate sid inc => exact hg.elim
    | _ => rfl

theorem Aside.granted_eq (h : Aside c c') (sid : Nat) :
    granted sid c'.sendBuf = granted sid c.sendBuf := by
  obtain ⟨fs, hfs, hplain⟩ := h.sendBuf
  rw [hfs, granted_append, granted_of_plain hplain, Nat.add_zero]

variable {sid initial : Nat} {sent : Sent} {r : Except H2Error Unit}

theorem Aside.known (h : Aside c c') (hk : Known sid c'.sendBuf) : Known sid c.sendBuf := by
  obtain ⟨fs, hfs, hplain⟩ := h.sendBuf
  obtain ⟨encoded, es, eh, p, hmem⟩ := hk
  rw [hfs, mem_append] at hmem
  rcases hmem with hmem | hmem
  · exact ⟨encoded, es, eh, p, hmem⟩
  · exact (hplain _ hmem).elim

/-- **The balance is kept** if each window is again that of the server, and within its range. -/
theorem Balanced.moved {sent' : Sent} (h : Balanced initial sent c)
    (hinitial : c'.initialRecvWindow = c.initialRecvWindow)
    (hnext : c'.nextStreamId = c.nextStreamId)
    (hconn : c'.connRecvWindow.window = serverConn c'.sendBuf sent')
    (hrange : 0 ≤ c'.connRecvWindow.window ∧ c'.connRecvWindow.window ≤ initial)
    (hstreams : ∀ sid s', c'.streams.get? sid = some s' → (∃ s, c.streams.get? sid = some s) ∧
      s'.recvWindow.window = serverStream initial c'.sendBuf sent' sid ∧
      0 ≤ s'.recvWindow.window ∧ s'.recvWindow.window ≤ initial)
    (hknown : ∀ sid, Known sid c'.sendBuf → Known sid c.sendBuf)
    (hfresh : ∀ sid, c.nextStreamId ≤ sid → granted sid c'.sendBuf = granted sid c.sendBuf ∧
      sent'.stream sid = sent.stream sid) : Balanced initial sent' c' := by
  have hnone : ∀ sid, c.streams.get? sid = none → c'.streams.get? sid = none := by
    intro sid hsid
    refine Option.eq_none_iff_forall_ne_some.mpr fun s' hs' => ?_
    obtain ⟨⟨s, hs⟩, -⟩ := hstreams sid s' hs'
    cases hsid.symm.trans hs
  refine ⟨⟨hconn, fun sid s' hs' => (hstreams sid s' hs').2.1⟩, hinitial.trans h.initial_eq, hrange,
    fun sid s' hs' => (hstreams sid s' hs').2.2, ?_, ?_, ?_⟩ <;> rw [hnext]
  · exact ⟨hnone 0 h.zero.1, h.zero.2⟩
  · exact fun sid hsid => h.known sid (hknown sid hsid)
  · intro sid hsid
    obtain ⟨hfree, hgranted, hsent⟩ := h.fresh sid hsid
    obtain ⟨hg, hs⟩ := hfresh sid hsid
    exact ⟨hnone sid hfree, hg.trans hgranted, hs.trans hsent⟩

/-- **Steps aside keep the balance.** -/
theorem Balanced.aside (h : Balanced initial sent c) (ha : Aside c
    c') : Balanced initial sent c' := by
  refine h.moved ha.initial ha.next ?_ ?_ (fun sid s' hs' => ?_) (fun _ => ha.known)
    fun sid _ => ⟨ha.granted_eq sid, rfl⟩
  · rw [ha.conn, h.conn, serverConn, serverConn, ha.granted_eq]
  · rw [ha.conn]
    exact h.connRange
  · obtain ⟨s, hs, heq⟩ := ha.streams sid s' hs'
    rw [SameRecv] at heq
    rw [heq]
    refine ⟨⟨s, hs⟩, ?_, h.streamRange sid s hs⟩
    rw [h.stream sid s hs, serverStream, serverStream, ha.granted_eq]

theorem Aside.of_streams (hstreams : Table.Backed SameRecv c.streams c'.streams)
    (hconn : c'.connRecvWindow = c.connRecvWindow := by rfl)
    (hinitial : c'.initialRecvWindow = c.initialRecvWindow := by rfl)
    (hnext : c'.nextStreamId = c.nextStreamId := by rfl)
    (hsendBuf : c'.sendBuf = c.sendBuf := by rfl) : Aside c c' :=
  ⟨hconn, hinitial, hnext, ⟨[], by rw [hsendBuf, append_nil], nofun⟩, hstreams⟩

theorem Aside.trans {a b : H2Connection} (h₁ : Aside a b) (h₂ : Aside b c) : Aside a c := by
  obtain ⟨fs, hfs, hplain⟩ := h₁.sendBuf
  obtain ⟨gs, hgs, hplain'⟩ := h₂.sendBuf
  refine ⟨h₂.conn.trans h₁.conn, h₂.initial.trans h₁.initial, h₂.next.trans h₁.next,
    ⟨fs ++ gs, by rw [hgs, hfs, append_assoc], fun g hg => ?_⟩,
    .trans (fun h h' => h'.trans h) h₁.streams h₂.streams⟩
  rcases mem_append.mp hg with hg | hg
  · exact hplain g hg
  · exact hplain' g hg

/-- A frame is sent that says nothing about windows. -/
theorem Aside.emits {g : Frame} (hsendBuf : c'.sendBuf = c.sendBuf ++ [g]) (hg : Plain g)
    (hstreams : Table.Backed SameRecv c.streams c'.streams)
    (hconn : c'.connRecvWindow = c.connRecvWindow := by rfl)
    (hinitial : c'.initialRecvWindow = c.initialRecvWindow := by rfl)
    (hnext : c'.nextStreamId = c.nextStreamId := by rfl) : Aside c c' :=
  ⟨hconn, hinitial, hnext, ⟨[g], hsendBuf, forall_mem_singleton.mpr hg⟩, hstreams⟩

theorem SameRecv.refl (s : H2Stream) : SameRecv s s := rfl

theorem backed_refl (t : Table Nat H2Stream) : Table.Backed SameRecv t t := .refl SameRecv.refl t

theorem backed_modify (t : Table Nat H2Stream) (k : Nat) (g : H2Stream → H2Stream)
    (hg : ∀ s, SameRecv s (g s)) : Table.Backed SameRecv t (t.modify k g) :=
  .modify SameRecv.refl fun s _ => hg s

section

variable (c : H2Connection)

theorem Aside.refl : Aside c c := .of_streams (backed_refl _)

theorem aside_fatalError (e : H2Error) : Aside c (c.fatalError e) := by
  rw [fatalError]
  split
  · exact .refl c
  · exact .emits (g := .goAway _ e.code []) rfl trivial (backed_refl _)

theorem aside_takeBlock (f : Frame) : Aside c (c.takeBlock f) := by
  cases f with
  | headers sid encoded es eh p =>
    refine .of_streams (backed_modify _ _ _ ?_)
    exact fun _ => rfl
  | continuation sid encoded eh =>
    refine .of_streams (backed_modify _ _ _ ?_)
    exact fun _ => rfl
  | _ => exact .refl c

theorem aside_deliverHeaders (sid : Nat) (s : H2Stream) (headers : List HeaderField) (es : Bool) :
    Aside c (c.deliverHeaders sid s headers es) := by
  have hmodify : Table.Backed SameRecv c.streams (c.streams.modify sid fun st =>
      { st with receivedInitialResponse := true, state := s.state.remote es }) :=
    backed_modify _ _ _ fun _ => rfl
  rw [deliverHeaders]
  split
  · exact .of_streams (hmodify.erase sid)
  · exact .of_streams hmodify

end

theorem aside_resetAll (ids : List Nat) (c : H2Connection) : Aside c (c.resetAll ids) := by
  induction ids generalizing c with
  | nil => exact .refl c
  | cons id ids ih =>
    have herase : Aside c (({ c with streams := c.streams.erase id } : H2Connection).push
        (.streamReset id .refusedStream)) :=
      .of_streams ((backed_refl _).erase id)
    exact herase.trans (ih _)

theorem BlockOutcome.aside {b : Block} (h : BlockOutcome c b c' r) : Aside c c' := by
  have hdecoded : Aside c (c.withDecoded b) := .of_streams (backed_refl _)
  cases h with
  | tooLong e => exact .refl c
  | refused e => exact hdecoded
  | gone hgone => exact hdecoded
  | delivered s headers hs hdec hcheck => exact hdecoded.trans (aside_deliverHeaders _ _ s headers _)

/-- Only DATA touches the receive windows. -/
theorem Dispatched.aside {f : Frame} (h : Dispatched c f c' r)
    (hf : ∀ sid payload es, f ≠ .data sid payload es) : Aside c c' := by
  cases h with
  | settings s =>
    have happlied := settingsApplied c s
    have hstreams : Table.Backed SameRecv c.streams (c.handleSettings false s).1.streams := by
      intro sid s' hs'
      have hadj := happlied.adjusted sid
      rw [hs'] at hadj
      generalize hs : c.streams.get? sid = o at hadj
      cases hadj with
      | same => exact ⟨s', rfl, rfl⟩
      | @moved st hopen hle => exact ⟨st, rfl, rfl⟩
    rcases happlied.sendBuf with hsend | hsend
    · exact .of_streams hstreams happlied.connRecvWindow happlied.initialRecvWindow
        happlied.nextStreamId hsend
    · exact .emits hsend trivial hstreams happlied.connRecvWindow happlied.initialRecvWindow
        happlied.nextStreamId
  | headersBegun hs =>
    refine .of_streams (backed_modify _ _ _ ?_)
    exact fun _ => rfl
  | headersContinued hs =>
    refine .of_streams (backed_modify _ _ _ ?_)
    exact fun _ => rfl
  | block hb h => exact (aside_takeBlock c f).trans h.aside
  | dataRefused => exact absurd rfl (hf _ _ _)
  | dataOverrun => exact absurd rfl (hf _ _ _)
  | dataDelivered => exact absurd rfl (hf _ _ _)
  | reset sid code => exact .of_streams ((backed_refl _).erase sid)
  | ping data => exact .emits rfl trivial (backed_refl _)
  | goAway last code debugData =>
    have hclosing : Aside c (({ c with peerLastStreamId := some last, state := .closing } :
        H2Connection).push (.goAway last code debugData)) :=
      .of_streams (backed_refl _)
    exact hclosing.trans (aside_resetAll _ _)
  | creditUnknown hsid hgone => exact .emits rfl trivial (backed_refl _)
  | credit hsid hs hw =>
    refine .of_streams (backed_modify _ _ _ ?_)
    exact fun _ => rfl
  | @creditOverflow sid inc s hsid hs hw =>
    exact .emits rfl trivial ((backed_refl _).erase sid)
  | pushRefused sid promised encoded eh => exact .emits rfl trivial (backed_refl _)
  | _ => exact .of_streams (backed_refl _)

/-! ## DATA -/

/-- What is missing up to `m` makes `m`. -/
theorem add_asU32_sub {n m : Int} (h₀ : 0 ≤ n) (h₁ : n ≤ m) (hm : m < 4294967296) :
    n + (asU32 (m - n) : Int) = m := by
  rw [asU32, Int.emod_eq_of_lt (by omega) (by omega), Int.toNat_of_nonneg (by omega)]
  omega

theorem granted_windowUpdate (sid k inc : Nat) :
    granted sid [.windowUpdate k inc] = if k = sid then inc else 0 := by
  simp [granted, increment]

theorem known_append_windowUpdate {k inc : Nat} {fs : List Frame}
    (h : Known sid (fs ++ [.windowUpdate k inc])) : Known sid fs := by
  obtain ⟨encoded, es, eh, p, hmem⟩ := h
  rcases mem_append.mp hmem with hmem | hmem
  · exact ⟨encoded, es, eh, p, hmem⟩
  · cases mem_singleton.mp hmem

theorem granted_snoc_of_ne {k : Nat} (h : sid ≠ k) (fs : List Frame) (inc : Nat) :
    granted sid (fs ++ [.windowUpdate k inc]) = granted sid fs := by
  rw [granted_append, granted_windowUpdate, if_neg (Ne.symm h), Nat.add_zero]

theorem Sent.add_stream_of_ne {k : Nat} (h : sid ≠ k) (sent : Sent) (n : Nat) :
    (sent.add k n).stream sid = sent.stream sid := by
  simp only [Sent.add, Function.update_of_ne h]

theorem serverConn_add (fs : List Frame) (sent : Sent) (sid n : Nat) :
    serverConn fs (sent.add sid n) = serverConn fs sent - n := by
  simp only [serverConn, Sent.add]
  omega

section

variable {w : FlowControl} {s : H2Stream} {n : Nat}

section

variable (h : Balanced initial sent c)

include h

section

variable (hs : c.streams.get? sid = some s)

include hs

theorem Balanced.ne_zero : sid ≠ 0 := by
  rintro rfl
  cases h.zero.1.symm.trans hs

theorem Balanced.lt_next : sid < c.nextStreamId := by
  by_contra hle
  cases (h.fresh sid (Nat.le_of_not_lt hle)).1.symm.trans hs

/-- DATA is taken off both windows. -/
theorem Balanced.debit {g : H2Stream → H2Stream} (hw : w.window = c.connRecvWindow.window - n)
    (hconn : (n : Int) ≤ c.connRecvWindow.window)
    (hg : (g s).recvWindow.window = s.recvWindow.window - n)
    (hstream : (n : Int) ≤ s.recvWindow.window) : Balanced initial (sent.add sid n)
      { c with connRecvWindow := w, streams := c.streams.modify sid g } := by
  have hconnRange := h.connRange
  have hrange := h.streamRange sid s hs
  refine h.moved rfl rfl ?_ (by dsimp only; omega) (fun j s' hs' => ?_) (fun _ => id) fun j hj =>
    ⟨rfl, Sent.add_stream_of_ne (Nat.ne_of_gt ((h.lt_next hs).trans_le hj)) _ _⟩
  · rw [hw, h.conn, serverConn_add]
  · rcases Table.get?_modify_eq_some hs hs' with ⟨rfl, rfl⟩ | ⟨hne, hs'⟩
    · refine ⟨⟨s, hs⟩, ?_, by omega⟩
      rw [hg, h.stream j s hs, serverStream, serverStream, Sent.add]
      simp only [Function.update_self]
      push_cast
      omega
    · refine ⟨⟨s', hs'⟩, ?_, h.streamRange j s' hs'⟩
      rw [h.stream j s' hs', serverStream, serverStream, Sent.add_stream_of_ne hne]

end

/-- A WINDOW_UPDATE for the connection, with the credit it grants. -/
theorem Balanced.creditConn {inc : Nat} (hw : w.window = c.connRecvWindow.window + inc)
    (hle : w.window ≤ initial) : Balanced initial sent
      { c with connRecvWindow := w, sendBuf := c.sendBuf ++ [.windowUpdate 0 inc] } := by
  have hrange := h.connRange
  have hzero := h.zero.2
  refine h.moved rfl rfl ?_ ⟨by dsimp only; omega, hle⟩ (fun sid s hs => ?_)
    (fun _ => known_append_windowUpdate) fun sid hsid =>
      ⟨granted_snoc_of_ne (Nat.ne_of_gt (hzero.trans_le hsid)) _ _, rfl⟩
  · rw [hw, h.conn, serverConn, serverConn, granted_append, granted_windowUpdate, if_pos rfl]
    push_cast
    omega
  · refine ⟨⟨s, hs⟩, ?_, h.streamRange sid s hs⟩
    rw [h.stream sid s hs, serverStream, serverStream, granted_snoc_of_ne (h.ne_zero hs)]

/-- A WINDOW_UPDATE for a stream, with the credit it grants. -/
theorem Balanced.creditStream {k inc : Nat} (hs : c.streams.get? k = some s)
    {g : H2Stream → H2Stream} (hw : (g s).recvWindow.window = s.recvWindow.window + inc)
    (hle : (g s).recvWindow.window ≤ initial) : Balanced initial sent
      { c with
        streams := c.streams.modify k g
        sendBuf := c.sendBuf ++ [.windowUpdate k inc] } := by
  have hrange := h.streamRange k s hs
  refine h.moved rfl rfl ?_ h.connRange (fun sid s' hs' => ?_)
    (fun _ => known_append_windowUpdate) fun sid hsid =>
      ⟨granted_snoc_of_ne (Nat.ne_of_gt ((h.lt_next hs).trans_le hsid)) _ _, rfl⟩
  · rw [h.conn, serverConn, serverConn, granted_snoc_of_ne (Ne.symm (h.ne_zero hs))]
  · rcases Table.get?_modify_eq_some hs hs' with ⟨rfl, rfl⟩ | ⟨hne, hs'⟩
    · refine ⟨⟨s, hs⟩, ?_, by omega, hle⟩
      rw [hw, h.stream sid s hs, serverStream, serverStream, granted_append, granted_windowUpdate,
        if_pos rfl]
      push_cast
      omega
    · refine ⟨⟨s', hs'⟩, ?_, h.streamRange sid s' hs'⟩
      rw [h.stream sid s' hs', serverStream, serverStream, granted_snoc_of_ne hne]

/-- DATA for a stream that is gone is taken off the window of the connection. -/
theorem Balanced.debitConn (hknown : sid < c.nextStreamId)
    (hw : w.window = c.connRecvWindow.window - n) (hconn : (n : Int) ≤ c.connRecvWindow.window) :
    Balanced initial (sent.add sid n)
      { c with connRecvWindow := w, streams := c.streams.erase sid } := by
  have hrange := h.connRange
  refine h.moved rfl rfl ?_ (by dsimp only; omega) (fun j s hs => ?_) (fun _ => id) fun j hj =>
    ⟨rfl, Sent.add_stream_of_ne (Nat.ne_of_gt (hknown.trans_le hj)) _ _⟩
  · rw [hw, h.conn, serverConn_add]
  · obtain ⟨hne, hs⟩ := Table.get?_erase_eq_some hs
    refine ⟨⟨s, hs⟩, ?_, h.streamRange j s hs⟩
    rw [h.stream j s hs, serverStream, serverStream, Sent.add_stream_of_ne hne]

section

variable (hinitial : initial ≤ 0x7fffffff)

include hinitial

theorem Balanced.updateConnWindow : Balanced initial sent c.updateConnWindow := by
  rw [H2Connection.updateConnWindow]
  split
  · obtain ⟨h₀, h₁⟩ := h.connRange
    have hsum : c.connRecvWindow.window +
        (asU32 (c.initialRecvWindow - c.connRecvWindow.window) : Int) = initial := by
      rw [h.initial_eq]
      exact add_asU32_sub h₀ h₁ (by omega)
    rw [increaseOrKeep_of_le (by omega)]
    exact h.creditConn rfl hsum.le
  · exact h

theorem Balanced.updateStreamWindow (sid : Nat) :
    Balanced initial sent (c.updateStreamWindow sid) := by
  rw [H2Connection.updateStreamWindow]
  split
  · exact h
  · rename_i s hs
    dsimp only
    split
    · obtain ⟨h₀, h₁⟩ := h.streamRange sid s hs
      have hsum : s.recvWindow.window +
          (asU32 (c.initialRecvWindow - s.recvWindow.window) : Int) = initial := by
        rw [h.initial_eq]
        exact add_asU32_sub h₀ h₁ (by omega)
      have hkeep : s.recvWindow.increaseOrKeep
          (asU32 (c.initialRecvWindow - s.recvWindow.window)) = ⟨s.recvWindow.window +
            (asU32 (c.initialRecvWindow - s.recvWindow.window) : Int)⟩ :=
        increaseOrKeep_of_le (by omega)
      exact h.creditStream (g := fun s => { s with recvWindow := s.recvWindow.increaseOrKeep _ }) hs
        (congrArg window hkeep) ((congrArg window hkeep).trans_le hsum.le)
    · exact h

theorem Balanced.maybeSendWindowUpdates (sid n : Nat) :
    Balanced initial sent (c.maybeSendWindowUpdates sid n) := by
  rw [H2Connection.maybeSendWindowUpdates]
  split
  · exact h
  · exact (h.updateConnWindow hinitial).updateStreamWindow hinitial sid

/-- DATA for a stream that is gone is taken off the window of the connection and put back. -/
theorem Balanced.refuse (hknown : sid < c.nextStreamId)
    (hw : w.window = c.connRecvWindow.window - n) (hconn : (n : Int) ≤ c.connRecvWindow.window) :
    Balanced initial (sent.add sid n)
      { ({ c with connRecvWindow := w } : H2Connection).refuseData sid n with
        streams := c.streams.erase sid } := by
  have hdebit := h.debitConn hknown hw hconn
  have hrst : ∀ c' : H2Connection, Balanced initial (sent.add sid n) c' →
      Balanced initial (sent.add sid n) (c'.emit (.rstStream sid .streamClosed)) := fun c' h' =>
    h'.aside (.emits (g := .rstStream sid .streamClosed) rfl trivial (backed_refl _))
  have hrange := h.connRange
  rw [refuseData]
  split
  · have hback : w.increaseOrKeep n = ⟨w.window + n⟩ :=
      increaseOrKeep_of_le (by omega)
    exact hrst _ (hdebit.creditConn (congrArg window hback)
      ((congrArg window hback).trans_le (by dsimp only; omega)))
  · exact hrst _ hdebit

/-- DATA for a stream that takes it. -/
theorem Balanced.deliver (hs : c.streams.get? sid = some s) {rw : FlowControl}
    {payload : List UInt8} (hw : w.window = c.connRecvWindow.window - payload.length)
    (hconn : (payload.length : Int) ≤ c.connRecvWindow.window)
    (hrw : rw.window = s.recvWindow.window - payload.length)
    (hstream : (payload.length : Int) ≤ s.recvWindow.window) (es : Bool) :
    Balanced initial (sent.add sid payload.length)
      (({ c with connRecvWindow := w } : H2Connection).deliverData sid s rw payload es) := by
  have hdebit := (h.debit (g := fun st => { st with recvWindow := rw, state := s.state.remote es })
    hs hw hconn hrw hstream).aside (show Aside _ (({ c with
      connRecvWindow := w
      streams := c.streams.modify sid fun st =>
        { st with recvWindow := rw, state := s.state.remote es } } : H2Connection).push
          (.data sid payload es)) from .of_streams (backed_refl _))
  have hupdated := hdebit.maybeSendWindowUpdates hinitial sid (payload.length % 4294967296)
  rw [deliverData]
  split
  · exact hupdated.aside (.of_streams ((backed_refl _).erase sid))
  · exact hupdated

end

end

end

variable {raw payload : List UInt8} {es : Bool}

theorem Genuine.data (h : c.Genuine (.frame raw (.data sid payload es))) :
    sid ≠ 0 ∧ raw.length - 9 < 2 ^ 24 := by
  obtain ⟨head, hframed⟩ := decodeFrame_eq_some h.2
  have hsize := hframed.size
  have hlt := decodeFrameHeader_length_lt hframed.header
  exact ⟨(decodePayload_data hframed.payload).1, by omega⟩

/-- **DATA within the windows is taken**, and the windows still agree. -/
theorem Balanced.data (h : Balanced initial sent c) (hinitial : initial ≤ 0x7fffffff)
    (hgen : c.Genuine (.frame raw (.data sid payload es)))
    (hwithin : WithinWindows initial sent c.sendBuf sid (raw.length - 9))
    (hunpadded : Unpadded (.frame raw (.data sid payload es)))
    (hd : Dispatched c (.data sid payload es) c' r) :
    r = .ok () ∧ Balanced initial (sent.add sid (raw.length - 9)) c' := by
  obtain ⟨hsid, hlt⟩ := hgen.data
  obtain ⟨n, hknown, hconn, hstream⟩ := hwithin
  rw [← hunpadded raw sid payload es rfl] at hlt hconn hstream ⊢
  have hmod : payload.length % 4294967296 = payload.length := Nat.mod_eq_of_lt (by omega)
  have hnext := h.known sid hknown.of_take
  -- the server had read at most what the client has sent
  have hconn' : (payload.length : Int) ≤ c.connRecvWindow.window := by
    have := granted_take_le 0 c.sendBuf n
    rw [serverConn] at hconn
    rw [h.conn, serverConn]
    omega
  have hstream' : ∀ s, c.streams.get? sid = some s →
      (payload.length : Int) ≤ s.recvWindow.window := by
    intro s hs
    have := granted_take_le sid c.sendBuf n
    rw [serverStream] at hstream
    rw [h.stream sid s hs, serverStream]
    omega
  cases hd with
  | ignored hp => exact hp.elim
  | failed hfails e =>
    have hfails : c.connRecvWindow.window < (payload.length % 4294967296 : Nat) := hfails
    omega
  | block hb => cases hb
  | dataRefused hw hgone =>
    rw [hmod] at hw ⊢
    exact ⟨rfl, h.refuse hinitial hnext (debit_eq_ok hw).1 hconn'⟩
  | dataOverrun hw hs hclosed hremote hover e =>
    have := hstream' _ hs
    omega
  | dataDelivered hw hs hclosed hremote hrw =>
    rw [hmod] at hw hrw
    exact ⟨rfl, h.deliver hinitial hs (debit_eq_ok hw).1 hconn'
      (debit_eq_ok hrw).1 (hstream' _ hs) es⟩

/-! ## Steps -/

/-- A stream is opened with the initial window. -/
theorem Balanced.opened {st : H2Stream} {encoded : List UInt8} (es : Bool)
    (h : Balanced initial sent c) (hst : st.recvWindow.window = initial)
    (hconn : c'.connRecvWindow = c.connRecvWindow)
    (hinitial : c'.initialRecvWindow = c.initialRecvWindow)
    (hnext : c'.nextStreamId = c.nextStreamId + 2)
    (hsendBuf : c'.sendBuf = c.sendBuf ++ [.headers c.nextStreamId encoded es true none])
    (hstreams : c'.streams = c.streams.insert c.nextStreamId st) : Balanced initial sent c' := by
  have hgranted : ∀ sid, granted sid c'.sendBuf = granted sid c.sendBuf := fun sid => by
    rw [hsendBuf]
    exact (granted_append sid _ _).trans (Nat.add_zero _)
  have hcases : ∀ sid s, c'.streams.get? sid = some s →
      sid = c.nextStreamId ∧ s = st ∨ c.streams.get? sid = some s := by
    intro sid s hs
    rw [hstreams, Table.get?_insert] at hs
    split at hs
    · rename_i hsid
      exact .inl ⟨hsid, (Option.some.inj hs).symm⟩
    · exact .inr hs
  have hnone : ∀ sid, sid ≠ c.nextStreamId → c.streams.get? sid = none →
      c'.streams.get? sid = none := by
    intro sid hsid hfree
    rw [hstreams, Table.get?_insert, if_neg hsid]
    exact hfree
  have hzero := h.zero
  refine ⟨⟨?_, fun sid s hs => ?_⟩, hinitial.trans h.initial_eq, ?_, fun sid s hs => ?_,
    ⟨hnone 0 (by omega) hzero.1, by omega⟩, fun sid hsid => ?_, fun sid hsid => ?_⟩
  · rw [hconn, h.conn, serverConn, serverConn, hgranted]
  · rcases hcases sid s hs with ⟨rfl, rfl⟩ | hs
    · obtain ⟨-, hfresh, hsent⟩ := h.fresh c.nextStreamId le_rfl
      rw [hst, serverStream, hgranted, hfresh, hsent]
      omega
    · rw [h.stream sid s hs, serverStream, serverStream, hgranted]
  · rw [hconn]
    exact h.connRange
  · rcases hcases sid s hs with ⟨rfl, rfl⟩ | hs
    · omega
    · exact h.streamRange sid s hs
  · obtain ⟨encoded', es', eh, p, hmem⟩ := hsid
    rw [hsendBuf] at hmem
    rcases mem_append.mp hmem with hmem | hmem
    · have := h.known sid ⟨encoded', es', eh, p, hmem⟩
      omega
    · cases mem_singleton.mp hmem
      omega
  · obtain ⟨hfree, hfresh, hsent⟩ := h.fresh sid (by omega)
    exact ⟨hnone sid (by omega) hfree, (hgranted sid).trans hfresh, hsent⟩

theorem aside_sendChunks (c : H2Connection) (sid : Nat) (s : H2Stream) (data : List UInt8)
    (es : Bool) : Aside c (c.sendChunks sid s data es) := by
  refine ⟨rfl, rfl, rfl, ⟨_, rfl, fun g hg => ?_⟩, backed_modify _ _ _ ?_⟩
  · obtain ⟨chunk, -, e, rfl⟩ := mem_dataFrames hg
    trivial
  · exact fun _ => rfl

/-- **One step.**  The windows go on agreeing, and DATA is taken. -/
theorem balanced_step {x : ConnStep} (hinitial : initial ≤ 0x7fffffff) (hgen : c.Genuine x)
    (hconforms : Conforms initial sent c x) (hunpadded : Unpadded x) (h : Balanced initial sent c) :
    Balanced initial (recordSent sent c x) (c.step x) := by
  cases x with
  | malformed e => exact h.aside (aside_fatalError c e)
  | overflow => exact h.aside (aside_fatalError c _)
  | own l =>
    cases l with
    | setMaxRecvBuf n => exact h.aside (.of_streams (backed_refl _))
    | sendRequest headers es =>
      refine sendRequest_induction (P := Balanced initial sent) h
        (h.opened es ?_ rfl rfl rfl rfl rfl)
      rw [← h.initial_eq]
      split <;> rfl
    | sendData sid data es =>
      exact sendData_induction (P := Balanced initial sent) h fun s _ =>
        h.aside (aside_sendChunks c sid s data es)
    | resetStream sid code =>
      refine h.aside (.emits rfl trivial (backed_modify _ _ _ ?_))
      exact fun _ => rfl
    | sendPing => exact h.aside (.emits rfl trivial (backed_refl _))
    | sendGoaway code => exact h.aside (.emits rfl trivial (backed_refl _))
  | frame raw f =>
    rw [step]
    have h' : Balanced initial sent { c with receivedAnyFrame := true } := { h with }
    rcases takeFrame_cases c f with ⟨e, b, hadmits, hc⟩ | ⟨hadmits, c', r, hd, hc⟩
    · -- DATA is admitted, so this is another frame
      have hsent : recordSent sent c (.frame raw f) = sent := by
        cases f with
        | data sid payload es =>
          cases (hconforms raw sid payload es rfl).1.symm.trans hadmits
        | _ => rfl
      rw [hc, hsent]
      have hany : Balanced initial sent { c with receivedAnyFrame := b } := { h with }
      exact hany.aside (aside_fatalError _ e)
    · rw [hc]
      by_cases hdata : ∃ sid payload es, f = .data sid payload es
      · obtain ⟨sid, payload, es, rfl⟩ := hdata
        have hwithin := (hconforms raw sid payload es rfl).2
        obtain ⟨rfl, hbal⟩ := h'.data hinitial hgen hwithin hunpadded hd
        exact hbal
      · have hother : ∀ sid payload es, f ≠ .data sid payload es :=
          fun sid payload es heq => hdata ⟨sid, payload, es, heq⟩
        have hsent : recordSent sent c (.frame raw f) = sent := by
          cases f with
          | data sid payload es => exact absurd rfl (hother sid payload es)
          | _ => rfl
        rw [hsent]
        have hbal := h'.aside (hd.aside hother)
        rcases r with e | ⟨⟩
        · exact hbal.aside (aside_fatalError _ e)
        · exact hbal

theorem takesData_step {x : ConnStep} (hinitial : initial ≤ 0x7fffffff) (hgen : c.Genuine x)
    (hconforms : Conforms initial sent c x) (hunpadded : Unpadded x) (h : Balanced initial sent c) :
    TakesData c x := by
  rintro raw sid payload es rfl
  have hwithin := (hconforms raw sid payload es rfl).2
  exact (h.data hinitial hgen hwithin hunpadded (handleData_cases c sid payload es)).1

end H2Connection

namespace Client

open H2Connection

variable (settings : Settings) (order : Table.Order Nat H2Stream)

theorem granted_new (sid : Nat) : granted sid (new settings order).conn.sendBuf =
      if sid = 0 then settings.initialWindowSize - 65535 else 0 := by
  have hsend : (new settings order).conn.sendBuf = .settings false settings ::
      if (settings.initialWindowSize : Int) > defaultWindowSize then
        [.windowUpdate 0 (settings.initialWindowSize - 65535)]
      else [] := rfl
  rw [hsend, ← singleton_append, granted_append]
  rw [show granted sid [.settings false settings] = 0 from rfl, Nat.zero_add, defaultWindowSize]
  split
  · rw [granted_windowUpdate]
    simp only [eq_comm]
  · rw [show granted sid [] = 0 from rfl]
    split <;> omega

/-- **The windows agree at the start** if and only if the initial window is at least that of the
protocol. -/
theorem agrees_new_iff : Agrees settings.initialWindowSize .start (new settings order).conn ↔
      65535 ≤ settings.initialWindowSize := by
  have hserver : serverConn (new settings order).conn.sendBuf .start =
      65535 + ((settings.initialWindowSize - 65535 : Nat) : Int) := by
    rw [serverConn, granted_new, if_pos rfl]
    exact Int.sub_zero _
  have hclient : (new settings order).conn.connRecvWindow.window = settings.initialWindowSize := rfl
  constructor
  · intro h
    have hconn := h.conn
    rw [hserver, hclient] at hconn
    omega
  · intro hbig
    refine ⟨?_, fun sid s hs => ?_⟩
    · rw [hserver, hclient]
      omega
    · cases (Table.get?_empty sid).symm.trans hs

theorem balanced_new {settings : Settings} (order : Table.Order Nat H2Stream)
    (hbig : 65535 ≤ settings.initialWindowSize) :
    Balanced settings.initialWindowSize .start (new settings order).conn := by
  refine ⟨(agrees_new_iff settings order).mpr hbig, rfl, ⟨Int.natCast_nonneg _, le_rfl⟩, ?_,
    ⟨Table.get?_empty 0, Nat.one_pos⟩, ?_, fun sid hsid => ?_⟩
  · exact fun sid s hs => by cases (Table.get?_empty sid).symm.trans hs
  · rintro sid ⟨encoded, es, eh, p, hmem⟩
    rcases mem_cons.mp hmem with hmem | hmem
    · cases hmem
    · split at hmem
      · cases mem_singleton.mp hmem
      · exact absurd hmem not_mem_nil
  · have hsid : sid ≠ 0 := Nat.ne_of_gt hsid
    exact ⟨Table.get?_empty sid, by rw [granted_new, if_neg hsid], rfl⟩

/-- **The windows of both sides agree**, and DATA of a conforming server is taken, in every run in
which the server does not pad.  The initial window is at least 65535 and at most 2³¹ - 1. -/
theorem windows_agree (calls : List Call) (hsmall : settings.initialWindowSize ≤ 0x7fffffff)
    (hconforms : ∀ p ∈ (new settings order).historyOf recordSent .start calls,
      Conforms settings.initialWindowSize p.1.1 p.1.2 p.2)
    (hbig : 65535 ≤ settings.initialWindowSize)
    (hunpadded : ∀ x ∈ (new settings order).traceOf calls, Unpadded x.2) :
    Agrees settings.initialWindowSize ((new settings order).recordOf recordSent .start calls)
        ((new settings order).applyAll calls).conn ∧
      ∀ p ∈ (new settings order).historyOf recordSent .start calls, TakesData p.1.2 p.2 := by
  have hinit := balanced_new order hbig
  have hgen : ∀ p ∈ (new settings order).historyOf recordSent .start calls, p.1.2.Genuine p.2 :=
    fun p hp => genuine_traceOf _ calls _ (mem_traceOf_of_mem_historyOf hp)
  have hplain : ∀ p ∈ (new settings order).historyOf recordSent .start calls, Unpadded p.2 :=
    fun p hp => hunpadded _ (mem_traceOf_of_mem_historyOf hp)
  have hstep := fun p hp h => balanced_step hsmall (hgen p hp) (hconforms p hp) (hplain p hp) h
  refine ⟨(applyAll_induction hinit hstep).toAgrees, fun p hp => ?_⟩
  exact takesData_step hsmall (hgen p hp) (hconforms p hp) (hplain p hp)
    (historyOf_induction _ hinit hstep p hp)

/-- A byte of DATA on stream 1. -/
def byteOfData : List UInt8 := [0, 0, 1, 0, 0, 0, 0, 0, 1, 120]

/-- The same byte, with a byte of padding and the byte that gives its length. -/
def paddedData : List UInt8 := [0, 0, 3, 0, 8, 0, 0, 0, 1, 1, 120, 0]

/-- A request, the server's SETTINGS, and DATA for it. -/
def exchange (data : List UInt8) : List Call :=
  [.own (.sendRequest [] true), .recv emptySettings, .recv data]

/-- The steps of `exchange`. -/
def exchangeSteps (data : List UInt8) : List ConnStep :=
  [.own (.sendRequest [] true), .frame emptySettings (.settings false {}),
    .frame data (.data 1 [120] false)]

/-- DATA of up to 65535 bytes conforms in `exchange`. -/
theorem conforms_exchange {data : List UInt8} (hlen : data.length - 9 ≤ 65535)
    (hsteps : (new .clientDefault .listed).stepsOf (exchange data) = exchangeSteps data) :
    ∀ p ∈ (new .clientDefault .listed).historyOf recordSent .start (exchange data),
      Conforms 65535 p.1.1 p.1.2 p.2 := by
  intro p hp raw sid payload es hx
  rw [historyOf, hsteps] at hp
  simp only [exchangeSteps, Machine.trace, mem_cons, not_mem_nil, or_false] at hp
  rcases hp with rfl | rfl | rfl
  · cases hx
  · cases hx
  · cases hx
    have hserver : serverConn [.settings false .clientDefault, .headers 1 [] true true none] .start =
        65535 := rfl
    have hstream : serverStream 65535
        [.settings false .clientDefault, .headers 1 [] true true none] .start 1 = 65535 := rfl
    refine ⟨rfl, 2, ⟨[], true, true, none, mem_cons_of_mem _ mem_cons_self⟩, ?_, ?_⟩
    · exact (Int.ofNat_le.mpr hlen).trans hserver.ge
    · exact (Int.ofNat_le.mpr hlen).trans hstream.ge

/-- An exchange without padding. -/
theorem windows_agree_exchange :
    Agrees 65535 ((new .clientDefault .listed).recordOf recordSent .start (exchange byteOfData))
        ((new .clientDefault .listed).applyAll (exchange byteOfData)).conn ∧
      ∀ p ∈ (new .clientDefault .listed).historyOf recordSent .start (exchange byteOfData),
        TakesData p.1.2 p.2 := by
  have hsteps : (new .clientDefault .listed).stepsOf (exchange byteOfData) =
      exchangeSteps byteOfData := by rfl
  refine windows_agree .clientDefault .listed (exchange byteOfData) (by decide)
    (conforms_exchange (by decide) hsteps) (by decide) ?_
  rintro ⟨c, x⟩ hx raw sid payload es rfl
  have hx := Machine.mem_of_mem_trace hx
  rw [hsteps] at hx
  simp only [exchangeSteps, mem_cons, not_mem_nil, or_false, reduceCtorEq, false_or,
    ConnStep.frame.injEq, Frame.data.injEq] at hx
  rcases hx with hx | hx
  · cases hx.2
  · obtain ⟨rfl, rfl, rfl, rfl⟩ := hx
    rfl

/-- **Padding loses credit.**  The server counts three bytes and the client one, so the window of the
connection is two bytes larger for the client than for the server, with all frames handled. -/
theorem padding_loses_credit :
    ∃ (settings : Settings) (order : Table.Order Nat H2Stream) (calls : List Call),
      settings.initialWindowSize ≤ 0x7fffffff ∧
      (∀ p ∈ (new settings order).historyOf recordSent .start calls,
        Conforms settings.initialWindowSize p.1.1 p.1.2 p.2) ∧
      ¬ Agrees settings.initialWindowSize ((new settings order).recordOf recordSent .start calls)
        ((new settings order).applyAll calls).conn := by
  have hsteps : (new .clientDefault .listed).stepsOf (exchange paddedData) =
      exchangeSteps paddedData := by rfl
  refine ⟨.clientDefault, .listed, exchange paddedData, by decide,
    conforms_exchange (by decide) hsteps, fun h => ?_⟩
  have hconn := h.conn
  rw [applyAll_conn, recordOf, hsteps] at hconn
  exact absurd hconn (by decide)

end Client
end Ringline.H2
