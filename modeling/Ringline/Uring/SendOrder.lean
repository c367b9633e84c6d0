import Ringline.Uring.SendGather

/-!
# What the peer sees of the sends

A `SendRun` is a worker with what can be observed of its sends from outside: per connection the
bytes it accepted and the bytes the kernel reported sent, and the bounded sends it was handed, each
with the offset of its last byte.  A `SendAction` is one thing that can happen to it: a call of an
entry point, a completion, a turn of one of the retry lists.

`Allowed` is the domain: completions report a full send, a partial one or `-EAGAIN`, POLLOUT
completions report readiness, and no retry entry has reached its cap.  `Ordered` is what the peer
and the owners of bounded sends rely on.  It does not hold on the whole domain.  A zero-copy send
that is answered with `-EAGAIN` is not tried again but given up, together with everything queued
behind it, while the connection stays open for later sends; and a copied gathered send of no bytes
looks like a failure when it completes.  `sends_in_order` proves it for runs whose steps are `Clean`.
-/

set_option autoImplicit false

namespace Ringline.Uring

open Streams (Same Segment Ledger Mark)
open List Function

/-! ## Runs -/

structure SendRun where
  worker : Worker
  /-- What each connection accepted, in call order. -/
  accepted : Nat → List UInt8 := fun _ => []
  /-- What the kernel reported sent on each connection. -/
  wire : Nat → List UInt8 := fun _ => []
  /-- The accepted bounded sends: id and length, and where the last byte falls. -/
  marks : List (Mark Nat (BoundedSendId × Nat)) := []

inductive SendAction where
  | send (tls : TlsEngine) (deadline : Nat) (tok : ConnToken) (data : List UInt8)
  | sendBounded (tls : TlsEngine) (deadline : Nat) (tok : ConnToken) (data : List UInt8)
      (id : BoundedSendId)
  | sendParts (tls : TlsEngine) (deadline : Nat) (tok : ConnToken) (parts : List SendPart)
  /-- The kernel completes a submission; `more` announces a zero-copy notification. -/
  | complete (e : Sqe) (result : Int) (more : Bool)
  /-- A zero-copy notification. -/
  | notify (ud : UserData)
  | drainZc
  | drainCoalesced
  | drainCopy
  | drainSend
  | drainPollout
  | drainBounded
  | tick
  /-- The submission queue will answer the next pushes like this. -/
  | room (answers : List Bool)

variable (w : Worker)

/-- Take a completed submission out of the kernel and dispatch on its tag. -/
def Worker.complete (e : Sqe) (result : Int) (more : Bool) : Worker :=
  let w := { w with ring := { w.ring with kernel := w.ring.kernel.erase e } }
  match e.userData.tag with
  | .send => w.handleSend e.userData result
  | .tlsSend => w.handleTlsSend e.userData result
  | .sendPollOut => w.handleSendPollout e.userData result
  | .sendMsgCoalesced => w.handleSendMsgCoalesced e.userData result
  | .sendMsgCoalescedPollOut => w.handleSendMsgCoalescedPollout e.userData result
  | .sendMsgZc => w.handleSendMsgZc e.userData result false more
  | _ => w

/-- The bytes that completing `e` with `result` reports sent; a POLLOUT completion reports none. -/
def Worker.reported (e : Sqe) (result : Int) : List UInt8 :=
  match e.userData.tag with
  | .sendPollOut | .sendMsgCoalescedPollOut => []
  | _ => (w.sqeBytes e).take result.toNat

/-- What goes out on slot `ci` for `data`: the data, or the ciphertext of it. -/
def Worker.sentBytes (tls : TlsEngine) (ci : Nat) (data : List UInt8) : List UInt8 :=
  if w.tls ci then ((tls.encrypt data).toOption.getD []).flatten else data

namespace SendRun

/-- Note what a call did: `bytes` were accepted on connection `c` if it succeeded. -/
def accept (s : SendRun) (c : Nat) (bytes : List UInt8) (r : Worker × ApiResult) : SendRun :=
  if r.2 = .ok then
    { s with worker := r.1, accepted := update s.accepted c (s.accepted c ++ bytes) }
  else { s with worker := r.1 }

/-- Note a bounded send.  One without bytes of its own has nothing to wait for. -/
def acceptBounded (s : SendRun) (c : Nat) (bytes : List UInt8) (id : BoundedSendId) (len : Nat)
    (r : Worker × ApiResult) : SendRun :=
  if r.2 = .ok then
    { s with
      worker := r.1
      accepted := update s.accepted c (s.accepted c ++ bytes)
      marks := s.marks ++
        [⟨c, (id, len), if bytes = [] then 0 else (s.accepted c ++ bytes).length⟩] }
  else { s with worker := r.1 }

def step (s : SendRun) : SendAction → SendRun
  | .send tls deadline tok data =>
    s.accept tok.index (s.worker.sentBytes tls tok.index data)
      (s.worker.send tls deadline tok data)
  | .sendBounded tls deadline tok data id =>
    s.acceptBounded tok.index (s.worker.sentBytes tls tok.index data) id data.length
      (s.worker.sendBounded tls deadline tok data id)
  | .sendParts tls deadline tok parts =>
    s.accept tok.index
      (if parts = [] then [] else s.worker.sentBytes tls tok.index (partsBytes parts))
      (s.worker.sendParts tls deadline tok parts)
  | .complete e result more =>
    { s with
      worker := s.worker.complete e result more
      wire := update s.wire e.userData.connIndex
        (s.wire e.userData.connIndex ++ s.worker.reported e result) }
  | .notify ud => { s with worker := s.worker.handleSendMsgZc ud 0 true false }
  | .drainZc => { s with worker := s.worker.drainZcRetries }
  | .drainCoalesced => { s with worker := s.worker.drainCoalescedRetries }
  | .drainCopy => { s with worker := s.worker.drainCopyRetries }
  | .drainSend => { s with worker := s.worker.drainSendRetries }
  | .drainPollout => { s with worker := s.worker.drainSendPolloutRetries }
  | .drainBounded => { s with worker := s.worker.drainBoundedSendCompletions }
  | .tick => { s with worker := { s.worker with tickCount := s.worker.tickCount + 1 } }
  | .room answers =>
    { s with worker := { s.worker with ring := { s.worker.ring with room := answers } } }

/-- Every step of the run from `s` along the list meets `P`. -/
def Runs (P : SendRun → SendAction → Prop) : SendRun → List SendAction → Prop
  | _, [] => True
  | s, a :: rest => P s a ∧ Runs P (s.step a) rest

end SendRun

/-- A completion of a submission of `left` bytes: a full send, a partial one, or `-EAGAIN`. -/
def Answers (result : Int) (left : Nat) : Prop :=
  result = left ∨ (0 < result ∧ result.toNat < left) ∨ isEagain result = true

/-- What may be reported for submission `e`. -/
def Worker.Answered (e : Sqe) (result : Int) : Prop :=
  match e.userData.tag with
  | .send | .tlsSend | .sendMsgCoalesced | .sendMsgZc => Answers result (w.sqeBytes e).length
  | .sendPollOut | .sendMsgCoalescedPollOut => 0 ≤ result
  | _ => False

/-- The domain.  With TLS a send has to be accepted, since a failure there closes the connection,
and the engine cuts no empty piece. -/
def SendRun.Allowed (s : SendRun) : SendAction → Prop
  | .send tls deadline tok data => s.worker.tls tok.index = true →
      (s.worker.send tls deadline tok data).2 = .ok ∧ tls.NoEmptyPiece data
  | .sendBounded tls deadline tok data id => id ∉ s.marks.map (fun m => m.label.1) ∧
      (s.worker.tls tok.index = true →
        (s.worker.sendBounded tls deadline tok data id).2 = .ok ∧ tls.NoEmptyPiece data)
  | .sendParts tls deadline tok parts => s.worker.tls tok.index = true →
      (s.worker.sendParts tls deadline tok parts).2 = .ok ∧ tls.NoEmptyPiece (partsBytes parts)
  | .complete e result _ => e ∈ s.worker.ring.kernel ∧ s.worker.Answered e result
  | .notify ud => ud.tag = .sendMsgZc
  | .drainZc => ∀ e ∈ s.worker.pendingZcRetries, e.retries < 2
  | .drainCoalesced => ∀ e ∈ s.worker.pendingCoalescedRetries, e.retries < 2
  | .drainCopy => ∀ e ∈ s.worker.pendingCopyRetries, e.retries < 2
  | .drainSend => ∀ e ∈ s.worker.pendingSendRetries, e.attempts < 2
  | .drainPollout => ∀ e ∈ s.worker.pendingSendPolloutRetries, e.retries < 3
  | .drainBounded | .tick | .room _ => True

/-- The part of the domain the code is right on: no zero-copy send is answered with `-EAGAIN`, the
length of a bounded send fits the `u32` it is recorded in, and gathered sends are `Sizable`. -/
def SendRun.Clean (s : SendRun) : SendAction → Prop
  | .complete e result _ => e.userData.tag = .sendMsgZc → isEagain result = false
  | .sendBounded _ _ _ data _ => data.length < 4294967296
  | .sendParts _ _ tok parts =>
    s.worker.tls tok.index = false → parts ≠ [] → Sizable s.worker parts
  | _ => True

/-! ## What is promised -/

/-- The submissions of the send side that the kernel holds for connection `c`. -/
def Worker.sendsInKernel (c : Nat) : List Sqe :=
  w.ring.kernel.filter fun e => e.ref?.isSome && e.userData.connIndex == c

structure SendRun.Ordered (s : SendRun) : Prop where
  single : ∀ c, (s.worker.sendsInKernel c).length ≤ 1
  wire : ∀ c, s.wire c <+: s.accepted c
  inFlight : ∀ c, (s.worker.sendQueues c).queue ≠ [] → (s.worker.sendQueues c).inFlight = true
  once : (s.worker.settled.map Prod.fst).Nodup
  settled : ∀ r ∈ s.worker.settled, ∃ m ∈ s.marks,
    r = (m.label.1, .ok m.label.2) ∧ m.stop ≤ (s.wire m.stream).length
  due : ∀ m ∈ s.marks, m.stop ≤ (s.wire m.stream).length →
    (m.label.1, (.ok m.label.2 : IoResult)) ∈ s.worker.settled ++ s.worker.boundedSendCompletions

/-- A worker that has not sent anything yet; its connections are open, and stay so. -/
structure Worker.Fresh (w : Worker) : Prop where
  pool : ∃ count size, count ≤ 65535 ∧ 0 < size ∧ w.sendCopyPool = .new count size
  slab : ∃ capacity, capacity ≤ 65535 ∧ w.sendSlab = .new capacity
  queues : ∀ c, w.sendQueues c = {}
  kernel : ∀ e ∈ w.ring.kernel, e.ref? = none
  retries : w.pendingZcRetries = [] ∧ w.pendingCoalescedRetries = [] ∧
    w.pendingCopyRetries = [] ∧ w.pendingSendPolloutRetries = [] ∧ w.pendingSendRetries = []
  chain : ∀ c, w.chains c = none
  write : ∀ c, (w.connections c).write = .open
  books : w.settled = [] ∧ w.boundedSendCompletions = []

/-! ## The invariant of a run -/

variable {w : Worker} {g : Ghost} {c : Nat}

/-- The observations agree with the sends that are still in line. -/
structure SendRun.Inv (s : SendRun) (g : Ghost) (done : List (BoundedSendId × Nat)) : Prop where
  live : Live s.worker g []
  built : ∀ c, g.built c = []
  ledger : Ledger.Balanced ⟨s.accepted, s.wire, s.marks, done⟩ g.pend
  books : (s.worker.settled ++ s.worker.boundedSendCompletions).Perm
    (done.map fun l => (l.1, .ok l.2))
  ids : (s.marks.map fun m => m.label.1).Nodup

namespace SendRun

variable {s : SendRun} {done : List (BoundedSendId × Nat)} {g' : Ghost} {w' : Worker}

section

variable (h : s.Inv g done)

include h

/-- A step that only moves sends around. -/
theorem Inv.kept (hlive : Live w' g' []) (hkept : Kept s.worker g w' g') :
    Inv { s with worker := w' } g' done where
  live := hlive
  built c := by rw [hkept.built, h.built]
  ledger := h.ledger.same hkept.same
  books := by
    obtain ⟨hsettled, hqueued⟩ := Prod.mk.inj hkept.books
    rw [hsettled, hqueued]
    exact h.books
  ids := h.ids

/-- Unlabelled segments join a line. -/
theorem Inv.took (hlive : Live w' g' []) {l : List (Segment UInt8 (BoundedSendId × Nat))}
    (htook : Took s.worker g w' g' c l) (hl : ∀ x ∈ l, x.label = none) :
    Inv { s with
      worker := w'
      accepted := update s.accepted c (s.accepted c ++ Streams.content l) } g' done where
  live := hlive
  built c := by rw [htook.built, h.built]
  ledger := by
    rw [show g'.pend = update g.pend c (g.pend c ++ l) from funext htook.pend]
    exact h.ledger.accept c l hl
  books := by
    obtain ⟨hsettled, hqueued⟩ := Prod.mk.inj htook.books
    rw [hsettled, hqueued]
    exact h.books
  ids := h.ids

/-- What an entry point did without a bounded send. -/
theorem Inv.admitted {r : Worker × ApiResult} (hlive : Live r.1 g' [])
    {l : List (Segment UInt8 (BoundedSendId × Nat))} (hadm : Admitted s.worker g r g' c l)
    (hl : ∀ x ∈ l, x.label = none) {bytes : List UInt8} (hbytes : Streams.content l = bytes) :
    (s.accept c bytes r).Inv g' done := by
  rw [accept]
  rcases hadm with ⟨hok, htook⟩ | ⟨herr, hkept⟩
  · rw [if_pos hok, ← hbytes]
    exact h.took hlive htook hl
  · rw [if_neg herr]
    exact h.kept hlive hkept

/-- What `send_bounded` did. -/
theorem Inv.admittedBounded {r : Worker × ApiResult} (hlive : Live r.1 g' [])
    {pieces : List (List UInt8)} {id : BoundedSendId} {len : Nat}
    (hadm : AdmittedBounded s.worker g r g' c pieces id len)
    (hfresh : id ∉ s.marks.map fun m => m.label.1) {bytes : List UInt8}
    (hbytes : pieces.flatten = bytes) (hnil : pieces ≠ [] → bytes ≠ []) :
    ∃ done', (s.acceptBounded c bytes id len r).Inv g' done' := by
  have hlabel : (id, len) ∉ s.marks.map Mark.label := by
    intro hmem
    obtain ⟨m, hm, hmi⟩ := mem_map.mp hmem
    exact hfresh (mem_map.mpr ⟨m, hm, congrArg Prod.fst hmi⟩)
  have hids : ∀ stop, ((s.marks ++ [(⟨c, (id, len), stop⟩ : Mark Nat (BoundedSendId × Nat))]).map
      fun m => m.label.1).Nodup := by
    intro stop
    rw [map_append]
    exact concat_eq_append ▸ h.ids.concat hfresh
  rw [acceptBounded]
  rcases hadm with ⟨hok, hne, htook⟩ | ⟨hok, rfl, hbuilt, hpend, hbooks⟩ | ⟨herr, hkept⟩
  · obtain ⟨l, d, hsegs, hl⟩ := segmentsOf_eq_append (some (id, len)) hne
    have hcontent : Streams.content (l ++ [⟨d, some (id, len)⟩]) = bytes := by
      rw [← hsegs, content_segmentsOf, hbytes]
    rw [if_pos hok, if_neg (hnil hne)]
    refine ⟨done, hlive, fun d => by rw [htook.built, h.built], ?_, ?_, hids _⟩
    · rw [show g'.pend = _ from funext htook.pend, hsegs, ← hcontent]
      exact h.ledger.acceptLabelled c l ⟨d, some (id, len)⟩ (id, len) hl rfl hlabel
    · obtain ⟨hsettled, hqueued⟩ := Prod.mk.inj htook.books
      rw [hsettled, hqueued]
      exact h.books
  · obtain rfl : bytes = [] := hbytes.symm
    rw [if_pos hok, if_pos rfl, append_nil, update_eq_self]
    refine ⟨done ++ [(id, len)], hlive, fun d => by rw [hbuilt, h.built], ?_, ?_, hids _⟩
    · rw [show g'.pend = g.pend from funext hpend]
      exact h.ledger.acceptDone c (id, len) hlabel
    · obtain ⟨hsettled, hqueued⟩ := Prod.mk.inj hbooks
      rw [hsettled, hqueued, map_append, ← append_assoc]
      exact h.books.append_right _
  · rw [if_neg herr]
    exact ⟨done, h.kept hlive hkept⟩

/-- What a completion of the active send did. -/
theorem Inv.sent {n : Nat} (hlive : Live w' g' []) {x : Piece} (hx : g.act c = some x)
    (hsent : Sent s.worker g w' g' c n) :
    ∃ done', Inv { s with
      worker := w'
      wire := update s.wire c (s.wire c ++ x.bytes.take n) } g' done' := by
  have hhead : g.pend c = x.segment :: (g.que c).map Piece.segment := by
    rw [Ghost.pend, Ghost.pieces_act hx]
    rfl
  rcases hsent with ⟨y, rest, hpieces, hn, hbuilt, hsame, hbooks⟩ |
    ⟨y, rest, hpieces, hn, hbuilt, hsame, hbooks⟩
  all_goals
    obtain ⟨rfl, rfl⟩ := cons_eq_cons.mp ((Ghost.pieces_act hx).symm.trans hpieces)
    obtain ⟨hsettled, hqueued⟩ := Prod.mk.inj hbooks
  · refine ⟨done, hlive, fun d => by rw [hbuilt, h.built], ?_, ?_, h.ids⟩
    · exact (h.ledger.progress c x.segment _ n hhead hn).same hsame
    · rw [hsettled, hqueued]
      exact h.books
  · refine ⟨done ++ x.bounded.toList, hlive, fun d => by rw [hbuilt, h.built], ?_, ?_, h.ids⟩
    · have hout := h.ledger.progress c x.segment _ n hhead hn.le
      refine Ledger.Balanced.same ?_ hsame
      have hdrop : x.segment.elems.drop n = [] := drop_of_length_le (by rw [hn]; rfl)
      have hfin := hout.finish c { x.segment with elems := x.segment.elems.drop n } _
        (update_self ..) hdrop
      rwa [update_idem] at hfin
    · rw [hsettled, hqueued, map_append, append_assoc]
      refine (perm_append_comm_assoc _ _ _).trans ?_
      refine perm_append_comm.trans ?_
      rcases x.bounded with _ | ⟨id, len⟩
      · exact h.books.append_right _
      · exact h.books.append_right _

end

end SendRun

/-! ## Completions -/

variable {e : Sqe} {result : Int}

theorem Answers.reports {left : Nat} (h : Answers result left) (hleft : 0 < left) :
    Reports result left := by
  rcases h with rfl | ⟨hpos, hlt⟩ | heagain
  · exact .inl ⟨by omega, by simp⟩
  · exact .inl ⟨hpos, hlt.le⟩
  · exact .inr heagain

theorem Answers.reportsZc {left : Nat} (h : Answers result left) (hne : isEagain result = false) :
    ReportsZc result left := by
  rcases h with rfl | ⟨hpos, hlt⟩ | heagain
  · rcases Nat.eq_zero_or_pos left with rfl | hpos
    · exact .inr ⟨rfl, rfl⟩
    · exact .inl ⟨by omega, by simp⟩
  · exact .inl ⟨hpos, hlt.le⟩
  · rw [hne] at heagain
    cases heagain

/-- What completing `e` with `result` comes to: it moves sends around, or it reports bytes of the
active piece of its connection. -/
def Completed (w : Worker) (g : Ghost) (e : Sqe) (result : Int) (w' : Worker) (g' : Ghost) : Prop :=
  (w.reported e result = [] ∧ Kept w g w' g') ∨
    ∃ x, g.act e.userData.connIndex = some x ∧
      w.reported e result = x.bytes.take result.toNat ∧
      Sent w g w' g' e.userData.connIndex result.toNat

section

variable (h : Live w g [])

include h

section

variable (he : e ∈ w.ring.kernel)

include he

theorem Live.takeKernel {r : Ref} (href : e.ref? = some (c, r)) :
    Live { w with ring := { w.ring with kernel := w.ring.kernel.erase e } } g [(c, r)] :=
  (h.moved { w.ring with kernel := w.ring.kernel.erase e } _ _ _ _ (h.core.loc.take he href)).live

/-- A submission of the kernel works on the active piece of its connection, and covers what is left
of it. -/
theorem Live.piece_of_kernel {r : Ref} (href : e.ref? = some (c, r)) :
    ∃ x, g.act c = some x ∧ x.job.ref = r :=
  h.core.loc.act_of_count (Nat.add_pos_left (Places.count_pos_of_kernel he href) _)

/-- A copy send in the kernel. -/
theorem Live.kernel_copy (htag : e.userData.tag = .send ∨ e.userData.tag = .tlsSend) :
    ∃ s x, e.userData.payload = UserData.sendPayload s (w.generation e.userData.connIndex) ∧
      g.act e.userData.connIndex = some x ∧ x.job = .copy s ∧ w.sqeBytes e = x.bytes ∧
      x.bytes ≠ [] ∧
      Live { w with ring := { w.ring with kernel := w.ring.kernel.erase e } } g
        [(e.userData.connIndex, .slot s)] := by
  have hok := h.core.loc.sqes e he
  obtain ⟨s, hlt, hpay, hop⟩ : ∃ s, s < 65536 ∧
      e.userData.payload = UserData.sendPayload s (w.generation e.userData.connIndex) ∧
      e.op = .send (.pool s (w.sendCopyPool.slots s).offset)
        (w.sendCopyPool.slots s).remaining := by
    rcases htag with htag | htag <;> simpa only [SqeOk, htag] using hok
  have href : e.ref? = some (e.userData.connIndex, .slot s) := by
    rcases htag with htag | htag <;>
      simp [Sqe.ref?, htag, hpay, UserData.sendPayloadSlot_sendPayload hlt]
  obtain ⟨x, hx, hr⟩ := h.piece_of_kernel he href
  have hjob := Job.eq_copy_of_ref hr
  obtain ⟨hholds, hwf⟩ := h.core.holdsCopy hx hjob
  refine ⟨s, x, hpay, hx, hjob, ?_, hwf.ne_nil (by rw [hjob]; rfl), h.takeKernel he href⟩
  rw [Worker.sqeBytes, hop]
  exact hholds.span

/-- A gathered send in the kernel, or the wait for its socket. -/
theorem Live.kernel_gather (zc : Bool)
    (href : e.ref? = some (e.userData.connIndex, .entry zc e.userData.payload)) :
    ∃ ss x, g.act e.userData.connIndex = some x ∧ x.job = .gather zc e.userData.payload ss ∧
      w.readIovecs (w.sendSlab.entries e.userData.payload).iovecs = x.bytes ∧ x.Wf ∧
      Live { w with ring := { w.ring with kernel := w.ring.kernel.erase e } } g
        [(e.userData.connIndex, .entry zc e.userData.payload)] := by
  obtain ⟨x, hx, hr⟩ := h.piece_of_kernel he href
  obtain ⟨ss, hjob⟩ := Job.eq_gather_of_ref hr
  obtain ⟨hholds, hwf⟩ := h.core.holdsGather hx hjob
  exact ⟨ss, x, hx, hjob, hholds.bytes, hwf, h.takeKernel he href⟩

/-- **Completions.**  Every completion of the domain that is not a zero-copy `-EAGAIN` keeps the
line of its connection, less what it reports. -/
theorem Live.complete (hans : w.Answered e result)
    (hzc : e.userData.tag = .sendMsgZc → isEagain result = false) (more : Bool) :
    ∃ g', Live (w.complete e result more) g' [] ∧
      Completed w g e result (w.complete e result more) g' := by
  have hok := h.core.loc.sqes e he
  cases htag : e.userData.tag with
  | send =>
    obtain ⟨s, x, hpay, hx, hjob, hbytes, hne, hlive⟩ := h.kernel_copy he (.inl htag)
    simp only [Worker.Answered, htag, hbytes] at hans
    obtain ⟨g', hlive', hsent⟩ :=
      hlive.handleSend hx hjob rfl hpay (hans.reports (length_pos_iff.mpr hne))
    simp only [Worker.complete, htag]
    exact ⟨g', hlive', .inr ⟨x, hx, by simp only [Worker.reported, htag, hbytes], hsent⟩⟩
  | tlsSend =>
    obtain ⟨s, x, hpay, hx, hjob, hbytes, hne, hlive⟩ := h.kernel_copy he (.inr htag)
    simp only [Worker.Answered, htag, hbytes] at hans
    obtain ⟨g', hlive', hsent⟩ :=
      hlive.handleTlsSend hx hjob rfl hpay (hans.reports (length_pos_iff.mpr hne))
    simp only [Worker.complete, htag]
    exact ⟨g', hlive', .inr ⟨x, hx, by simp only [Worker.reported, htag, hbytes], hsent⟩⟩
  | sendPollOut =>
    simp only [SqeOk, htag] at hok
    obtain ⟨s, isTls, hlt, hpay⟩ := hok
    have href : e.ref? = some (e.userData.connIndex, .slot s) := by
      simp [Sqe.ref?, htag, hpay, UserData.sendPayloadSlot_sendPolloutPayload hlt]
    obtain ⟨x, hx, hr⟩ := h.piece_of_kernel he href
    simp only [Worker.Answered, htag] at hans
    obtain ⟨g', hlive', hkept⟩ := (h.takeKernel he href).handleSendPollout hx
      (Job.eq_copy_of_ref hr) rfl hpay hans
    simp only [Worker.complete, htag]
    exact ⟨g', hlive', .inl ⟨by simp only [Worker.reported, htag], hkept.built, hkept.same,
      hkept.books⟩⟩
  | sendMsgCoalesced =>
    simp only [SqeOk, htag] at hok
    obtain ⟨ss, x, hx, hjob, hbytes, hwf, hlive⟩ := h.kernel_gather he false
      (by simp [Sqe.ref?, htag, Nat.mod_eq_of_lt hok.1])
    have hsqe : w.sqeBytes e = x.bytes := by rw [Worker.sqeBytes, hok.2, ← hbytes]
    simp only [Worker.Answered, htag, hsqe] at hans
    obtain ⟨g', hlive', hsent⟩ := hlive.handleSendMsgCoalesced hx hjob rfl rfl
      (hans.reports (length_pos_iff.mpr (hwf.ne_nil (by rw [hjob]; rfl))))
    simp only [Worker.complete, htag]
    exact ⟨g', hlive', .inr ⟨x, hx, by simp only [Worker.reported, htag, hsqe], hsent⟩⟩
  | sendMsgCoalescedPollOut =>
    simp only [SqeOk, htag] at hok
    obtain ⟨ss, x, hx, hjob, -, -, hlive⟩ := h.kernel_gather he false
      (by simp [Sqe.ref?, htag, Nat.mod_eq_of_lt hok])
    simp only [Worker.Answered, htag] at hans
    obtain ⟨g', hlive', hkept⟩ := hlive.handleSendMsgCoalescedPollout hx hjob rfl rfl hans
    simp only [Worker.complete, htag]
    exact ⟨g', hlive', .inl ⟨by simp only [Worker.reported, htag], hkept.built, hkept.same,
      hkept.books⟩⟩
  | sendMsgZc =>
    simp only [SqeOk, htag] at hok
    obtain ⟨ss, x, hx, hjob, hbytes, hwf, hlive⟩ := h.kernel_gather he true
      (by simp [Sqe.ref?, htag, Nat.mod_eq_of_lt hok.1])
    have hsqe : w.sqeBytes e = x.bytes := by rw [Worker.sqeBytes, hok.2, ← hbytes]
    simp only [Worker.Answered, htag, hsqe] at hans
    obtain ⟨g', hlive', hsent⟩ := hlive.handleSendMsgZc hx hjob rfl rfl
      (hans.reportsZc (hzc htag)) more
    simp only [Worker.complete, htag]
    exact ⟨g', hlive', .inr ⟨x, hx, by simp only [Worker.reported, htag, hsqe], hsent⟩⟩
  | _ =>
    rw [Worker.Answered, htag] at hans
    exact hans.elim

end

end

/-! ## The run -/

theorem Live.notify (h : Live w g []) (ud : UserData) :
    Live (w.handleSendMsgZc ud 0 true false) g [] ∧
      (w.handleSendMsgZc ud 0 true false).books = w.books := by
  have hchain : (w.chains ud.connIndex).isSome = false := by rw [h.core.quiet.chain]; rfl
  simp only [Worker.handleSendMsgZc, hchain, Bool.false_eq_true, if_false, if_true]
  split
  · exact ⟨h, rfl⟩
  · rename_i hin
    have hin' : w.sendSlab.inUse (ud.payload % 65536) = true := by simpa using hin
    have hnotif := h.zcNotification hin'
    split
    · exact hnotif
    · exact hnotif

section

variable (hpos : 0 < w.sendCopyPool.slotSize)

include hpos

theorem outgoing_flatten (tls : TlsEngine) (ci : Nat) (data : List UInt8) :
    (w.outgoing tls ci data).flatten = w.sentBytes tls ci data := by
  rw [Worker.outgoing, Worker.sentBytes]
  split
  · rfl
  · exact Chunks.flatten_chunks hpos data

/-- A send with pieces has bytes. -/
theorem sentBytes_ne_nil {tls : TlsEngine} {ci : Nat} {data : List UInt8}
    (hne : w.tls ci = true → tls.NoEmptyPiece data) (h : w.outgoing tls ci data ≠ []) :
    w.sentBytes tls ci data ≠ [] := by
  have hpieces : ∀ d ∈ w.outgoing tls ci data, d ≠ [] := by
    rw [Worker.outgoing]
    split
    · rename_i htls
      intro d hd
      rcases henc : tls.encrypt data with e | pieces
      · rw [henc] at hd
        cases hd
      · rw [henc] at hd
        exact hne htls pieces henc d hd
    · exact fun d hd => (Chunks.mem_chunks hpos hd).1
  obtain ⟨d, rest, hcons⟩ := exists_cons_of_ne_nil h
  rw [← outgoing_flatten hpos, hcons]
  have hd : d ≠ [] := hpieces d (hcons ▸ mem_cons_self ..)
  simp [hd]

theorem content_partsSegments (tls : TlsEngine) (ci : Nat) (parts : List SendPart) :
    Streams.content (w.partsSegments tls ci parts) =
      if parts = [] then [] else w.sentBytes tls ci (partsBytes parts) := by
  rw [Worker.partsSegments]
  split
  · rfl
  · split
    · rw [content_segmentsOf, outgoing_flatten hpos]
    · rename_i htls
      rw [Worker.sentBytes, if_neg htls]
      simp

end

theorem partsSegments_unlabelled (w : Worker) (tls : TlsEngine) (ci : Nat) (parts : List SendPart) :
    ∀ x ∈ w.partsSegments tls ci parts, x.label = none := by
  rw [Worker.partsSegments]
  split
  · simp
  · split
    · exact segmentsOf_none _
    · intro x hx
      rw [mem_singleton.mp hx]

namespace SendRun

variable {s : SendRun} {done : List (BoundedSendId × Nat)}

/-- **One step.**  The observations stay in agreement with the lines. -/
theorem Inv.step (h : s.Inv g done) {a : SendAction} (hallowed : s.Allowed a) (hclean : s.Clean a) :
    ∃ g' done', (s.step a).Inv g' done' := by
  have hpos := h.live.core.res.pool.slotSize_pos
  cases a with
  | send tls deadline tok data =>
    obtain ⟨g', hlive, hadm⟩ := h.live.send (h.built _) tls deadline data hallowed
    exact ⟨g', done, h.admitted hlive hadm (segmentsOf_none _)
      (by rw [content_segmentsOf, outgoing_flatten hpos])⟩
  | sendBounded tls deadline tok data id =>
    obtain ⟨hfresh, hseal⟩ := hallowed
    obtain ⟨g', hlive, hadm⟩ := h.live.sendBounded (h.built _) tls deadline data id hseal
    rw [wrap32, Nat.mod_eq_of_lt hclean] at hadm
    obtain ⟨done', hinv⟩ := h.admittedBounded hlive hadm hfresh (outgoing_flatten hpos ..)
      (sentBytes_ne_nil hpos fun htls => (hseal htls).2)
    exact ⟨g', done', hinv⟩
  | sendParts tls deadline tok parts =>
    obtain ⟨g', hlive, hadm⟩ := h.live.sendParts (h.built _) tls deadline parts hclean hallowed
    exact ⟨g', done, h.admitted hlive hadm (partsSegments_unlabelled _ _ _ _)
      (content_partsSegments hpos ..)⟩
  | complete e result more =>
    obtain ⟨he, hans⟩ := hallowed
    obtain ⟨g', hlive, ⟨hnone, hkept⟩ | ⟨x, hx, hrep, hsent⟩⟩ := h.live.complete he hans hclean more
    · refine ⟨g', done, ?_⟩
      rw [SendRun.step, hnone, append_nil, update_eq_self]
      exact h.kept hlive hkept
    · obtain ⟨done', hinv⟩ := h.sent hlive hx hsent
      refine ⟨g', done', ?_⟩
      rw [SendRun.step, hrep]
      exact hinv
  | notify ud =>
    obtain ⟨hlive, hbooks⟩ := h.live.notify ud
    exact ⟨g, done, h.kept hlive (.of_books hbooks)⟩
  | drainZc =>
    obtain ⟨g', hlive, hkept⟩ := h.live.drainZcRetries hallowed
    exact ⟨g', done, h.kept hlive hkept⟩
  | drainCoalesced =>
    obtain ⟨g', hlive, hkept⟩ := h.live.drainCoalescedRetries hallowed
    exact ⟨g', done, h.kept hlive hkept⟩
  | drainCopy =>
    obtain ⟨g', hlive, hkept⟩ := h.live.drainCopyRetries hallowed
    exact ⟨g', done, h.kept hlive hkept⟩
  | drainSend =>
    obtain ⟨g', hlive, hkept⟩ := h.live.drainSendRetries hallowed
    exact ⟨g', done, h.kept hlive hkept⟩
  | drainPollout =>
    obtain ⟨g', hlive, hkept⟩ := h.live.drainSendPolloutRetries hallowed
    exact ⟨g', done, h.kept hlive hkept⟩
  | drainBounded =>
    refine ⟨g, done, h.live.congr {} rfl, h.built, h.ledger, ?_, h.ids⟩
    simpa [SendRun.step, Worker.drainBoundedSendCompletions] using h.books
  | tick =>
    exact ⟨g, done, h.kept (h.live.congr {} rfl) (.of_books rfl)⟩
  | room answers =>
    exact ⟨g, done, h.kept (h.live.congr {} rfl) (.of_books rfl)⟩

/-- **Whole runs.** -/
theorem Inv.run (h : s.Inv g done) {acts : List SendAction}
    (hrun : s.Runs (fun s a => s.Allowed a ∧ s.Clean a) acts) :
    ∃ g' done', (acts.foldl SendRun.step s).Inv g' done' := by
  induction acts generalizing s g done with
  | nil => exact ⟨g, done, h⟩
  | cons a rest ih =>
    obtain ⟨⟨hallowed, hclean⟩, hrest⟩ := hrun
    obtain ⟨g', done', hstep⟩ := h.step hallowed hclean
    exact ih hstep hrest

end SendRun

/-- At most one submission of a connection is in the kernel, since all of them would work on its
active piece. -/
theorem Live.single (h : Live w g []) (c : Nat) : (w.sendsInKernel c).length ≤ 1 := by
  have hrefs : ∀ e ∈ w.sendsInKernel c, ∃ x, g.act c = some x ∧ e.ref? = some (c, x.job.ref) := by
    intro e he
    obtain ⟨hmem, hsend⟩ := mem_filter.mp he
    rw [Bool.and_eq_true, beq_iff_eq] at hsend
    obtain ⟨⟨d, r⟩, href⟩ := Option.isSome_iff_exists.mp hsend.1
    have hd : d = e.userData.connIndex := by
      rw [Sqe.ref?] at href
      split at href <;> simp_all
    rw [hd, hsend.2] at href
    obtain ⟨x, hx, hr⟩ := h.piece_of_kernel hmem href
    exact ⟨x, hx, hr ▸ href⟩
  rcases hact : g.act c with _ | x
  · have hnil : w.sendsInKernel c = [] := by
      refine eq_nil_iff_forall_not_mem.mpr fun e he => ?_
      obtain ⟨x, hx, -⟩ := hrefs e he
      rw [hact] at hx
      cases hx
    simp [hnil]
  · have hall : (w.sendsInKernel c).filterMap Sqe.ref? =
        replicate (w.sendsInKernel c).length (c, x.job.ref) := by
      rw [← map_const', ← filterMap_eq_map]
      refine filterMap_congr fun e he => ?_
      obtain ⟨y, hy, href⟩ := hrefs e he
      rw [hact] at hy
      rw [href, ← Option.some_inj.mp hy]
      rfl
    have hsub : ((w.sendsInKernel c).filterMap Sqe.ref?).count (c, x.job.ref) ≤
        (w.ring.kernel.filterMap Sqe.ref?).count (c, x.job.ref) :=
      (filter_sublist.filterMap Sqe.ref?).count_le _
    have hle := h.core.loc.count_le_one (c, x.job.ref)
    rw [hall, count_replicate_self] at hsub
    rw [Places.count] at hle
    change (w.ring.kernel.filterMap Sqe.ref?).count _ + _ + _ + _ + _ + _ ≤ 1 at hle
    omega

theorem SendRun.Inv.ordered {s : SendRun} {done : List (BoundedSendId × Nat)} (h : s.Inv g done) :
    s.Ordered where
  single := h.live.single
  wire := h.ledger.prefix
  inFlight c hque := by
    rw [(h.live.flags c).inFlight]
    simp [hque]
  once := by
    -- The labels are settled once each, and no two of them share an id.
    have hdone : (done.map Prod.fst).Nodup := by
      refine (nodup_map_iff_inj_on h.ledger.nodup_done).mpr fun a ha b hb heq => ?_
      obtain ⟨m, hm, rfl, -⟩ := h.ledger.done_spec a ha
      obtain ⟨m', hm', rfl, -⟩ := h.ledger.done_spec b hb
      rw [inj_on_of_nodup_map h.ids hm hm' heq]
    have hall : ((s.worker.settled ++ s.worker.boundedSendCompletions).map Prod.fst).Nodup := by
      rw [(h.books.map Prod.fst).nodup_iff, map_map]
      exact hdone
    rw [map_append] at hall
    exact hall.of_append_left
  settled r hr := by
    have hmem := h.books.mem_iff.mp (mem_append_left _ hr)
    obtain ⟨l, hl, rfl⟩ := mem_map.mp hmem
    obtain ⟨m, hm, rfl, hstop⟩ := h.ledger.done_spec l hl
    exact ⟨m, hm, rfl, hstop⟩
  due m hm hout := by
    have hne : ∀ c, ∀ y ∈ g.pend c, y.label ≠ none → y.elems ≠ [] := by
      intro c y hy hlabel
      obtain ⟨x, hx, rfl⟩ := mem_map.mp hy
      obtain ⟨-, hwf⟩ := (h.live.core.res.own c).holds x hx
      rcases hjob : x.job.isZc with _ | _
      · exact hwf.ne_nil hjob
      · exact absurd (hwf.zc hjob) hlabel
    exact h.books.mem_iff.mpr (mem_map.mpr ⟨m.label, h.ledger.mem_done hne hm hout, rfl⟩)

/-- Nothing is in line at the start. -/
theorem Worker.Fresh.inv (h : w.Fresh) :
    SendRun.Inv { worker := w }
      ⟨fun _ => none, fun _ => [], fun _ => [], fun _ => .conn 0, fun _ => .conn 0⟩ [] := by
  obtain ⟨count, size, hcount, hsize, hpool⟩ := h.pool
  obtain ⟨capacity, hcap, hslab⟩ := h.slab
  obtain ⟨hzc, hco, hcp, hpo, -⟩ := h.retries
  refine ⟨⟨⟨?_, ?_, ?_, ?_⟩, ?_⟩, fun _ => rfl, Ledger.balanced_nil, ?_, nodup_nil⟩
  · rw [hpool, hslab]
    refine ⟨SendCopyPool.wf_new count hsize, InFlightSendSlab.wf_new capacity, hcount, hcap, ?_,
      fun _ hin => absurd hin Bool.false_ne_true⟩
    exact fun c => ⟨fun _ hx => absurd hx not_mem_nil, nodup_nil,
      fun _ hx => absurd hx not_mem_nil, nodup_nil,
      fun _ hx => absurd hx not_mem_nil⟩
  · intro c
    simp only [h.queues]
    exact .nil
  · have hkernel : w.ring.kernel.filterMap Sqe.ref? = [] :=
      filterMap_eq_nil_iff.mpr h.kernel
    refine ⟨fun x => ?_, fun e he => ?_, ?_, ?_, ?_, ?_⟩
    · simp [Places.count, Worker.places, hkernel, hzc, hco, hcp, hpo]
    · have hnone := h.kernel e he
      rw [Sqe.ref?] at hnone
      rw [SqeOk]
      split at hnone <;> simp_all
    · rw [Worker.places, hzc]
      simp
    · rw [Worker.places, hco]
      simp
    · rw [Worker.places, hcp]
      simp
    · rw [Worker.places, hpo]
      simp
  · refine ⟨?_, ?_, h.chain, h.write, fun c hne => absurd rfl hne⟩ <;>
      exact fun c => by rw [h.queues]
  · intro c
    rw [h.queues]
    exact ⟨rfl, rfl⟩
  · simp [h.books.1, h.books.2]

/-- **Sends in order.**  In every state that a clean run reaches, at most one submission per
connection is in the kernel, what was reported sent is a prefix of what was accepted, a queue that is
not empty has something in flight, and every bounded send is settled exactly once, with its length,
when its last byte is out and not before. -/
theorem sends_in_order (w : Worker) (hw : w.Fresh) (acts : List SendAction)
    (hrun : SendRun.Runs (fun s a => s.Allowed a ∧ s.Clean a) { worker := w } acts) :
    (acts.foldl SendRun.step { worker := w }).Ordered := by
  obtain ⟨g, done, hinv⟩ := hw.inv.run hrun
  exact hinv.ordered

/-! ## Runs on one connection -/

/-- A worker with open connections, without TLS. -/
def plainWorker : Worker where
  connections := fun _ => { active := true, lifecycle := .open, established := true }
  sendCopyPool := .new 4 8
  sendSlab := .new 2

def noTls : TlsEngine := ⟨fun _ => none, fun _ => .ok [], 0, []⟩

theorem plainWorker_fresh : plainWorker.Fresh where
  pool := ⟨4, 8, by decide, by decide, rfl⟩
  slab := ⟨2, by decide, rfl⟩
  queues _ := rfl
  kernel := nofun
  retries := ⟨rfl, rfl, rfl, rfl, rfl⟩
  chain _ := rfl
  write _ := rfl
  books := ⟨rfl, rfl⟩

/-- Two sends, of which the second waits for the rest of the first. -/
def twoSends : List SendAction :=
  [.send noTls 0 ⟨0, 0⟩ [1, 2], .sendBounded noTls 0 ⟨0, 0⟩ [3] 7,
    .complete ⟨⟨.send, 0, 0⟩, .send (.pool 0 0) 2⟩ 1 false,
    .complete ⟨⟨.send, 0, 0⟩, .send (.pool 0 1) 1⟩ 1 false,
    .complete ⟨⟨.send, 0, 1⟩, .send (.pool 1 0) 1⟩ 1 false]

theorem sends_in_order_twoSends :
    (twoSends.foldl SendRun.step { worker := plainWorker }).Ordered ∧
      (twoSends.foldl SendRun.step { worker := plainWorker }).wire 0 = [1, 2, 3] := by
  refine ⟨sends_in_order plainWorker plainWorker_fresh twoSends ?_, by decide⟩
  refine ⟨⟨fun htls => absurd htls (by decide), trivial⟩,
    ⟨⟨by decide, fun htls => absurd htls (by decide)⟩, Nat.lt_of_sub_ne_zero (by decide)⟩,
    ⟨⟨by decide, Or.inr (Or.inl (by decide))⟩, fun htag => absurd htag (by decide)⟩,
    ⟨⟨by decide, Or.inl (by decide)⟩, fun htag => absurd htag (by decide)⟩,
    ⟨⟨by decide, Or.inl (by decide)⟩, fun htag => absurd htag (by decide)⟩, trivial⟩

/-- A zero-copy send is answered with `-EAGAIN` while another send waits behind it; then a third
send goes out. -/
def zeroCopyEagain : List SendAction :=
  [.sendParts noTls 0 ⟨0, 0⟩ [.guard [1] none], .send noTls 0 ⟨0, 0⟩ [2],
    .complete ⟨⟨.sendMsgZc, 0, 0⟩, .sendMsgZc 0⟩ (-11) false, .send noTls 0 ⟨0, 0⟩ [3],
    .complete ⟨⟨.send, 0, 0⟩, .send (.pool 0 0) 1⟩ 1 false]

/-- A gathered send of no bytes completes while a bounded send waits behind it. -/
def emptyGather : List SendAction :=
  [.sendParts noTls 0 ⟨0, 0⟩ [.copy []], .sendBounded noTls 0 ⟨0, 0⟩ [2] 7,
    .complete ⟨⟨.send, 0, 0⟩, .send (.pool 0 0) 0⟩ 0 false, .drainBounded]

/-- On the whole domain sends get lost: the peer receives the third send and nothing of the first
two, or a bounded send that was never tried is settled with an error. -/
theorem sends_get_lost :
    plainWorker.Fresh ∧
      (SendRun.Runs SendRun.Allowed { worker := plainWorker } zeroCopyEagain ∧
        (zeroCopyEagain.foldl SendRun.step { worker := plainWorker }).accepted 0 = [1, 2, 3] ∧
        (zeroCopyEagain.foldl SendRun.step { worker := plainWorker }).wire 0 = [3] ∧
        ¬ (zeroCopyEagain.foldl SendRun.step { worker := plainWorker }).Ordered) ∧
      SendRun.Runs SendRun.Allowed { worker := plainWorker } emptyGather ∧
        ¬ (emptyGather.foldl SendRun.step { worker := plainWorker }).Ordered := by
  refine ⟨plainWorker_fresh, ⟨?_, by decide, by decide, fun hord => ?_⟩, ?_, fun hord => ?_⟩
  · exact ⟨fun htls => absurd htls (by decide), fun htls => absurd htls (by decide),
      ⟨by decide, Or.inr (Or.inr (by decide))⟩, fun htls => absurd htls (by decide),
      ⟨by decide, Or.inl (by decide)⟩, trivial⟩
  · exact absurd (hord.wire 0) (by decide)
  · exact ⟨fun htls => absurd htls (by decide),
      ⟨by decide, fun htls => absurd htls (by decide)⟩, ⟨by decide, Or.inl (by decide)⟩, trivial,
      trivial⟩
  · obtain ⟨m, -, heq, -⟩ := hord.settled
      (7, .error (.new .connectionAborted "connection closed before the send reached the wire"))
      (by decide)
    cases congrArg Prod.snd heq

end Ringline.Uring
