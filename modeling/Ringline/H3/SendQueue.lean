import Ringline.Base.Fifo
import Ringline.H3.Connection

/-!
# What the transport is given

`queue_send` offers the bytes of a stream to the transport and queues what it does not take, and
`drain_pending_stream` offers the queue again.  The journal of a run lists what was queued
successfully, what the transport has taken and when it was told to finish a stream (`record`).  It is
that of honest queues (`Fifo.Orderly`): `queued_sends_in_order` says that the transport gets the bytes of a
stream in order and without gaps, that it is told to finish a stream only when it has got everything,
and that the queues of all streams together stay within the limit.

A request comes to the queues after its stream has been opened and put into the table.  If its bytes
are refused, both are left behind: a refused request is undone only if no stream was opened for it
(`request_undone_iff`), and every attempt leaves another one (`refused_requests_leave_streams`).
-/

set_option autoImplicit false

namespace Ringline.H3

open Fifo (Entry Orderly queuedOf takenOf)
open H3Connection
open H2 (HeaderField)
open List Function

/-! ## Chunks -/

theorem flatten_advance (n : Nat) (chunks : List (List UInt8)) :
    (advance n chunks).flatten = chunks.flatten.drop n := by
  induction chunks generalizing n with
  | nil => rw [advance, flatten_nil, drop_nil]
  | cons chunk chunks ih => rw [advance, flatten_cons, flatten_cons, ih, drop_append]

theorem flatten_dropWhile_nil (chunks : List (List UInt8)) :
    (chunks.dropWhile (· = [])).flatten = chunks.flatten := by
  induction chunks with
  | nil => rfl
  | cons chunk chunks ih =>
    rw [dropWhile_cons]
    split
    · rename_i h
      rw [of_decide_eq_true h, flatten_cons, nil_append, ih]
    · rfl

namespace H3Connection

variable (c : H3Connection)

/-- The bytes of a stream that wait for the transport. -/
def waiting (stream : Nat) : List UInt8 :=
  ((c.pendingSends.get? stream).map (·.queue.flatten)).getD []

theorem waiting_eq {c : H3Connection} {stream : Nat} {p : PendingStream}
    (h : c.pendingSends.get? stream = some p) : c.waiting stream = p.queue.flatten := by
  rw [waiting, h]
  rfl

variable (stream : Nat)

theorem waiting_setPending (p : PendingStream) :
    (c.setPending stream p).waiting = update c.waiting stream p.queue.flatten := by
  funext i
  rw [waiting, setPending, Table.get?_insert]
  rcases eq_or_ne i stream with rfl | hne
  · rw [if_pos rfl, update_self]
    rfl
  · rw [if_neg hne, update_of_ne hne, waiting]

theorem waiting_dropPending : (c.dropPending stream).waiting = update c.waiting stream [] := by
  funext i
  rw [waiting, dropPending, Table.get?_erase]
  rcases eq_or_ne i stream with rfl | hne
  · rw [if_pos rfl, update_self]
    rfl
  · rw [if_neg hne, update_of_ne hne, waiting]

theorem weight_waiting :
    ((c.pendingSends.get? stream).map fun p => (p.queue.map length).sum).getD 0 =
      (c.waiting stream).length := by
  rw [waiting]
  rcases c.pendingSends.get? stream with _ | p
  · rfl
  · exact length_flatten.symm

theorem queuedBytes_setPending (p : PendingStream) :
    (c.setPending stream p).queuedBytes + (c.waiting stream).length =
      c.queuedBytes + p.queue.flatten.length := by
  rw [queuedBytes, setPending, ← weight_waiting, Table.weight_insert, length_flatten, queuedBytes]

theorem queuedBytes_dropPending :
    (c.dropPending stream).queuedBytes + (c.waiting stream).length = c.queuedBytes := by
  rw [queuedBytes, dropPending, ← weight_waiting, Table.weight_erase, queuedBytes]

end H3Connection

/-! ## Steps -/

/-- A call that sends, or that the transport has room again. -/
inductive SendOp where
  | queue (stream : Nat) (chunks : List (List UInt8)) (fin : Bool)
  | drain (stream : Nat)

/-- The transport takes a part of what it is offered, or is blocked, and reports no other error. -/
structure Answers.Clean (ans : Answers) : Prop where
  writes : ∀ a ∈ ans.writes, (∃ n, a = .ok n) ∨ a = .error (.write .blocked)
  finish : ans.finish = .ok ()

/-- What the journal says about a call of the transport. -/
def QuicOp.entry : QuicOp → Option (Entry Nat UInt8)
  | .wrote stream data => some (.taken stream data)
  | .finish stream => some (.finished stream)
  | _ => none

namespace Link

def send (l : Link) (s : SendOp × Answers) : Link × Except H3Error Unit :=
  match s.1 with
  | .queue stream chunks fin => l.queueSend s.2 stream chunks fin
  | .drain stream => l.drainPendingStream s.2 stream

/-- The calls of the transport during a step. -/
def newOps (l l' : Link) : List QuicOp := l'.quic.ops.drop l.quic.ops.length

/-- The journal of a run: the bytes that were queued successfully, and the calls of the transport. -/
def record (j : List (Entry Nat UInt8)) (l : Link) (s : SendOp × Answers) : List (Entry Nat UInt8) :=
  let queued : List (Entry Nat UInt8) :=
    match s.1, (l.send s).2 with
    | .queue stream chunks _, .ok () => [.queued stream chunks.flatten]
    | _, _ => []
  j ++ queued ++ (l.newOps (l.send s).1).filterMap QuicOp.entry

/-- What the steps keep: the transport is open, the journal is honest about the queues, and they are
within the limit. -/
structure Sound (limit : Fin (2 ^ 64)) (j : List (Entry Nat UInt8)) (l : Link) : Prop where
  running : l.quic.closed = false
  cap : l.conn.maxPendingBytes = limit
  orderly : Orderly l.conn.waiting j
  within : limit.val ≠ usizeMax → l.conn.queuedBytes ≤ limit.val

/-! ## One call -/

/-- The journal in the middle of a call that has begun with `base` calls of the transport. -/
def journal (base : Nat) (j : List (Entry Nat UInt8)) (q : Quic) : List (Entry Nat UInt8) :=
  j ++ (q.ops.drop base).filterMap QuicOp.entry

theorem journal_log {base : Nat} {j : List (Entry Nat UInt8)} {q : Quic} (hbase : base ≤ q.ops.length)
    {op : QuicOp} {e : Entry Nat UInt8} (he : op.entry = some e) :
    journal base j (q.log op) = journal base j q ++ [e] := by
  rw [journal, journal, Quic.log, drop_append_of_le_length hbase, filterMap_append,
    ← append_assoc]
  simp [he]

/-- What holds in the middle of a call. -/
structure Midway (base : Nat) (j : List (Entry Nat UInt8)) (waiting : Nat → List UInt8) (q : Quic) :
    Prop where
  running : q.closed = false
  base_le : base ≤ q.ops.length
  orderly : Orderly waiting (journal base j q)

section
variable {base : Nat} {j : List (Entry Nat UInt8)} {waiting : Nat → List UInt8} {q : Quic}

/-- The transport takes a part of what waits. -/
theorem Midway.offer (h : Midway base j waiting q) {stream : Nat} {chunks : List (List UInt8)}
    (hwaiting : waiting stream = chunks.flatten) {answer : Except QuicError Nat}
    (hclean : (∃ n, answer = .ok n) ∨ answer = .error (.write .blocked)) :
    let sent := q.streamSendChunks stream chunks answer
    ((∃ n, sent.2.1 = .ok n) ∨ sent.2.1 = .error (.write .blocked)) ∧
      Midway base j (update waiting stream sent.2.2.flatten) sent.1 ∧
      sent.2.2.flatten.length ≤ chunks.flatten.length := by
  intro sent
  rcases hclean with ⟨n, rfl⟩ | rfl
  · have hsent : sent = (q.log (.wrote stream (chunks.flatten.take (min n chunks.flatten.length))),
        .ok (min n chunks.flatten.length), advance (min n chunks.flatten.length) chunks) := by
      rw [show sent = q.streamSendChunks stream chunks (.ok n) from rfl, Quic.streamSendChunks,
        h.running]
      rfl
    rw [hsent]
    rw [flatten_advance]
    refine ⟨.inl ⟨_, rfl⟩, ⟨h.running, ?_, ?_⟩, ?_⟩
    · rw [Quic.log, length_append]
      exact Nat.le_add_right_of_le h.base_le
    · rw [journal_log h.base_le rfl]
      exact h.orderly.take (hwaiting.trans (take_append_drop _ _).symm)
    · rw [length_drop]
      exact Nat.sub_le _ _
  · have hsent : sent = (q, .error (.write .blocked), chunks) := by
      rw [show sent = q.streamSendChunks stream chunks (.error (.write .blocked)) from rfl,
        Quic.streamSendChunks, h.running]
      rfl
    rw [hsent]
    refine ⟨.inr rfl, ?_, Nat.le_refl _⟩
    rw [← hwaiting, update_eq_self]
    exact h

/-- A stream of which nothing waits is finished. -/
theorem Midway.finish (h : Midway base j waiting q) {stream : Nat} (hwaiting : waiting stream = []) :
    (q.streamFinish stream (.ok ())).2 = .ok () ∧
      Midway base j waiting (q.streamFinish stream (.ok ())).1 := by
  have hfinish : q.streamFinish stream (.ok ()) = (q.log (.finish stream), .ok ()) := by
    rw [Quic.streamFinish, h.running]
    rfl
  rw [hfinish]
  refine ⟨rfl, h.running, ?_, ?_⟩
  · rw [Quic.log, length_append]
    exact Nat.le_add_right_of_le h.base_le
  · rw [journal_log h.base_le rfl]
    exact h.orderly.finish hwaiting

end

/-- Closing a stream does not touch the queues. -/
theorem sends_setState (c : H3Connection) (stream : Nat) (next : StreamState → StreamState) :
    (c.setState stream next).pendingSends = c.pendingSends ∧
      (c.setState stream next).maxPendingBytes = c.maxPendingBytes := by
  rw [setState]
  rcases c.requestStreams.get? stream with _ | rs
  · exact ⟨rfl, rfl⟩
  · dsimp only
    split
    · exact ⟨rfl, rfl⟩
    · exact ⟨rfl, rfl⟩

/-- What a call does to the queues, if it had begun with `base` calls of the transport. -/
structure Served (base : Nat) (j : List (Entry Nat UInt8)) (l : Link) (more : Nat)
    (r : Link × Except H3Error Unit) : Prop where
  ok : r.2 = .ok ()
  midway : Midway base j r.1.conn.waiting r.1.quic
  cap : r.1.conn.maxPendingBytes = l.conn.maxPendingBytes
  bytes : r.1.conn.queuedBytes ≤ l.conn.queuedBytes + more

theorem waiting_of_sends {c c' : H3Connection} (h : c'.pendingSends = c.pendingSends) :
    c'.waiting = c.waiting := by
  funext i
  rw [waiting, waiting, h]

theorem queuedBytes_of_sends {c c' : H3Connection} (h : c'.pendingSends = c.pendingSends) :
    c'.queuedBytes = c.queuedBytes := by
  rw [queuedBytes, queuedBytes, h]

section
variable {base : Nat} {j : List (Entry Nat UInt8)} {l : Link} {stream : Nat}
  {chunks : List (List UInt8)}

theorem served_queueRest (hnone : l.conn.waiting stream = [])
    (h : Midway base j (update l.conn.waiting stream chunks.flatten) l.quic) (fin : Bool) :
    Served base j l chunks.flatten.length (l.queueRest stream chunks fin (.ok ())) := by
  have hflatten : (chunks.filter (· ≠ [])).flatten = chunks.flatten := flatten_filter_ne_nil
  rw [queueRest]
  dsimp only
  generalize chunks.filter (· ≠ []) = remaining at hflatten
  rw [← hflatten] at h ⊢
  split
  · rename_i hfin
    rw [hfin.1, flatten_nil] at h
    have hself : update l.conn.waiting stream [] = l.conn.waiting :=
      hnone ▸ update_eq_self _ _
    obtain ⟨hok, hmidway⟩ := (hself ▸ h).finish hnone
    rw [hok]
    have hsends : (l.conn.finalizeLocalClose stream).pendingSends = l.conn.pendingSends ∧ _ :=
      sends_setState l.conn stream StreamState.closeLocal
    refine ⟨rfl, ?_, hsends.2, ?_⟩
    · dsimp only [withConn]
      rw [waiting_dropPending, waiting_of_sends hsends.1, hself]
      exact hmidway
    · have hbytes := queuedBytes_dropPending (l.conn.finalizeLocalClose stream) stream
      rw [queuedBytes_of_sends hsends.1] at hbytes
      dsimp only [withConn]
      omega
  · have hqueue : (((l.conn.pendingSends.get? stream).getD .default).queue ++ remaining).flatten =
        remaining.flatten := by
      have hold : ((l.conn.pendingSends.get? stream).getD .default).queue.flatten = [] := by
        rw [waiting] at hnone
        rcases hp : l.conn.pendingSends.get? stream with _ | p
        · rfl
        · rw [hp] at hnone
          exact hnone
      rw [flatten_append, hold, nil_append]
    split
    · rename_i hdone
      have hempty : ((l.conn.pendingSends.get? stream).getD .default).queue ++ remaining = [] := by
        rw [PendingStream.isDone, Bool.and_eq_true] at hdone
        exact isEmpty_iff.mp hdone.1
      rw [hempty, flatten_nil] at hqueue
      refine ⟨rfl, ?_, rfl, ?_⟩
      · dsimp only [withConn]
        rw [waiting_dropPending]
        exact hqueue ▸ h
      · have hbytes := queuedBytes_dropPending l.conn stream
        dsimp only [withConn]
        omega
    · refine ⟨rfl, ?_, rfl, ?_⟩
      · dsimp only [withConn]
        rw [waiting_setPending, hqueue]
        exact h
      · have hbytes := queuedBytes_setPending l.conn stream
          ⟨((l.conn.pendingSends.get? stream).getD .default).queue ++ remaining,
            ((l.conn.pendingSends.get? stream).getD .default).pendingFin || fin⟩
        rw [hqueue, hnone, length_nil] at hbytes
        exact Nat.le_of_eq hbytes

theorem served_queueSend (stream : Nat) {ans : Answers} (hclean : ans.Clean) {limit : Fin (2 ^ 64)}
    (hl : Sound limit j l) (hlimit : l.overLimit chunks = false) (fin : Bool) :
    Served l.quic.ops.length (j ++ [.queued stream chunks.flatten]) l chunks.flatten.length
      (l.queueSend ans stream chunks fin) := by
  have hmidway : Midway l.quic.ops.length (j ++ [.queued stream chunks.flatten])
      (update l.conn.waiting stream (l.conn.waiting stream ++ chunks.flatten)) l.quic := by
    refine ⟨hl.running, Nat.le_refl _, ?_⟩
    rw [journal, drop_length, filterMap_nil, append_nil]
    exact hl.orderly.put stream chunks.flatten
  rw [queueSend, hlimit, if_neg Bool.false_ne_true]
  rcases hp : (l.conn.pendingSends.get? stream).filter (!·.isDone) with _ | pending
  · -- nothing waits: the transport comes first
    have hnone : l.conn.waiting stream = [] := by
      rw [waiting]
      rcases hget : l.conn.pendingSends.get? stream with _ | p
      · rfl
      · rw [hget, Option.filter_some] at hp
        have hdone : p.isDone = true := by
          by_contra hnot
          rw [if_pos (by simpa using hnot)] at hp
          cases hp
        rw [PendingStream.isDone, Bool.and_eq_true] at hdone
        exact congrArg flatten (isEmpty_iff.mp hdone.1)
    rw [hnone, nil_append] at hmidway
    have hanswer : (∃ n, ans.writes.headD (.error (.write .blocked)) = .ok n) ∨
        ans.writes.headD (.error (.write .blocked)) = .error (.write .blocked) := by
      rcases hw : ans.writes with _ | ⟨a, rest⟩
      · exact .inr rfl
      · exact hclean.writes a (hw ▸ mem_cons_self)
    obtain ⟨hresult, hoffer, hlen⟩ := hmidway.offer (update_self ..) hanswer
    dsimp only
    generalize l.quic.streamSendChunks stream chunks (ans.writes.headD (.error (.write .blocked))) =
      sent at hresult hoffer hlen
    rw [update_idem] at hoffer
    rw [hp, hclean.finish]
    have hserved := served_queueRest (l := { l with quic := sent.1 }) hnone hoffer fin
    have hmore : Served l.quic.ops.length (j ++ [.queued stream chunks.flatten]) l
        chunks.flatten.length (queueRest { l with quic := sent.1 } stream sent.2.2 fin (.ok ())) :=
      ⟨hserved.ok, hserved.midway, hserved.cap, Nat.le_trans hserved.bytes (Nat.add_le_add_left hlen _)⟩
    rcases hresult with ⟨n, hn⟩ | hblocked
    · rw [hn]
      exact hmore
    · rw [hblocked]
      exact hmore
  · obtain ⟨hget, -⟩ := Option.filter_eq_some_iff.mp hp
    have hwaiting := waiting_eq hget
    rw [hp]
    refine ⟨rfl, ?_, rfl, ?_⟩
    · dsimp only [withConn]
      rw [waiting_setPending, flatten_append, flatten_filter_ne_nil, ← hwaiting]
      exact hmidway
    · have hbytes := queuedBytes_setPending l.conn stream
        ⟨pending.queue ++ chunks.filter (· ≠ []), pending.pendingFin || fin⟩
      rw [flatten_append, flatten_filter_ne_nil, length_append, ← hwaiting] at hbytes
      dsimp only [withConn]
      omega

/-- The loop hands over what waits, piece by piece. -/
theorem midway_drainLoop (stream : Nat) {answers : List (Except QuicError Nat)}
    (hclean : ∀ a ∈ answers, (∃ n, a = .ok n) ∨ a = .error (.write .blocked))
    (h : Midway base j l.conn.waiting l.quic) :
    (drainLoop stream answers l).2 = false ∧
      Midway base j (drainLoop stream answers l).1.conn.waiting (drainLoop stream answers l).1.quic ∧
      (drainLoop stream answers l).1.conn.maxPendingBytes = l.conn.maxPendingBytes ∧
      (drainLoop stream answers l).1.conn.queuedBytes ≤ l.conn.queuedBytes := by
  induction answers generalizing l with
  | nil =>
    rw [drainLoop]
    rcases l.conn.pendingSends.get? stream with _ | pending
    · exact ⟨rfl, h, rfl, Nat.le_refl _⟩
    · dsimp only
      split
      · exact ⟨rfl, h, rfl, Nat.le_refl _⟩
      · exact ⟨rfl, h, rfl, Nat.le_refl _⟩
  | cons answer answers ih =>
    obtain ⟨hanswer, hrest⟩ := forall_mem_cons.mp hclean
    rw [drainLoop]
    rcases hget : l.conn.pendingSends.get? stream with _ | pending
    · exact ⟨rfl, h, rfl, Nat.le_refl _⟩
    · dsimp only
      split
      · exact ⟨rfl, h, rfl, Nat.le_refl _⟩
      · have hwaiting := waiting_eq hget
        obtain ⟨hresult, hoffer, hlen⟩ := h.offer hwaiting hanswer
        generalize l.quic.streamSendChunks stream pending.queue answer = sent at hresult hoffer hlen
        rw [← flatten_dropWhile_nil sent.2.2] at hoffer hlen
        generalize sent.2.2.dropWhile (· = []) = queue at hoffer hlen
        -- what is left goes back into the queue
        have hmidway : Midway base j (l.conn.setPending stream { pending with queue := queue }).waiting
            sent.1 := by
          rw [waiting_setPending]
          exact hoffer
        have hbytes := queuedBytes_setPending l.conn stream { pending with queue := queue }
        rw [hwaiting] at hbytes
        dsimp only at hbytes
        have hle : (l.conn.setPending stream { pending with queue := queue }).queuedBytes ≤
            l.conn.queuedBytes := by omega
        rcases hresult with ⟨n, hn⟩ | hblocked
        · rw [hn]
          rcases n with _ | n
          · exact ⟨rfl, hmidway, rfl, hle⟩
          · have hstep := ih (l := ⟨l.conn.setPending stream { pending with queue := queue }, sent.1⟩)
              hrest hmidway
            exact ⟨hstep.1, hstep.2.1, hstep.2.2.1, Nat.le_trans hstep.2.2.2 hle⟩
        · rw [hblocked]
          exact ⟨rfl, hmidway, rfl, hle⟩

/-- `settings_sent` is not about the queues. -/
theorem sends_markSent (c : H3Connection) (stream : Nat) :
    (if c.ourControlStream = some stream then { c with settingsSent := true } else c).pendingSends =
        c.pendingSends ∧
      (if c.ourControlStream = some stream then { c with settingsSent := true } else c).maxPendingBytes =
        c.maxPendingBytes := by
  split
  · exact ⟨rfl, rfl⟩
  · exact ⟨rfl, rfl⟩

/-- An entry whose queue is empty is dropped. -/
theorem served_dropPending {l' : Link} (hmidway : Midway base j l.conn.waiting l'.quic)
    (hnone : l.conn.waiting stream = [])
    (hsends : l'.conn.pendingSends = (l.conn.dropPending stream).pendingSends)
    (hcap : l'.conn.maxPendingBytes = l.conn.maxPendingBytes) :
    Served base j l 0 (l', .ok ()) := by
  refine ⟨rfl, ?_, hcap, ?_⟩
  · rw [waiting_of_sends hsends, waiting_dropPending, ← hnone, update_eq_self]
    exact hmidway
  · have hbytes := queuedBytes_dropPending l.conn stream
    rw [queuedBytes_of_sends hsends]
    omega

theorem served_drainPendingStream (stream : Nat) {ans : Answers} (hclean : ans.Clean)
    (h : Midway base j l.conn.waiting l.quic) :
    Served base j l 0 (l.drainPendingStream ans stream) := by
  obtain ⟨hfailed, hmidway, hcap, hbytes⟩ := midway_drainLoop stream hclean.writes h
  rw [drainPendingStream]
  rw [hfailed, if_neg Bool.false_ne_true, hclean.finish]
  generalize (drainLoop stream ans.writes l).1 = l₁ at hmidway hcap hbytes
  have hdrained : ∀ {r}, Served base j l₁ 0 r → Served base j l 0 r := fun hserved =>
    ⟨hserved.ok, hserved.midway, hserved.cap.trans hcap, Nat.le_trans hserved.bytes hbytes⟩
  refine hdrained ?_
  rcases hget : l₁.conn.pendingSends.get? stream with _ | pending
  · exact ⟨rfl, hmidway, rfl, Nat.le_refl _⟩
  · dsimp only
    split
    · rename_i hempty
      have hnone : l₁.conn.waiting stream = [] := by
        rw [waiting_eq hget, hempty, flatten_nil]
      split
      · obtain ⟨hok, hfinished⟩ := hmidway.finish hnone
        rw [hok]
        have hclose := sends_setState l₁.conn stream StreamState.closeLocal
        have hmark := sends_markSent ((l₁.conn.finalizeLocalClose stream).dropPending stream) stream
        refine served_dropPending hfinished hnone (hmark.1.trans ?_) (hmark.2.trans hclose.2)
        exact congrArg (Table.erase · stream) hclose.1
      · have hmark := sends_markSent (l₁.conn.dropPending stream) stream
        exact served_dropPending hmidway hnone hmark.1 hmark.2
    · exact ⟨rfl, hmidway, rfl, Nat.le_refl _⟩

end

/-! ## Runs -/

variable {l : Link} {chunks : List (List UInt8)} {limit : Fin (2 ^ 64)}

/-- What fits under the limit. -/
theorem bytes_of_not_overLimit (hcap : l.conn.maxPendingBytes = limit)
    (hwithin : limit.val ≠ usizeMax → l.conn.queuedBytes ≤ limit.val)
    (h : l.overLimit chunks = false) (hlimit : limit.val ≠ usizeMax) :
    l.conn.queuedBytes + chunks.flatten.length ≤ limit.val := by
  have hlt := limit.isLt
  have hold := hwithin hlimit
  rw [overLimit, hcap, Bool.and_eq_false_iff] at h
  rcases h with h | h
  · exact absurd hlimit (by simpa using h)
  · have hmin := Nat.not_lt.mp (of_decide_eq_false h)
    rw [computePendingBytes, Nat.mod_eq_of_lt (Nat.lt_of_le_of_lt hold hlt),
      ← length_flatten] at hmin
    have husize : usizeMax = 2 ^ 64 - 1 := rfl
    omega

/-- The call is refused before anything is done. -/
theorem queueSend_overLimit (h : l.overLimit chunks = true)
    (ans : Answers) (stream : Nat) (fin : Bool) :
    l.queueSend ans stream chunks fin = (l, .error .backpressureExceeded) := by
  rw [queueSend, if_pos h]

theorem sound_send {j : List (Entry Nat UInt8)} {s : SendOp × Answers} (hl : Sound limit j l)
    (hclean : s.2.Clean) : Sound limit (record j l s) (l.send s).1 := by
  obtain ⟨op, ans⟩ := s
  cases op with
  | queue stream chunks fin =>
    rcases hlimit : l.overLimit chunks with _ | _
    · have hserved := served_queueSend stream hclean hl hlimit fin
      have hrecord : record j l (.queue stream chunks fin, ans) =
          journal l.quic.ops.length (j ++ [.queued stream chunks.flatten])
            (l.queueSend ans stream chunks fin).1.quic := by
        rw [record, send]
        rw [hserved.ok]
        rfl
      refine ⟨hserved.midway.running, hserved.cap.trans hl.cap, ?_, fun hne => ?_⟩
      · rw [hrecord]
        exact hserved.midway.orderly
      · exact Nat.le_trans hserved.bytes (bytes_of_not_overLimit hl.cap hl.within hlimit hne)
    · have hsend : l.send (.queue stream chunks fin, ans) = (l, .error .backpressureExceeded) :=
        queueSend_overLimit hlimit _ _ _
      have hrecord : record j l (.queue stream chunks fin, ans) = j := by
        rw [record, hsend, newOps, drop_length]
        simp
      rw [hsend, hrecord]
      exact hl
  | drain stream =>
    have hmidway : Midway l.quic.ops.length j l.conn.waiting l.quic := by
      refine ⟨hl.running, Nat.le_refl _, ?_⟩
      rw [journal, drop_length, filterMap_nil, append_nil]
      exact hl.orderly
    have hserved := served_drainPendingStream stream hclean hmidway
    have hrecord : record j l (.drain stream, ans) =
        journal l.quic.ops.length j (l.drainPendingStream ans stream).1.quic := by
      rw [record, send]
      rw [append_nil]
      rfl
    refine ⟨hserved.midway.running, hserved.cap.trans hl.cap, ?_, fun hne => ?_⟩
    · rw [hrecord]
      exact hserved.midway.orderly
    · exact Nat.le_trans hserved.bytes (hl.within hne)

/-- **The transport gets what was queued**, in order: at every moment it has taken a prefix of the
bytes queued on a stream, it is told to finish the stream only when it has taken all of them, what it
has not taken stays within the limit over all streams, and a call that is refused does nothing. -/
theorem queued_sends_in_order (l : Link) (hempty : l.conn.pendingSends = .empty)
    (hrunning : l.quic.closed = false) (sends : List (SendOp × Answers))
    (hclean : ∀ s ∈ sends, s.2.Clean) :
    let limit := l.conn.maxPendingBytes
    let run := Machine.run (Machine.withHistory (fun l s => (l.send s).1) record) ([], l) sends
    (∀ before after, run.1 = before ++ after → ∀ stream,
        takenOf before stream <+: queuedOf before stream) ∧
      (∀ before stream after, run.1 = before ++ .finished stream :: after →
        takenOf before stream = queuedOf before stream) ∧
      (∀ stream, queuedOf run.1 stream = takenOf run.1 stream ++ run.2.conn.waiting stream) ∧
      run.2.conn.computePendingBytes ≤ limit.val ∧
      (limit.val < usizeMax → run.2.conn.queuedBytes ≤ limit.val) ∧
      ∀ ans : Answers, ans.Clean → ∀ stream chunks fin e,
        (run.2.queueSend ans stream chunks fin).2 = .error e →
          (run.2.queueSend ans stream chunks fin).1 = run.2 := by
  intro limit run
  have hwaiting : l.conn.waiting = fun _ => [] := by
    funext stream
    rw [waiting, hempty]
    rfl
  have hbytes : l.conn.queuedBytes = 0 := by
    rw [queuedBytes, hempty]
    rfl
  have hinit : Sound limit [] l :=
    ⟨hrunning, rfl, hwaiting ▸ Fifo.orderly_nil, fun _ => hbytes ▸ Nat.zero_le _⟩
  have hrun : Sound limit run.1 run.2 :=
    Machine.run_invariant (P := fun p : List (Entry Nat UInt8) × Link => Sound limit p.1 p.2) hinit
      fun x hx hp => sound_send hp (hclean x.2 (Machine.mem_of_mem_trace hx))
  have husize : usizeMax = 2 ^ 64 - 1 := rfl
  refine ⟨hrun.orderly.taken, hrun.orderly.finished, hrun.orderly.account, ?_,
    fun hlt => hrun.within (Nat.ne_of_lt hlt), fun ans hans stream chunks fin e herror => ?_⟩
  · rw [computePendingBytes]
    by_cases hlimit : limit.val = usizeMax
    · omega
    · exact Nat.le_trans (Nat.mod_le _ _) (hrun.within hlimit)
  · rcases hover : run.2.overLimit chunks with _ | _
    · rw [(served_queueSend stream hans hrun hover fin).ok] at herror
      cases herror
    · rw [queueSend_overLimit hover]

/-- A connection with a limit of eight bytes. -/
def limited : Link := ⟨{ new {} with maxPendingBytes := 8 }, ⟨false, []⟩⟩

/-- Three bytes of which the transport takes two, and then the last one. -/
def twoPieces : List (SendOp × Answers) :=
  [(.queue 4 [[1, 2], [3]] true, { writes := [.ok 2] }), (.drain 4, { writes := [.ok 7] })]

theorem queued_sends_in_order_two_pieces :
    let run := Machine.run (Machine.withHistory (fun l s => (send l s).1) record) ([], limited) twoPieces
    run.1 = [.queued 4 [1, 2, 3], .taken 4 [1, 2], .taken 4 [3], .finished 4] ∧
      takenOf run.1 4 <+: queuedOf run.1 4 ∧ run.2.conn.queuedBytes ≤ 8 := by
  intro run
  have hclean : ∀ s ∈ twoPieces, s.2.Clean := by
    refine forall_mem_cons.mpr ⟨⟨fun a ha => ?_, rfl⟩,
      forall_mem_cons.mpr ⟨⟨fun a ha => ?_, rfl⟩, nofun⟩⟩
    · exact .inl ⟨2, mem_singleton.mp ha⟩
    · exact .inl ⟨7, mem_singleton.mp ha⟩
  obtain ⟨htaken, -, -, -, hwithin, -⟩ := queued_sends_in_order limited rfl rfl twoPieces hclean
  exact ⟨rfl, htaken run.1 [] (append_nil _).symm 4, hwithin (by decide)⟩

/-! ## Requests -/

section
variable {ans : Answers} {headers : List HeaderField} {endStream : Bool}

/-- What a request puts into the queues. -/
def requestChunks (headers : List HeaderField) : List (List UInt8) :=
  [(Frame.headers (Qpack.encode headers)).encode]

/-- The stream that is opened for a request before its bytes come to the queues. -/
def opensFor (l : Link) (ans : Answers) (headers : List HeaderField) : Option Nat :=
  if l.conn.state = .closing ∨ l.conn.state = .closed then none
  else if l.tooLargeForPeer headers then none
  else if l.conn.connId.isNone then none
  else (l.quic.openStream ans.opened).toOption.join

/-- A request is undone if its bytes are refused at the queues. -/
def Undone (l : Link) (r : Link × Except H3Error Nat) : Prop :=
  r.2 = .error .backpressureExceeded → r.1 = l

theorem queueSend_ne_backpressure (h : l.overLimit chunks = false)
    (ans : Answers) (stream : Nat) (fin : Bool) :
    (l.queueSend ans stream chunks fin).2 ≠ .error .backpressureExceeded := by
  simp only [queueSend, queueRest, h, Bool.false_eq_true, if_false]
  repeat' split
  all_goals simp

/-- The stream that was opened for a request is in the table when the bytes are refused. -/
theorem sendRequest_cases (l : Link) (ans : Answers) (headers : List HeaderField) (endStream : Bool) :
    ((l.opensFor ans headers = none ∨ l.overLimit (requestChunks headers) = false) ∧
        (l.sendRequest ans headers endStream).2 ≠ .error .backpressureExceeded) ∨
      ∃ stream, ans.opened = .ok (some stream) ∧ l.opensFor ans headers = some stream ∧
        l.overLimit (requestChunks headers) = true ∧
        (l.sendRequest ans headers endStream).2 = .error .backpressureExceeded ∧
        (l.sendRequest ans headers endStream).1.conn.requestStreams.get? stream ≠ none := by
  rw [opensFor, sendRequest]
  split
  · simp
  · split
    · simp
    · split
      · simp
      · rcases hopened : l.quic.openStream ans.opened with e | _ | stream
        · simp [Except.toOption]
        · simp [Except.toOption]
        · have hanswer : ans.opened = .ok (some stream) := by
            rw [Quic.openStream] at hopened
            split at hopened
            · cases hopened
            · exact hopened
          dsimp only
          generalize hl' : l.withConn _ = l'
          have hover : l'.overLimit (requestChunks headers) = l.overLimit (requestChunks headers) := by
            rw [← hl']
            rfl
          rcases h : l.overLimit (requestChunks headers) with _ | _
          · refine .inl ⟨.inr rfl, ?_⟩
            have hqueued := queueSend_ne_backpressure (hover.trans h) ans stream endStream
            rw [requestChunks] at hqueued
            split
            · rename_i e he
              rw [he] at hqueued
              simpa using hqueued
            · simp
          · refine .inr ⟨stream, hanswer, rfl, rfl, ?_⟩
            have hqueued := queueSend_overLimit (hover.trans h) ans stream endStream
            rw [requestChunks] at hqueued
            rw [hqueued]
            refine ⟨rfl, ?_⟩
            simp [← hl', withConn]

/-- **A request is undone exactly if its bytes are not refused at the queues**: either it has been
refused before, or there is room.  The transport opens streams that have not been there. -/
theorem request_undone_iff
    (hfresh : ∀ stream, ans.opened = .ok (some stream) → l.conn.requestStreams.get? stream = none) :
    l.Undone (l.sendRequest ans headers endStream) ↔
      l.opensFor ans headers = none ∨ l.overLimit (requestChunks headers) = false := by
  rcases sendRequest_cases l ans headers endStream with ⟨hadmitted, hne⟩ |
    ⟨stream, hanswer, hopens, hover, herror, hstream⟩
  · exact ⟨fun _ => hadmitted, fun _ herror => absurd herror hne⟩
  · constructor
    · intro hundone
      rw [hundone herror] at hstream
      exact absurd (hfresh stream hanswer) hstream
    · simp [hopens, hover]

end

/-- A connection with a small limit. -/
def narrow (limit : Fin (2 ^ 64)) : Link :=
  ⟨{ new {} with connId := some 0, maxPendingBytes := limit }, ⟨false, []⟩⟩

theorem request_undone_iff_room :
    (narrow 8).Undone ((narrow 8).sendRequest { opened := .ok (some 0) } [] true) :=
  (request_undone_iff (by simp [narrow, new])).mpr (.inr (by decide))

/-- **Every attempt leaves a stream behind.** -/
theorem refused_requests_leave_streams :
    let once := (narrow 3).sendRequest { opened := .ok (some 0) } [] true
    let twice := once.1.sendRequest { opened := .ok (some 4) } [] true
    once.2 = .error .backpressureExceeded ∧ twice.2 = .error .backpressureExceeded ∧
      twice.1.conn.requestStreams.keys = [0, 4] ∧ ¬ (narrow 3).Undone once := by
  refine ⟨by decide, by decide, by decide, fun hundone => ?_⟩
  have hkeys := congrArg (fun l => l.conn.requestStreams.keys) (hundone (by decide))
  exact absurd hkeys (by decide)

end Link
end Ringline.H3
