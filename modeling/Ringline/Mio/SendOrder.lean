import Ringline.Mio.SendQueue
import Ringline.Base.Streams

/-!
# What reaches the socket

The bytes that were written on a connection, together with what is left in its queue, are what was
queued, in the order of the calls.  A bounded send is reported once: with its length as soon as its
last byte is written, and with an error if it is discarded before.  The write half is shut down only
while nothing is queued, and a connection with a queue is on the list of those to be flushed
(`Sound`).

All this holds in every run in which the socket takes no bytes after a flush has failed, and in
which bounded sends are queued as they are (`sound_watch`).  A failed flush discards the queue and
asks for the connection to be closed, but the connection takes sends until it is closed, and they
are written if the socket lets them.  Then there is a gap in the stream (`gap_after_failed_flush`).
A bounded send on a TLS connection is reported with the length of what TLS made of it, which is not
the length that was asked for.
-/

set_option autoImplicit false

namespace Ringline.Mio

open List Streams
open Ringline.Streams (Segment content marksFrom)

/-! ## The queue as a stream -/

namespace PendingSend

/-- The bytes that are left, and the bounded send that waits for them, with what it is reported to
have sent. -/
def segment (e : PendingSend) : Segment UInt8 (Nat × Nat) :=
  ⟨e.rest, e.bounded.map fun id => (id, e.data.length % 2 ^ 32)⟩

end PendingSend

namespace Conn

variable (queue : List PendingSend)

/-- What is left of a queue. -/
def pending : List (Segment UInt8 (Nat × Nat)) :=
  queue.map PendingSend.segment

/-- The bytes that were written. -/
def written (c : Conn) : Bytes :=
  c.wire.flatMap fun
    | .wrote bytes => bytes
    | .shutdown _ => []

/-- What a `writev` offers is the beginning of what is left. -/
theorem iovecs_prefix : (iovecs queue).flatten <+: content (pending queue) := by
  have hcontent : content (pending queue) =
      ((queue.map PendingSend.rest).filter fun r => !r.isEmpty).flatten := by
    rw [flatten_filter_not_isEmpty, content, pending, flatMap_map, flatMap_def]
    rfl
  rw [hcontent, iovecs]
  obtain ⟨t, ht⟩ := take_prefix 1024 ((queue.map PendingSend.rest).filter fun r => !r.isEmpty)
  exact ⟨t.flatten, by rw [← flatten_append, ht]⟩

/-- Nothing is left when there is nothing to offer. -/
theorem rest_eq_nil_of_iovecs {queue : List PendingSend} (h : (iovecs queue).isEmpty = true) :
    ∀ e ∈ queue, e.rest = [] := by
  intro e he
  rw [List.isEmpty_iff, iovecs, List.take_eq_nil_iff] at h
  by_contra hne
  have hmem : e.rest ∈ (queue.map PendingSend.rest).filter fun r => !r.isEmpty :=
    List.mem_filter.mpr ⟨List.mem_map_of_mem he, by simpa using hne⟩
  rcases h with h | h
  · cases h
  · rw [h] at hmem
    cases hmem

/-- **The socket takes some bytes**: they are the first ones of the queue, and the sends that are
finished are those whose last byte is among them. -/
theorem advance_spec (off n : Nat) (hn : n ≤ (content (pending queue)).length) :
    content (pending queue) =
        (content (pending queue)).take n ++ content (pending (advance queue n).2) ∧
      ∃ fin, marksFrom off (pending queue) =
          fin ++ marksFrom (off + n) (pending (advance queue n).2) ∧
        (∀ x ∈ fin, x.2 ≤ off + n) ∧
        fin.map Prod.fst = (advance queue n).1.filterMap (·.segment.label) := by
  induction queue generalizing off n with
  | nil =>
    refine ⟨?_, [], rfl, nofun, rfl⟩
    rw [advance]
    exact take_nil.symm ▸ rfl
  | cons e queue ih =>
    have hlength : e.segment.elems.length = e.data.length - e.offset := length_drop
    have hcons : pending (e :: queue) = e.segment :: pending queue := rfl
    rw [advance, hcons]
    rw [hcons, content_cons, length_append, hlength] at hn
    by_cases hzero : n = 0
    · rw [if_pos hzero, hzero]
      exact ⟨rfl, [], rfl, nofun, rfl⟩
    · rw [if_neg hzero]
      by_cases hle : e.data.length - e.offset ≤ n
      · -- the entry is finished
        rw [if_pos hle]
        obtain ⟨hcontent, fin, hmarks, hfin, hlabels⟩ :=
          ih (off + (e.data.length - e.offset)) (n - (e.data.length - e.offset)) (by omega)
        have hoff : off + (e.data.length - e.offset) + (n - (e.data.length - e.offset)) = off + n := by
          omega
        rw [hoff] at hmarks hfin
        refine ⟨?_, (e.segment.label.map (·, off + e.segment.elems.length)).toList ++ fin, ?_,
          fun x hx => ?_, ?_⟩
        · rw [content_cons, take_append, hlength,
            take_of_length_le (hlength ▸ hle), append_assoc, ← hcontent]
        · rw [marksFrom, hlength, hmarks, append_assoc]
        · rcases mem_append.mp hx with hx | hx
          · obtain ⟨i, -, rfl⟩ := Option.map_eq_some_iff.mp (Option.mem_toList.mp hx)
            omega
          · exact hfin x hx
        · rw [map_append, hlabels, filterMap_cons]
          cases e.segment.label <;> rfl
      · -- a part of the entry is written
        rw [if_neg hle]
        have hsegment : pending ({ e with offset := e.offset + n } :: queue) =
            ⟨e.segment.elems.drop n, e.segment.label⟩ :: pending queue := by
          rw [pending, map_cons, PendingSend.segment, PendingSend.segment, PendingSend.rest,
            PendingSend.rest, drop_drop]
          rfl
        have hnle : n ≤ e.segment.elems.length := by omega
        refine ⟨?_, [], ?_, nofun, rfl⟩
        · rw [hsegment, content_cons, content_cons,
            take_append_of_le_length hnle, ← append_assoc, take_append_drop]
        · rw [hsegment, nil_append, marksFrom_drop _ _ _ _ hnle]

/-- A bounded send that is left has something left. -/
theorem advance_nonempty {queue : List PendingSend} (n : Nat)
    (hne : ∀ x ∈ pending queue, x.label ≠ none → x.elems ≠ []) :
    ∀ x ∈ pending (advance queue n).2, x.label ≠ none → x.elems ≠ [] := by
  induction queue generalizing n with
  | nil => exact nofun
  | cons e queue ih =>
    rw [pending, map_cons, forall_mem_cons] at hne
    rw [advance]
    split
    · exact forall_mem_cons.mpr hne
    · dsimp only
      split
      · exact ih _ hne.2
      · rename_i hlt
        refine forall_mem_cons.mpr ⟨fun _ hnil => hlt ?_, hne.2⟩
        have := drop_eq_nil_iff.mp hnil
        dsimp only at this
        omega

theorem foldl_complete (done : List PendingSend) (c : Conn) :
    ∃ notified, done.foldl complete c =
      { c with
        sendCompletions := c.sendCompletions ++ notified
        boundedSendCompletions := c.boundedSendCompletions ++
          (done.filterMap (·.segment.label)).map fun x => (x.1, .ok x.2) } := by
  induction done generalizing c with
  | nil => exact ⟨[], by simp⟩
  | cons e done ih =>
    obtain ⟨notified, hnotified⟩ := ih (c.complete e)
    refine ⟨e.notifyLen.toList ++ notified, ?_⟩
    rw [foldl_cons, hnotified, complete, filterMap_cons]
    cases hbounded : e.bounded <;> simp [PendingSend.segment, hbounded]

/-- What is different after the socket took some bytes. -/
theorem wrote_eq (c : Conn) (n : Nat) :
    ∃ notified, c.wrote n =
      { c with
        queue := (advance c.queue n).2
        wire := c.wire ++ [.wrote ((iovecs c.queue).flatten.take n)]
        sendCompletions := c.sendCompletions ++ notified
        boundedSendCompletions := c.boundedSendCompletions ++
          ((advance c.queue n).1.filterMap (·.segment.label)).map fun x => (x.1, .ok x.2) } :=
  foldl_complete _ _

/-! ## What an observer knows -/

end Conn

structure SendHistory where
  /-- The bytes of all entries, in the order of the calls. -/
  accepted : Bytes
  /-- The bounded sends that were queued: the id and the length of each, and where it ends. -/
  bounded : List ((Nat × Nat) × Nat)
  /-- The bounded sends for which there was nothing to queue. -/
  empty : List (Nat × Nat)

namespace SendHistory

def start : SendHistory := ⟨[], [], []⟩

/-- An entry is queued. -/
def enter (h : SendHistory) (bytes : Bytes) (label : Option (Nat × Nat)) : SendHistory :=
  { h with
    accepted := h.accepted ++ bytes
    bounded := h.bounded ++ (label.map (·, h.accepted.length + bytes.length)).toList }

/-- The ids of the bounded sends. -/
def ids (h : SendHistory) : List Nat := h.bounded.map (·.1.1) ++ h.empty.map Prod.fst

end SendHistory

namespace Conn

/-- What the observer knows after a step. -/
def record (h : SendHistory) (c : Conn) : SendEvent → SendHistory
  | .send data tls | .sendAwaited data tls =>
    if c.lifecycle = .inactive then h
    else
      match payload data tls with
      | .error _ => h
      | .ok bytes => h.enter bytes none
  | .sendBounded id data reserve tls =>
    if c.lifecycle = .inactive then h
    else
      match reserve, payload data tls with
      | .error _, _ | _, .error _ => h
      | .ok (), .ok bytes =>
        if bytes = [] then { h with empty := h.empty ++ [(id, data.length % 2 ^ 32)] }
        else h.enter bytes (some (id, data.length % 2 ^ 32))
  | .forward data => if c.lifecycle ≠ .inactive ∧ c.stream then h.enter data none else h
  | .tlsOutput bytes => if c.lifecycle = .inactive then h else h.enter bytes none
  | .writable _ ok hello =>
    if c.lifecycle = .connecting ∧ ok then h.enter (hello.getD []) none else h
  | _ => h

/-- The connection, and what the observer knows of it. -/
def watch (c : Conn) (events : List SendEvent) : SendHistory × Conn :=
  Machine.run (Machine.withHistory step record) (.start, c) events

/-! ## The books of a connection -/

/-- What was queued is accounted for, where `base` is where the queue begins and `fin` are the
bounded sends that left it. -/
structure Books (h : SendHistory) (c : Conn) (base : Nat) (fin : List ((Nat × Nat) × Nat)) : Prop where
  accepted : base + (content (pending c.queue)).length = h.accepted.length
  bounded : h.bounded = fin ++ marksFrom base (pending c.queue)
  reported : (c.boundedSendCompletions.map Prod.fst).Perm
    (fin.map (·.1.1) ++ h.empty.map Prod.fst)
  ok : ∀ id n, (id, .ok n) ∈ c.boundedSendCompletions →
    (id, n) ∈ h.empty ∨ ∃ stop, ((id, n), stop) ∈ fin ∧ stop ≤ c.written.length
  error : ∀ id e, (id, .error e) ∈ c.boundedSendCompletions →
    c.failed = true ∧ ∃ n stop, ((id, n), stop) ∈ fin ∧ c.written.length < stop
  nonempty : ∀ x ∈ pending c.queue, x.label ≠ none → x.elems ≠ []
  unbroken : c.failed = false → c.written ++ content (pending c.queue) = h.accepted
  le : c.written.length ≤ base
  inOrder : c.written <+: h.accepted
  shutdown : ∀ n, .shutdown n ∈ c.wire → n = 0

/-- The books are in order. -/
def Booked (h : SendHistory) (c : Conn) : Prop := ∃ base fin, Books h c base fin

section

variable {h : SendHistory} {c c' : Conn}

theorem perm_insert {α : Type} {l f e : List α} (new : List α) (h : l.Perm (f ++ e)) :
    (l ++ new).Perm (f ++ new ++ e) := by
  rw [append_assoc]
  refine (h.append_right new).trans ?_
  rw [append_assoc]
  exact perm_append_comm.append_left f

theorem booked_new (outbound dirty : Bool) : Booked .start (new outbound dirty) := by
  refine ⟨0, [], rfl, rfl, .nil, nofun, nofun, nofun, fun _ => rfl, Nat.le_refl 0, ?_, nofun⟩
  exact nil_prefix

/-- The bounded sends of a queue. -/
theorem map_marksFrom_pending {β : Type} (base : Nat) (queue : List PendingSend) (f : Nat → β) :
    (marksFrom base (pending queue)).map (fun x => f x.1.1) =
      queue.filterMap fun e => e.bounded.map f := by
  have hlabels : (marksFrom base (pending queue)).map (fun x => f x.1.1) =
      ((pending queue).filterMap Segment.label).map fun x => f x.1 := by
    rw [← map_fst_marksFrom base, map_map]
    rfl
  rw [hlabels, pending, filterMap_map, map_filterMap]
  refine filterMap_congr fun e _ => ?_
  rw [Function.comp_apply, PendingSend.segment, Option.map_map]
  rfl

theorem clearPendingSends_reports (c : Conn) (base : Nat) (err : IoError) :
    (c.clearPendingSends err).boundedSendCompletions = c.boundedSendCompletions ++
      (marksFrom base (pending c.queue)).map fun x => (x.1.1, .error err) :=
  congrArg (c.boundedSendCompletions ++ ·)
    (map_marksFrom_pending base c.queue fun id => (id, (.error err : Except IoError Nat))).symm

section

variable (hb : Booked h c)

include hb

theorem Booked.of_eq (hqueue : pending c'.queue = pending c.queue := by rfl)
    (hbounded : c'.boundedSendCompletions = c.boundedSendCompletions := by rfl)
    (hwire : c'.wire = c.wire := by rfl) (hfailed : c'.failed = c.failed := by rfl) :
    Booked h c' := by
  obtain ⟨base, fin, hb⟩ := hb
  have hwritten : c'.written = c.written := by rw [written, written, hwire]
  refine ⟨base, fin, ?_⟩
  constructor
  · rw [hqueue]
    exact hb.accepted
  · rw [hqueue]
    exact hb.bounded
  · rw [hbounded]
    exact hb.reported
  · rw [hbounded, hwritten]
    exact hb.ok
  · rw [hbounded, hwritten, hfailed]
    exact hb.error
  · rw [hqueue]
    exact hb.nonempty
  · rw [hqueue, hwritten, hfailed]
    exact hb.unbroken
  · rw [hwritten]
    exact hb.le
  · rw [hwritten]
    exact hb.inOrder
  · rw [hwire]
    exact hb.shutdown

/-- An entry is queued. -/
theorem Booked.enter (e : PendingSend) (hoffset : e.offset = 0)
    (hne : e.bounded ≠ none → e.data ≠ []) :
    Booked (h.enter e.data e.segment.label) { c with queue := c.queue ++ [e] } := by
  obtain ⟨base, fin, hb⟩ := hb
  have helems : e.segment.elems = e.data := by
    rw [PendingSend.segment, PendingSend.rest, hoffset, drop_zero]
  have hpending : pending (c.queue ++ [e]) = pending c.queue ++ [e.segment] := map_append
  have hcontent : content (pending (c.queue ++ [e])) = content (pending c.queue) ++ e.data := by
    rw [hpending, content_append, content_cons, content_nil, helems,
      append_nil]
  refine ⟨base, fin, ?_, ?_, hb.reported, hb.ok, hb.error, ?_, fun hfailed => ?_, hb.le,
    hb.inOrder.trans (prefix_append _ _), hb.shutdown⟩
  · rw [hcontent, length_append, ← Nat.add_assoc, hb.accepted]
    exact length_append.symm
  · rw [hpending, marksFrom_append, hb.accepted, ← append_assoc, ← hb.bounded, marksFrom,
      helems, marksFrom, append_nil]
    rfl
  · intro x hx hlabel
    rw [hpending, mem_append, mem_singleton] at hx
    rcases hx with hx | rfl
    · exact hb.nonempty x hx hlabel
    · rw [helems]
      exact hne fun hnone => hlabel (by rw [PendingSend.segment, hnone]; rfl)
  · rw [hcontent, ← append_assoc]
    exact congrArg (· ++ e.data) (hb.unbroken hfailed)

/-- There was nothing to queue. -/
theorem Booked.empty (id n : Nat) : Booked { h with empty := h.empty ++ [(id, n)] }
      { c with boundedSendCompletions := c.boundedSendCompletions ++ [(id, .ok n)] } := by
  obtain ⟨base, fin, hb⟩ := hb
  refine ⟨base, fin, hb.accepted, hb.bounded, ?_, fun i m hmem => ?_, fun i e hmem => ?_, hb.nonempty,
    hb.unbroken, hb.le, hb.inOrder, hb.shutdown⟩
  · rw [map_append, map_append, ← append_assoc]
    exact hb.reported.append_right _
  · rcases mem_append.mp hmem with hmem | hmem
    · exact (hb.ok i m hmem).imp_left (mem_append_left _)
    · cases mem_singleton.mp hmem
      exact .inl (mem_append_right _ (mem_singleton_self _))
  · rcases mem_append.mp hmem with hmem | hmem
    · exact hb.error i e hmem
    · cases mem_singleton.mp hmem

/-- The socket took some bytes of a queue that is whole. -/
theorem Booked.wrote (hfailed : c.failed = false) {n : Nat}
    (hn : n ≤ (iovecs c.queue).flatten.length) : Booked h (c.wrote n) := by
  obtain ⟨base, fin, hb⟩ := hb
  have hiovecs := iovecs_prefix c.queue
  have hle : n ≤ (content (pending c.queue)).length := hn.trans hiovecs.length_le
  have htake : (iovecs c.queue).flatten.take n = (content (pending c.queue)).take n := by
    obtain ⟨t, ht⟩ := hiovecs
    rw [← ht, take_append_of_le_length hn]
  obtain ⟨notified, heq⟩ := wrote_eq c n
  obtain ⟨hcontent, fin', hmarks, hfin, hlabels⟩ := advance_spec c.queue base n hle
  have hreports : (c.wrote n).boundedSendCompletions =
      c.boundedSendCompletions ++ fin'.map fun x => (x.1.1, .ok x.1.2) := by
    rw [heq, ← hlabels, map_map]
    rfl
  have hunbroken := hb.unbroken hfailed
  have hbase : base = c.written.length := by
    have := congrArg length hunbroken
    rw [length_append, ← hb.accepted] at this
    omega
  have hwritten : (c.wrote n).written = c.written ++ (content (pending c.queue)).take n := by
    rw [heq, written, flatMap_append, ← htake]
    exact congrArg (c.written ++ ·) (append_nil _)
  have hlength : (c.wrote n).written.length = base + n := by
    rw [hwritten, length_append, length_take, Nat.min_eq_left hle, hbase]
  have hwhole : (c.wrote n).written ++ content (pending (c.wrote n).queue) = h.accepted := by
    rw [hwritten, heq, append_assoc, ← hcontent, hunbroken]
  refine ⟨base + n, fin ++ fin', ?_, ?_, ?_, fun id m hmem => ?_, fun id e hmem => ?_, ?_,
    fun _ => hwhole, hlength.le, ⟨_, hwhole⟩, fun m hmem => ?_⟩
  · rw [← hlength, ← length_append, hwhole]
  · rw [heq, hb.bounded, hmarks, append_assoc]
  · rw [hreports, map_append, map_append, map_map]
    exact perm_insert _ hb.reported
  · rw [hreports] at hmem
    rcases mem_append.mp hmem with hmem | hmem
    · refine (hb.ok id m hmem).imp_right fun ⟨stop, hstop, hle⟩ =>
        ⟨stop, mem_append_left _ hstop, ?_⟩
      omega
    · -- one of the sends that are finished now
      obtain ⟨⟨⟨i, k⟩, stop⟩, hx, hxeq⟩ := mem_map.mp hmem
      cases hxeq
      exact .inr ⟨stop, mem_append_right _ hx, hlength ▸ hfin _ hx⟩
  · rw [hreports] at hmem
    rcases mem_append.mp hmem with hmem | hmem
    · exact absurd (hb.error id e hmem).1 (by rw [hfailed]; exact nofun)
    · obtain ⟨x, -, hxeq⟩ := mem_map.mp hmem
      cases hxeq
  · rw [heq]
    exact advance_nonempty n hb.nonempty
  · rw [heq] at hmem
    rcases mem_append.mp hmem with hmem | hmem
    · exact hb.shutdown m hmem
    · cases mem_singleton.mp hmem

/-- What is queued is discarded. -/
theorem Booked.discard (err : IoError) :
    Booked h { c.clearPendingSends err with failed := true } := by
  obtain ⟨base, fin, hb⟩ := hb
  have hreports := clearPendingSends_reports c base err
  refine ⟨h.accepted.length, h.bounded, rfl, (append_nil _).symm, ?_, fun id m hmem => ?_,
    fun id e hmem => ⟨rfl, ?_⟩, nofun, nofun, hb.inOrder.length_le, hb.inOrder, hb.shutdown⟩
  · rw [hreports, hb.bounded, map_append, map_append, map_map]
    exact perm_insert _ hb.reported
  · rw [hreports] at hmem
    rcases mem_append.mp hmem with hmem | hmem
    · rw [hb.bounded]
      exact (hb.ok id m hmem).imp_right fun ⟨stop, hstop, hle⟩ =>
        ⟨stop, mem_append_left _ hstop, hle⟩
    · obtain ⟨x, -, hxeq⟩ := mem_map.mp hmem
      cases hxeq
  · rw [hreports] at hmem
    rw [hb.bounded]
    rcases mem_append.mp hmem with hmem | hmem
    · obtain ⟨-, n, stop, hstop, hlt⟩ := hb.error id e hmem
      exact ⟨n, stop, mem_append_left _ hstop, hlt⟩
    · obtain ⟨⟨⟨i, n⟩, stop⟩, hx, hxeq⟩ := mem_map.mp hmem
      cases hxeq
      have hlt := lt_of_mem_marksFrom hb.nonempty hx
      exact ⟨n, stop, mem_append_right _ hx, Nat.lt_of_le_of_lt hb.le hlt⟩

/-- Entries without bytes are discarded. -/
theorem Booked.discardEmpty (err : IoError) (hrest : ∀ e ∈ c.queue, e.rest = []) :
    Booked h (c.clearPendingSends err) := by
  obtain ⟨base, fin, hb⟩ := hb
  have helems : ∀ x ∈ pending c.queue, x.elems = [] := by
    intro x hx
    obtain ⟨e, he, rfl⟩ := mem_map.mp hx
    exact hrest e he
  have hcontent : content (pending c.queue) = [] := flatMap_eq_nil_iff.mpr helems
  -- a bounded send is never empty
  have hmarks : marksFrom base (pending c.queue) = [] :=
    marksFrom_of_unlabelled base fun x hx =>
      of_not_not fun hlabel => hb.nonempty x hx hlabel (helems x hx)
  have hreports : (c.clearPendingSends err).boundedSendCompletions = c.boundedSendCompletions := by
    rw [clearPendingSends_reports c base, hmarks]
    exact append_nil _
  refine ⟨base, fin, ?_, ?_, ?_, ?_, ?_, nofun, fun hfailed => ?_, hb.le, hb.inOrder, hb.shutdown⟩
  · rw [← hb.accepted, hcontent]
    rfl
  · rw [hb.bounded, hmarks]
    rfl
  · rw [hreports]
    exact hb.reported
  · rw [hreports]
    exact hb.ok
  · rw [hreports]
    exact hb.error
  · rw [← hb.unbroken hfailed, hcontent]
    rfl

/-- The write half is shut down. -/
theorem Booked.shutdown (hqueue : c.queue = []) :
    Booked h { c with write := .shutdown, wire := c.wire ++ [.shutdown c.queue.length] } := by
  obtain ⟨base, fin, hb⟩ := hb
  have hwritten : written { c with
      write := .shutdown, wire := c.wire ++ [.shutdown c.queue.length] } = c.written := by
    rw [written, flatMap_append]
    exact append_nil _
  refine ⟨base, fin, hb.accepted, hb.bounded, hb.reported, ?_, ?_, hb.nonempty, ?_, ?_, ?_,
    fun n hn => ?_⟩
  · rw [hwritten]
    exact hb.ok
  · rw [hwritten]
    exact hb.error
  · rw [hwritten]
    exact hb.unbroken
  · rw [hwritten]
    exact hb.le
  · rw [hwritten]
    exact hb.inOrder
  · rcases mem_append.mp hn with hn | hn
    · exact hb.shutdown n hn
    · cases mem_singleton.mp hn
      rw [hqueue]
      rfl

end

/-! ## Flushing -/

@[simp] theorem markSendDirty_sendsDirtyFlag : c.markSendDirty.sendsDirtyFlag = true := by
  rw [markSendDirty]
  split <;> trivial

theorem markSendDirty_counted (hc : c.sendsDirty = c.sendsDirtyFlag.toNat) :
    c.markSendDirty.sendsDirty = 1 := by
  rw [markSendDirty]
  split
  · rename_i hflag
    rw [hc, hflag]
    rfl
  · rename_i hflag
    rw [Bool.not_eq_true] at hflag
    rw [hc, hflag]
    rfl

/-- Only the list of the connections to be flushed is different. -/
theorem markSendDirty_eq (c : Conn) :
    c.markSendDirty =
      { c with sendsDirtyFlag := true, sendsDirty := c.markSendDirty.sendsDirty } := by
  obtain ⟨queue, stream, writable, flag, dirty, lifecycle, write, sends, bounded, failed, wire⟩ := c
  cases flag <;> rfl

theorem Booked.markSendDirty (hb : Booked h c) : Booked h c.markSendDirty := by
  rw [markSendDirty_eq]
  exact hb.of_eq

/-- What a flush keeps. -/
structure Flushed (h : SendHistory) (c c' : Conn) : Prop where
  booked : Booked h c → Booked h c'
  failed : c'.failed = c.failed
  lifecycle : c'.lifecycle = c.lifecycle
  stream : c'.stream = c.stream
  counted : c.sendsDirty = c.sendsDirtyFlag.toNat → c'.sendsDirty = c'.sendsDirtyFlag.toNat
  flag : c.sendsDirtyFlag = true → c'.sendsDirtyFlag = true
  queue : c.queue = [] → c'.queue = []

theorem Flushed.refl (h : SendHistory) (c : Conn) : Flushed h c c :=
  ⟨fun hb => hb, rfl, rfl, rfl, fun hc => hc, fun hf => hf, fun hq => hq⟩

theorem Flushed.trans {c'' : Conn} (h₁ : Flushed h c c') (h₂ : Flushed h c' c'') :
    Flushed h c c'' where
  booked hb := h₂.booked (h₁.booked hb)
  failed := h₂.failed.trans h₁.failed
  lifecycle := h₂.lifecycle.trans h₁.lifecycle
  stream := h₂.stream.trans h₁.stream
  counted hc := h₂.counted (h₁.counted hc)
  flag hf := h₂.flag (h₁.flag hf)
  queue hq := h₂.queue (h₁.queue hq)

theorem flushed_wrote (hfailed : c.failed = false) {n : Nat}
    (hn : n ≤ (iovecs c.queue).flatten.length) : Flushed h c (c.wrote n) := by
  obtain ⟨notified, heq⟩ := wrote_eq c n
  have hqueue : c.queue = [] → (c.wrote n).queue = [] := by
    intro hqueue
    rw [heq, hqueue]
    rfl
  refine ⟨fun hb => hb.wrote hfailed hn, ?_, ?_, ?_, ?_, ?_, hqueue⟩
  · rw [heq]
  · rw [heq]
  · rw [heq]
  · rw [heq]
    exact fun hc => hc
  · rw [heq]
    exact fun hf => hf

theorem flushed_markSendDirty (h : SendHistory) (c : Conn) : Flushed h c c.markSendDirty := by
  refine ⟨Booked.markSendDirty, ?_, ?_, ?_, fun hc => ?_, fun _ => markSendDirty_sendsDirtyFlag,
    fun hq => ?_⟩
  · rw [markSendDirty_eq]
  · rw [markSendDirty_eq]
  · rw [markSendDirty_eq]
  · rw [markSendDirty_sendsDirtyFlag, markSendDirty_counted hc]
    rfl
  · rw [markSendDirty_eq]
    exact hq

theorem flushed_writable (h : SendHistory) (c : Conn) (b : Bool) :
    Flushed h c { c with writable := b } :=
  ⟨fun hb => hb.of_eq, rfl, rfl, rfl, fun hc => hc, fun hf => hf, fun hq => hq⟩

/-- After the queue was discarded, the socket takes no bytes. -/
def Quiet (c : Conn) (outcomes : List WriteOutcome) : Prop :=
  c.failed = true → c.stream = true → c.queue ≠ [] → ∀ n, .accepted n ∈ outcomes → n = 0

variable {outcomes : List WriteOutcome}

/-- **The loop of `flush_sends`** keeps the books, as long as no bytes are written after the queue
was discarded, and it leaves nothing behind if it says so. -/
theorem flushed_flushLoop (hstream : c.stream = true) (hquiet : Quiet c outcomes) :
    Flushed h c (c.flushLoop outcomes).1 ∧
      ((c.flushLoop outcomes).2 = .ok true → (c.flushLoop outcomes).1.queue = []) := by
  fun_induction flushLoop c outcomes with
  | case1 _ c hqueue => exact ⟨.refl h c, fun _ => isEmpty_iff.mp hqueue⟩
  | case2 _ _ _ hnone =>
    exact ⟨⟨fun hb => hb.discardEmpty _ (rest_eq_nil_of_iovecs hnone), rfl, rfl, rfl,
      fun hc => hc, fun hf => hf, fun _ => rfl⟩, fun _ => rfl⟩
  | case3 c => exact ⟨(flushed_writable h c false).trans (flushed_markSendDirty h _), nofun⟩
  | case4 c => exact ⟨(flushed_writable h c false).trans (flushed_markSendDirty h _), nofun⟩
  | case5 c => exact ⟨.refl h c, nofun⟩
  | case6 c => exact ⟨.refl h c, nofun⟩
  | case7 c hqueue _ n outcomes m hpos ih =>
    -- some bytes are written, so that nothing was discarded
    have hfailed : c.failed = false := by
      by_contra hfailed
      have hzero := hquiet (Bool.not_eq_false _ ▸ hfailed) hstream
        (fun hnil => hqueue (isEmpty_iff.mpr hnil)) n mem_cons_self
      exact hpos (Nat.min_eq_zero_iff.mpr (.inl hzero))
    have hwrote : Flushed h c (c.wrote m) := flushed_wrote hfailed (Nat.min_le_right n _)
    obtain ⟨hflushed, hdone⟩ := ih (hwrote.stream.trans hstream)
      fun htrue => absurd (hwrote.failed.trans hfailed) (by rw [htrue]; exact nofun)
    exact ⟨hwrote.trans hflushed, hdone⟩

/-- **`flush_sends`** keeps the books. -/
theorem flushed_flushSends (hquiet : Quiet c outcomes) : Flushed h c (c.flushSends outcomes).1 := by
  rw [flushSends]
  split
  · rename_i hstream
    obtain ⟨hflushed, hdone⟩ := flushed_flushLoop (h := h) hstream hquiet
    split
    · rename_i c' heq
      rw [heq] at hflushed hdone
      refine hflushed.trans ?_
      have hqueue : c'.queue = [] := hdone rfl
      rw [finishShutdown]
      split
      · exact ⟨fun hb => hb.shutdown hqueue, rfl, rfl, rfl, fun hc => hc, fun hf => hf, fun hq => hq⟩
      · exact .refl h c'
    · exact hflushed
  · exact .refl h c

/-! ## The invariant -/

/-- What holds also while the list of the connections to be flushed is gone through. -/
structure Sane (h : SendHistory) (c : Conn) : Prop where
  booked : Booked h c
  counted : c.sendsDirty = c.sendsDirtyFlag.toNat
  closed : c.lifecycle = .inactive → c.queue = []
  isOver : c.failed = true → c.lifecycle ≠ .connecting

structure Kept (h : SendHistory) (c : Conn) : Prop extends Sane h c where
  marked : c.queue ≠ [] → c.sendsDirtyFlag = true

theorem Sane.flushed (hs : Sane h c) (hf : Flushed h c c') : Sane h c' where
  booked := hf.booked hs.booked
  counted := hf.counted hs.counted
  closed hclosed := hf.queue (hs.closed (hf.lifecycle ▸ hclosed))
  isOver hfailed := by
    rw [hf.lifecycle]
    exact hs.isOver (hf.failed ▸ hfailed)

theorem Kept.flushed (hk : Kept h c) (hf : Flushed h c c') : Kept h c' where
  toSane := hk.toSane.flushed hf
  marked hqueue := hf.flag (hk.marked fun hq => hqueue (hf.queue hq))

theorem closeConnection_eq (c : Conn) :
    c.closeConnection = { c with lifecycle := c.closeConnection.lifecycle } := by
  rw [closeConnection]
  split <;> rfl

theorem closeConnection_lifecycle (c : Conn) :
    c.closeConnection.lifecycle = .closing ∨
      c.closeConnection.lifecycle = .inactive ∧ c.lifecycle = .inactive := by
  rw [closeConnection]
  split
  · exact .inr ⟨by assumption, by assumption⟩
  · exact .inl (by assumption)
  · exact .inl rfl

theorem Kept.closeConnection (hk : Kept h c) : Kept h c.closeConnection := by
  have hlifecycle := closeConnection_lifecycle c
  rw [closeConnection_eq] at hlifecycle ⊢
  refine ⟨⟨hk.booked.of_eq, hk.counted, fun hclosed => ?_, fun _ hconnecting => ?_⟩,
    hk.marked⟩
  · rcases hlifecycle with hclosing | ⟨-, hinactive⟩
    · rw [hclosed] at hclosing
      cases hclosing
    · exact hk.closed hinactive
  · rw [hconnecting] at hlifecycle
    exact hlifecycle.elim nofun fun h => by cases h.1

/-- A flush that failed. -/
theorem Sane.failConnection (hs : Sane h c) (e : IoError) : Kept h (c.failConnection e) := by
  have hlifecycle := closeConnection_lifecycle (c.clearPendingSends e)
  rw [Conn.failConnection, closeConnection_eq]
  refine ⟨⟨(hs.booked.discard e).of_eq, hs.counted, fun _ => rfl,
    fun _ hconnecting => ?_⟩, fun hqueue => absurd rfl hqueue⟩
  rw [hconnecting] at hlifecycle
  exact hlifecycle.elim nofun fun h => by cases h.1

theorem Sane.settle {r : Conn × Except IoError Bool} (hs : Sane h r.1) : Sane h (settle r) := by
  obtain ⟨c, e | done⟩ := r
  · exact (hs.failConnection e).toSane
  · exact hs

theorem Kept.settle {r : Conn × Except IoError Bool} (hk : Kept h r.1) : Kept h (Conn.settle r) := by
  obtain ⟨c, e | done⟩ := r
  · exact hk.toSane.failConnection e
  · exact hk

theorem Kept.handleWritable (hk : Kept h c) (hquiet : Quiet c outcomes) :
    Kept h (c.handleWritable outcomes) :=
  ((hk.flushed (flushed_writable h c true)).flushed (flushed_flushSends hquiet)).settle

theorem Sane.mark (hs : Sane h c) : Kept h c.markSendDirty where
  toSane := hs.flushed (flushed_markSendDirty h c)
  marked _ := markSendDirty_sendsDirtyFlag

theorem Sane.markUnlessEmpty (hs : Sane h c) :
    Kept h (if c.queue.isEmpty then c else c.markSendDirty) := by
  split
  · rename_i hqueue
    exact ⟨hs, fun hne => absurd (isEmpty_iff.mp hqueue) hne⟩
  · exact hs.mark

/-- An entry of the list of the connections to be flushed. -/
theorem Sane.visit (hs : Sane h { c with sendsDirtyFlag := false }) (hquiet : Quiet c outcomes) :
    Kept h (c.visit outcomes) := by
  rw [Conn.visit]
  split
  · rename_i hqueue
    exact ⟨hs, fun hne => absurd (isEmpty_iff.mp hqueue) hne⟩
  · refine Sane.markUnlessEmpty ?_
    split
    · exact (hs.flushed (flushed_flushSends hquiet)).settle
    · exact hs

theorem Kept.flushAllPendingSends (hk : Kept h c) {outcomes : Nat → List WriteOutcome}
    (hquiet : ∀ i < c.sendsDirty, Quiet c (outcomes i)) :
    Kept h (c.flushAllPendingSends outcomes) := by
  have hcounted := hk.counted
  rw [Conn.flushAllPendingSends]
  cases hflag : c.sendsDirtyFlag with
  | false =>
    have hdirty : c.sendsDirty = 0 := by
      rw [hcounted, hflag]
      rfl
    rw [hdirty]
    exact ⟨⟨hk.booked.of_eq, rfl, hk.closed, hk.isOver⟩,
      fun hqueue => absurd (hk.marked hqueue) (hflag ▸ nofun)⟩
  | true =>
    have hdirty : c.sendsDirty = 1 := by
      rw [hcounted, hflag]
      rfl
    rw [hdirty]
    exact Sane.visit (c := { c with sendsDirtyFlag := true, sendsDirty := 0 })
      ⟨hk.booked.of_eq, rfl, hk.closed, hk.isOver⟩
      (hquiet 0 (by rw [hdirty]; exact Nat.one_pos))

/-! ## The steps -/

theorem enter_nil (h : SendHistory) : h.enter [] none = h := by
  simp [SendHistory.enter]

/-- An entry is queued. -/
theorem Sane.append (hs : Sane h c) (e : PendingSend) (hopen : c.lifecycle ≠ .inactive)
    (hoffset : e.offset = 0) (hne : e.bounded ≠ none → e.data ≠ []) :
    Sane (h.enter e.data e.segment.label) { c with queue := c.queue ++ [e] } :=
  ⟨hs.booked.enter e hoffset hne, hs.counted, fun hclosed => absurd hclosed hopen, hs.isOver⟩

theorem pending_markLastSendAwaited (c : Conn) :
    pending c.markLastSendAwaited.queue = pending c.queue := by
  rw [Conn.markLastSendAwaited]
  split
  · rename_i e he
    obtain ⟨queue, hqueue⟩ := getLast?_eq_some_iff.mp he
    rw [hqueue, dropLast_concat, pending, pending, map_append, map_append]
    rfl
  · rfl

/-- What a bounded send is reported to have sent is what was asked for. -/
def Plain (data : Bytes) (tls : Option (Except IoError Bytes)) : Prop :=
  ∀ bytes, payload data tls = .ok bytes → bytes = [] ∨ bytes.length % 2 ^ 32 = data.length % 2 ^ 32

section

variable (hk : Kept h c)

include hk

theorem Kept.push (e : PendingSend) (hopen : c.lifecycle ≠ .inactive) (hoffset : e.offset = 0)
    (hne : e.bounded ≠ none → e.data ≠ []) : Kept (h.enter e.data e.segment.label) (c.push e) :=
  (hk.toSane.append e hopen hoffset hne).mark

theorem Kept.pushPlain (bytes : Bytes) (hopen : c.lifecycle ≠ .inactive) :
    Kept (h.enter bytes none) (c.push (.plain bytes)) :=
  hk.push (.plain bytes) hopen rfl fun hne => absurd rfl hne

theorem Kept.send (data : Bytes) (tls : Option (Except IoError Bytes)) :
    Kept (record h c (.send data tls)) (c.send data tls).1 := by
  rw [record, Conn.send]
  split
  · exact hk
  · rename_i hopen
    cases payload data tls with
    | error e => exact hk
    | ok bytes =>
      dsimp only
      split
      · rename_i hempty
        rw [hempty.2, enter_nil]
        exact hk
      · exact hk.pushPlain bytes hopen

theorem Kept.markLastSendAwaited : Kept h c.markLastSendAwaited := by
  have hpending := pending_markLastSendAwaited c
  have hqueue : c.markLastSendAwaited.queue = [] ↔ c.queue = [] := by
    rw [← map_eq_nil_iff (f := PendingSend.segment), ← map_eq_nil_iff (f := PendingSend.segment)]
    exact iff_of_eq (congrArg (· = []) hpending)
  have hfields : c.markLastSendAwaited =
      { c with
        queue := c.markLastSendAwaited.queue
        sendCompletions := c.markLastSendAwaited.sendCompletions } := by
    rw [Conn.markLastSendAwaited]
    split <;> rfl
  rw [hfields]
  refine ⟨⟨hk.booked.of_eq hpending, hk.counted, ?_, hk.isOver⟩, ?_⟩
  · exact fun hclosed => hqueue.mpr (hk.closed hclosed)
  · exact fun hne => hk.marked fun hnil => hne (hqueue.mpr hnil)

theorem Kept.sendAwaited (data : Bytes) (tls : Option (Except IoError Bytes)) :
    Kept (record h c (.sendAwaited data tls)) (c.sendAwaited data tls) := by
  have hsend : Kept (record h c (.sendAwaited data tls)) (c.send data tls).1 := hk.send data tls
  rw [Conn.sendAwaited]
  split
  · rename_i c' heq
    rw [heq] at hsend
    exact hsend.markLastSendAwaited
  · rename_i c' heq
    rw [heq] at hsend
    exact hsend

theorem Kept.sendBounded (id : Nat) (data : Bytes) (reserve : Except IoError Unit)
    {tls : Option (Except IoError Bytes)} (hplain : Plain data tls) :
    Kept (record h c (.sendBounded id data reserve tls)) (c.sendBounded id data reserve tls) := by
  simp only [record, Conn.sendBounded]
  split
  · exact hk
  · rename_i hopen
    cases reserve with
    | error e => exact hk
    | ok u =>
      cases hpayload : payload data tls with
      | error e => exact hk
      | ok bytes =>
        show Kept (if bytes = [] then _ else _) (if bytes = [] then _ else _)
        split
        · exact ⟨⟨hk.booked.empty id _, hk.counted, hk.closed, hk.isOver⟩, hk.marked⟩
        · rename_i hne
          rw [← (hplain bytes hpayload).resolve_left hne]
          exact hk.push (.withId bytes id) hopen rfl fun _ => hne

theorem Kept.shutdownWrite : Kept h c.shutdownWrite := by
  rw [Conn.shutdownWrite]
  split
  · exact hk
  · split
    · rename_i hqueue
      refine ⟨⟨?_, hk.counted, hk.closed, hk.isOver⟩, hk.marked⟩
      split
      · exact hk.booked.shutdown (isEmpty_iff.mp hqueue)
      · exact hk.booked.of_eq
    · refine Sane.mark ⟨hk.booked.of_eq, hk.counted, hk.closed, hk.isOver⟩

theorem Kept.tlsOutput (bytes : Bytes) (hopen : c.lifecycle ≠ .inactive) :
    Kept (h.enter bytes none) (c.tlsOutput bytes) := by
  have hs : Sane (h.enter bytes none)
      (if bytes.isEmpty then c else { c with queue := c.queue ++ [.plain bytes] }) := by
    split
    · rename_i hempty
      rw [isEmpty_iff.mp hempty, enter_nil]
      exact hk.toSane
    · exact hk.toSane.append (.plain bytes) hopen rfl fun hne => absurd rfl hne
  exact hs.markUnlessEmpty

end

theorem tlsOutput_failed (c : Conn) (bytes : Bytes) : (c.tlsOutput bytes).failed = c.failed := by
  have hmark : ∀ c' : Conn,
      (if c'.queue.isEmpty then c' else c'.markSendDirty).failed = c'.failed := by
    intro c'
    split
    · rfl
    · exact (flushed_markSendDirty .start c').failed
  refine (hmark _).trans ?_
  split <;> rfl

/-- While a connection is being made no flush can have failed. -/
theorem Kept.connected (hk : Kept h c) (hconnecting : c.lifecycle = .connecting) (ok : Bool)
    (hello : Option Bytes) (outcomes : List WriteOutcome) :
    Kept (record h c (.writable outcomes ok hello)) (c.connected ok hello outcomes) := by
  have hfailed : c.failed = false := by
    by_contra hfailed
    exact hk.isOver (Bool.not_eq_false _ ▸ hfailed) hconnecting
  have hopen : Kept h { c with lifecycle := .open_ } :=
    ⟨⟨hk.booked.of_eq, hk.counted, nofun, nofun⟩, hk.marked⟩
  rw [record, Conn.connected]
  cases ok with
  | false =>
    rw [if_neg (by simp), if_neg (by simp)]
    exact hk.closeConnection
  | true =>
    rw [if_pos ⟨hconnecting, rfl⟩, if_pos rfl]
    cases hello with
    | none =>
      rw [Option.getD_none, enter_nil]
      exact hopen
    | some bytes =>
      refine (hopen.tlsOutput bytes nofun).flushed (flushed_flushSends fun htrue => ?_)
      rw [tlsOutput_failed] at htrue
      exact absurd (htrue.symm.trans hfailed) nofun

/-- A connection is closed when its queue is empty or its stream is gone, and writes nothing then.
-/
theorem Kept.drainPendingCloses (hk : Kept h c) (outcomes : List WriteOutcome) :
    Kept h (c.drainPendingCloses outcomes) := by
  rw [Conn.drainPendingCloses]
  split
  · split
    · exact hk.toSane.mark
    · rename_i hdone
      have hquiet : Quiet c outcomes := fun _ hstream hqueue => absurd hdone (by simp [hstream, hqueue])
      have hflushed := hk.toSane.flushed (flushed_flushSends (h := h) hquiet)
      exact ⟨⟨(hflushed.booked.discard _).of_eq, hflushed.counted, fun _ => rfl, nofun⟩,
        fun hqueue => absurd rfl hqueue⟩
  · exact hk

/-! ## Every run -/

/-- The condition on a step: after the queue was discarded no bytes are written, and a bounded send
does not change its length on the way into the queue. -/
def Regular (c : Conn) : SendEvent → Prop
  | .sendBounded _ data _ tls => Plain data tls
  | .writable outcomes _ _ => Quiet c outcomes
  | .flushAll outcomes => ∀ i < c.sendsDirty, Quiet c (outcomes i)
  | _ => True

theorem Kept.step (hk : Kept h c) (event : SendEvent) (hregular : Regular c event) :
    Kept (record h c event) (c.step event) := by
  cases event with
  | send data tls => exact hk.send data tls
  | sendAwaited data tls => exact hk.sendAwaited data tls
  | sendBounded id data reserve tls => exact hk.sendBounded id data reserve hregular
  | forward data =>
    rw [Conn.step, record, forwardPush]
    split
    · rename_i hopen
      exact hk.pushPlain data hopen.1
    · exact hk
  | tlsOutput bytes =>
    rw [Conn.step, record]
    split
    · exact hk
    · rename_i hopen
      exact hk.tlsOutput bytes hopen
  | shutdownWrite => exact hk.shutdownWrite
  | close => exact hk.closeConnection
  | writable outcomes ok hello =>
    rw [Conn.step]
    split
    · rename_i hconnecting
      exact hk.connected hconnecting ok hello outcomes
    · rename_i hconnecting
      rw [record, if_neg fun h => hconnecting h.1]
      exact hk.handleWritable hregular
  | flushAll outcomes => exact hk.flushAllPendingSends hregular
  | drainCloses outcomes => exact hk.drainPendingCloses outcomes

theorem kept_new (outbound dirty : Bool) : Kept .start (new outbound dirty) :=
  ⟨⟨booked_new outbound dirty, rfl, fun _ => rfl, nofun⟩, fun hqueue => absurd rfl hqueue⟩

/-- What the peer and the application can rely on. -/
structure Sound (h : SendHistory) (c : Conn) : Prop where
  /-- What was written is the beginning of what was queued. -/
  inOrder : c.written <+: h.accepted
  /-- A bounded send was reported once, or it is in the queue once. -/
  once : (c.boundedSendCompletions.map Prod.fst ++ c.queue.filterMap (·.bounded)).Perm h.ids
  /-- A bounded send that was successful has been written to its last byte. -/
  ok : ∀ id n, (id, .ok n) ∈ c.boundedSendCompletions →
    (id, n) ∈ h.empty ∨ ∃ stop, ((id, n), stop) ∈ h.bounded ∧ stop ≤ c.written.length
  /-- The last byte of one that was not is never written. -/
  error : ∀ id e, (id, .error e) ∈ c.boundedSendCompletions →
    ∃ n stop, ((id, n), stop) ∈ h.bounded ∧ c.written.length < stop
  /-- Nothing is left in the queue of a connection that is closed. -/
  closed : c.lifecycle = .inactive → c.queue = []
  /-- The write half is shut down while nothing is queued. -/
  shutdown : ∀ n, .shutdown n ∈ c.wire → n = 0
  /-- A connection with a queue is on the list of those to be flushed, once. -/
  dirty : c.queue ≠ [] → c.sendsDirtyFlag = true ∧ c.sendsDirty = 1

theorem Kept.sound (hk : Kept h c) : Sound h c := by
  obtain ⟨base, fin, hb⟩ := hk.booked
  have hfin : ∀ x ∈ fin, x ∈ h.bounded := fun x hx => hb.bounded ▸ mem_append_left _ hx
  constructor
  · exact hb.inOrder
  · have hqueue : c.queue.filterMap (·.bounded) =
        (marksFrom base (pending c.queue)).map (·.1.1) := by
      rw [map_marksFrom_pending base c.queue fun id => id]
      exact filterMap_congr fun e _ => Option.map_id'.symm
    rw [hqueue, SendHistory.ids, hb.bounded, map_append]
    exact perm_insert _ hb.reported
  · exact fun id n hmem => (hb.ok id n hmem).imp_right fun ⟨stop, hstop, hle⟩ =>
      ⟨stop, hfin _ hstop, hle⟩
  · intro id e hmem
    obtain ⟨-, n, stop, hstop, hlt⟩ := hb.error id e hmem
    exact ⟨n, stop, hfin _ hstop, hlt⟩
  · exact hk.closed
  · exact hb.shutdown
  · intro hqueue
    refine ⟨hk.marked hqueue, ?_⟩
    rw [hk.counted, hk.marked hqueue]
    rfl

end

/-- **Sends are written in order and reported once**, in every run in which the socket takes no
bytes after a flush has failed and bounded sends keep their length. -/
theorem sound_watch (outbound dirty : Bool) (events : List SendEvent)
    (hregular : ∀ x ∈ Machine.trace step (new outbound dirty) events, Regular x.1 x.2) :
    Sound (watch (new outbound dirty) events).1 (watch (new outbound dirty) events).2 := by
  suffices hk : Kept (watch (new outbound dirty) events).1 (watch (new outbound dirty) events).2 from
    hk.sound
  rw [watch]
  refine Machine.run_invariant (P := fun p : SendHistory × Conn => Kept p.1 p.2)
    (kept_new outbound dirty) fun x hx hk => ?_
  exact hk.step x.2 (hregular _ (Machine.mem_trace_of_withHistory hx))

/-- Two sends, written in three parts. -/
def partialWrites : List SendEvent :=
  [.send [1, 2, 3, 4] none, .sendBounded 7 [5, 6] (.ok ()) none,
    .writable [.accepted 3] true none, .flushAll fun _ => [],
    .writable [.accepted 2, .accepted 1] true none]

theorem sound_watch_partialWrites :
    Sound (watch (new false false) partialWrites).1 (watch (new false false) partialWrites).2 ∧
      (watch (new false false) partialWrites).2.written = [1, 2, 3, 4, 5, 6] ∧
      (watch (new false false) partialWrites).2.boundedSendCompletions = [(7, .ok 2)] := by
  refine ⟨sound_watch false false partialWrites ?_, rfl, rfl⟩
  rintro x (_ | ⟨_, _ | ⟨_, _ | ⟨_, _ | ⟨_, _ | ⟨_, hx⟩⟩⟩⟩⟩)
  · trivial
  · exact fun bytes hbytes => .inr (by cases hbytes; rfl)
  · exact nofun
  · exact fun _ _ => nofun
  · exact nofun
  · cases hx

/-- A flush fails while `cd` is queued, and what is sent afterwards follows `ab`. -/
def sentAfterFailure : List SendEvent :=
  [.send [97, 98, 99, 100] none, .writable [.accepted 2, .failed (.os 105)] true none,
    .send [120, 121, 122] none, .flushAll fun _ => [.accepted 3]]

/-- A bounded send of three bytes, which TLS makes five. -/
def sentEncrypted : List SendEvent :=
  [.sendBounded 7 [97, 98, 99] (.ok ()) (some (.ok [23, 3, 3, 0, 0])),
    .writable [.accepted 5] true none]

/-- **There is a gap in the stream** when the socket takes bytes again after a flush has failed.  A
bounded send on a TLS connection is reported with the length of the ciphertext. -/
theorem gap_after_failed_flush :
    (watch (new false false) sentAfterFailure).2.written = [97, 98, 120, 121, 122] ∧
      (watch (new false false) sentAfterFailure).1.accepted = [97, 98, 99, 100, 120, 121, 122] ∧
      ¬ (watch (new false false) sentAfterFailure).2.written <+:
        (watch (new false false) sentAfterFailure).1.accepted ∧
      (watch (new false false) sentEncrypted).2.boundedSendCompletions = [(7, .ok 5)] ∧
      (watch (new false false) sentEncrypted).1.bounded = [((7, 3), 5)] :=
  ⟨rfl, rfl, by decide, rfl, rfl⟩

end Conn
end Ringline.Mio
