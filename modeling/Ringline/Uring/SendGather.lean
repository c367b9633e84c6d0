import Ringline.Uring.SendAccept

/-!
# Accepting gathered and sealed sends

The three entry points, on a connection with or without TLS.  `Live.send`, `Live.sendBounded` and
`Live.sendParts` say for each of them which segments join the line of the connection:

* without TLS the bytes of the caller, in pool slots or, for parts with guards, in one slab entry;
* with TLS the ciphertext, in the pieces the engine cut it into.

They need the lengths to fit the `u32` the code counts in, and a gathered send that is copied to have
at least one byte: a send of no bytes would look like a failure when it completes.
-/

set_option autoImplicit false

namespace Ringline.Uring

open Streams (Same Segment)
open Ptr
open Chunks (chunks)
open List

variable {w : Worker} {g : Ghost} {L : List (Nat × Ref)} {c : Nat} {x : Piece}
variable {tok : ConnToken}

/-! ## The iovecs of a gathered send -/

/-- All bytes of a gathered send. -/
def partsBytes (parts : List SendPart) : List UInt8 := (parts.map SendPart.data).flatten

variable {p : SendCopyPool} {slot : Nat} {data : List UInt8} {sends : List BuiltSend}
  {tls : TlsEngine} {w' : Worker}

theorem Ptr.read_pool {prov : Nat → List UInt8} {pre d : List UInt8} (tail : List UInt8)
    (h : (p.slots slot).bytes = pre ++ (d ++ tail)) :
    read p prov d.length (.pool slot pre.length) = d := by
  simp [read, SendCopyPool.span, h]

theorem Ptr.read_guard (p : SendCopyPool) (prov : Nat → List UInt8) (d : List UInt8) :
    read p prov d.length (.guard d 0) = d := by
  simp [read]

theorem Readable.cons {prov : Nat → List UInt8} {slots : List Nat} {v : Iovec} {vs : List Iovec}
    (hlen : (v.base.read p prov v.len).length = v.len) (hin : v.base.InSlots slots)
    (h : Readable p prov slots vs) : Readable p prov slots (v :: vs) := by
  intro u hu
  rcases mem_cons.mp hu with rfl | hu
  · exact ⟨hlen, hin⟩
  · exact h u hu

/-- The copied parts lie one after the other in the slot, and the guarded ones where they are. -/
theorem readAll_gatherIovecs (p : SendCopyPool) (prov : Nat → List UInt8) (slot : Nat)
    (parts : List SendPart) (pre tail : List UInt8)
    (h : (p.slots slot).bytes = pre ++ ((parts.map SendPart.copied).flatten ++ tail)) :
    Iovec.readAll p prov (gatherIovecs slot pre.length parts) = partsBytes parts ∧
      Readable p prov [slot] (gatherIovecs slot pre.length parts) := by
  induction parts generalizing pre with
  | nil => exact ⟨rfl, nofun⟩
  | cons part rest ih =>
    cases part with
    | copy d =>
      have hbytes : (p.slots slot).bytes =
          (pre ++ d) ++ ((rest.map SendPart.copied).flatten ++ tail) := by
        rw [h]
        simp [SendPart.copied]
      have hread : read p prov d.length (.pool slot pre.length) = d :=
        read_pool ((rest.map SendPart.copied).flatten ++ tail) (by
          rw [hbytes, append_assoc])
      obtain ⟨hall, hreadable⟩ := ih (pre ++ d) hbytes
      rw [length_append] at hall hreadable
      rw [gatherIovecs]
      refine ⟨?_, hreadable.cons (by rw [hread]) (mem_singleton_self slot)⟩
      change read p prov d.length (.pool slot pre.length) ++ Iovec.readAll p prov _ = _
      rw [hread, hall]
      rfl
    | guard d err =>
      obtain ⟨hall, hreadable⟩ := ih pre (by rw [h]; simp [SendPart.copied])
      rw [gatherIovecs]
      refine ⟨?_, hreadable.cons (by rw [read_guard]) trivial⟩
      change read p prov d.length (.guard d 0) ++ Iovec.readAll p prov _ = _
      rw [read_guard, hall]
      rfl

/-- With nothing to copy, only the guards count. -/
theorem readAll_guardIovecs (p : SendCopyPool) (prov : Nat → List UInt8) (parts : List SendPart)
    (h : ((parts.map SendPart.copied).map length).sum = 0) :
    Iovec.readAll p prov (guardIovecs parts) = partsBytes parts ∧
      Readable p prov [] (guardIovecs parts) := by
  induction parts with
  | nil => exact ⟨rfl, nofun⟩
  | cons part rest ih =>
    simp only [map_cons, sum_cons, Nat.add_eq_zero_iff] at h
    obtain ⟨hall, hreadable⟩ := ih h.2
    cases part with
    | copy d =>
      have hd : d = [] := length_eq_zero_iff.mp h.1
      subst hd
      refine ⟨?_, hreadable.cons (read_guard p prov [] ▸ rfl) trivial⟩
      change read p prov 0 (.guard [] 0) ++ Iovec.readAll p prov (guardIovecs rest) = _
      rw [hall]
      rfl
    | guard d err =>
      refine ⟨?_, hreadable.cons (by exact congrArg length (read_guard p prov d)) trivial⟩
      change read p prov d.length (.guard d 0) ++ Iovec.readAll p prov (guardIovecs rest) = _
      rw [read_guard, hall]
      rfl

/-! ## Guarded sends -/

/-- A gathered send joins the line of a current connection. -/
theorem Live.acceptGather (h : Live w g L) (hcur : Current w g tok)
    {sl : InFlightSendSlab} {poolSlot : Option Nat}
    {iovecs : List Iovec} {total e : Nat} {bytes : List UInt8} (hpool : p.Wf)
    (hcount : p.count = w.sendCopyPool.count)
    (hslots : ∀ s ∈ poolSlot.toList, (w.sendCopyPool.slots s).inUse = false ∧
      s < p.count ∧ (p.slots s).inUse = true ∧ (p.slots s).boundedSend = none)
    (hother : ∀ s, s ∉ poolSlot.toList → p.slots s = w.sendCopyPool.slots s)
    (halloc : w.sendSlab.allocate tok.index tok.generation iovecs poolSlot total = some (e, sl))
    (hread : Readable p w.providedBufs poolSlot.toList iovecs)
    (hbytes : Iovec.readAll p w.providedBufs iovecs = bytes) :
    Takes w g L tok.index [⟨bytes, none⟩] (Worker.submitOrQueue
      { w with sendCopyPool := p, sendSlab := sl } tok.index
      (Worker.zcSend tok poolSlot e total)) := by
  obtain ⟨rest, hfree, hsl⟩ := InFlightSendSlab.allocateWith_eq_some halloc
  obtain ⟨hlt, hunused⟩ := h.core.res.slab.unused e (hfree ▸ mem_cons_self ..)
  have hslab : sl.Wf := hsl ▸ h.core.res.slab.take_top hfree _
  have hcap : sl.capacity = w.sendSlab.capacity := by rw [hsl]; rfl
  have hslotsOf : slotsOf [(⟨.gather true e poolSlot.toList, bytes, true, none⟩ : Piece)] =
      poolSlot.toList := by simp [slotsOf, Job.slots]
  have hgen : tok.generation = w.generation tok.index := congrArg ConnToken.generation hcur.token
  have hcore := h.core.stage [Worker.zcSend tok poolSlot e total]
    [⟨.gather true e poolSlot.toList, bytes, true, none⟩] hcur.active hpool hslab hcount hcap ?_ ?_ ?_ ?_
    ⟨?_, nodup_singleton e⟩ ?_ (.cons ⟨rfl, rfl, rfl⟩ .nil)
  · exact h.accept hcur.built hcore
  · intro s hs
    rw [hslotsOf] at hs
    exact (hslots s hs).1
  · intro e' he'
    rw [mem_singleton.mp he']
    exact hunused
  · rw [hslotsOf]
    exact hother
  · intro e' he'
    have hne : e' ≠ e := fun heq => he' (mem_singleton.mpr heq)
    rw [hsl]
    exact Function.update_of_ne hne ..
  · rw [hslotsOf]
    rcases poolSlot with _ | s
    · exact nodup_nil
    · exact nodup_singleton s
  · intro y hy
    rw [mem_singleton.mp hy]
    refine ⟨⟨hcap ▸ hlt, ?_, ?_, ?_, ?_, ?_, ?_, ?_, ?_, ?_, ?_, fun s hs => (hslots s hs).2⟩, by rintro ⟨⟩,
      (by simp), fun _ => rfl⟩
    all_goals
      simp only [hsl, hgen, InFlightSendSlab.setEntry_entries, Function.update_self, if_true]
    exacts [hread, hbytes]

/-- A slot was filled and given back again. -/
theorem Live.fillAndRelease (h : Live w g L) {rest : List Nat}
    (hfree : w.sendCopyPool.freeList = slot :: rest) (data : List UInt8) (len : Nat) :
    Live { w with
      sendCopyPool :=
        ({ w.sendCopyPool with freeList := rest }.fillSlot slot data len).release slot } g L := by
  obtain ⟨hlt, hunused⟩ := h.core.res.pool.free.unused slot (hfree ▸ mem_cons_self ..)
  have hslot : ∀ s, (w.sendCopyPool.slots s).inUse = true →
      (({ w.sendCopyPool with freeList := rest }.fillSlot slot data len).release slot).slots s =
        w.sendCopyPool.slots s := by
    intro s hin
    have hne : s ≠ slot := by
      rintro rfl
      rw [hunused] at hin
      cases hin
    rw [SendCopyPool.release_slots_of_ne _ hne]
    exact Function.update_of_ne hne ..
  have hfill : ({ w.sendCopyPool with freeList := rest }.fillSlot slot data len).Wf :=
    h.core.res.pool.take_top w.sendCopyPool.reserved hfree _
  have hwf := hfill.release (i := slot) hlt (by simp [SendCopyPool.fillSlot])
  exact h.setRes (h.core.res.congr hwf h.core.res.slab (SendCopyPool.release_count ..) rfl hslot
    (fun _ _ => rfl) fun _ hin => hin) fun d y hy s hs => hslot s (h.core.res.slot_inUse hy hs)

section

variable (h : Live w g L) (hcur : Current w g tok) (parts : List SendPart)

include h hcur

theorem Live.buildWithGuards :
    (∃ w' e, w.buildWithGuards tok parts = (w', .error e) ∧ Live w' g L ∧ w'.books = w.books) ∨
      ∃ w' b, w.buildWithGuards tok parts = (w', .ok b) ∧
        Takes w g L tok.index [⟨partsBytes parts, none⟩] (w'.submitOrQueue tok.index b) := by
  simp only [Worker.buildWithGuards]
  split
  · exact .inl ⟨w, _, rfl, h, rfl⟩
  split
  · split
    · exact .inl ⟨w, _, rfl, h, rfl⟩
    rename_i slot pool hgather
    obtain ⟨-, rest, hfree, rfl⟩ := SendCopyPool.copyInGather_eq_some hgather
    have hback := h.fillAndRelease hfree (parts.map SendPart.copied).flatten
      ((parts.map SendPart.copied).map length).sum
    split
    · exact .inl ⟨_, _, rfl, hback, rfl⟩
    split
    · exact .inl ⟨_, _, rfl, hback, rfl⟩
    rename_i e sl halloc
    obtain ⟨hlt, hunused⟩ := h.core.res.pool.free.unused slot (hfree ▸ mem_cons_self ..)
    let pool := { w.sendCopyPool with freeList := rest }.fillSlot slot
      (parts.map SendPart.copied).flatten ((parts.map SendPart.copied).map length).sum
    have hwf : pool.Wf := h.core.res.pool.take_top w.sendCopyPool.reserved hfree _
    obtain ⟨hbytes, hread⟩ := readAll_gatherIovecs pool w.providedBufs slot parts []
      ((w.sendCopyPool.slots slot).bytes.drop (parts.map SendPart.copied).flatten.length)
      (by simp [pool, SendCopyPool.fillSlot])
    refine .inr ⟨_, _, rfl, h.acceptGather hcur hwf rfl ?_ ?_ halloc hread hbytes⟩
    · intro s hs
      obtain rfl : s = slot := by simpa using hs
      exact ⟨hunused, hlt, by simp [SendCopyPool.fillSlot], by simp [SendCopyPool.fillSlot]⟩
    · intro s hs
      have hne : s ≠ slot := by simpa using hs
      exact Function.update_of_ne hne ..
  · split
    · exact .inl ⟨w, _, rfl, h, rfl⟩
    split
    · exact .inl ⟨w, _, rfl, h, rfl⟩
    rename_i e sl halloc
    obtain ⟨hbytes, hread⟩ :=
      readAll_guardIovecs w.sendCopyPool w.providedBufs parts (by omega)
    exact .inr ⟨_, _, rfl, h.acceptGather hcur h.core.res.pool rfl nofun
      (fun _ _ => rfl) halloc hread hbytes⟩

theorem Live.submitWithGuards : Admits w g L tok.index [⟨partsBytes parts, none⟩]
    (w.submitWithGuards tok parts) := by
  rw [Worker.submitWithGuards]
  rcases h.buildWithGuards hcur parts with
    ⟨w', e, hbuild, hlive, hbooks⟩ | ⟨w', b, hbuild, htakes⟩
  · rw [hbuild]
    exact ⟨g, hlive, .inr ⟨nofun, .of_books hbooks⟩⟩
  · rw [hbuild]
    exact htakes.admits

end

/-! ## Sealed data -/

/-- The engine cuts no empty piece off the ciphertext of `data`. -/
def TlsEngine.NoEmptyPiece (tls : TlsEngine) (data : List UInt8) : Prop :=
  ∀ pieces, tls.encrypt data = .ok pieces → ∀ d ∈ pieces, d ≠ []

/-- The pieces in which `data` goes out on slot `ci`. -/
def Worker.outgoing (w : Worker) (tls : TlsEngine) (ci : Nat) (data : List UInt8) :
    List (List UInt8) :=
  if w.tls ci then (tls.encrypt data).toOption.getD [] else chunks w.sendCopyPool.slotSize data

theorem segmentsOf_concat (bounded : Option (BoundedSendId × Nat)) (init : List (List UInt8))
    (d : List UInt8) :
    segmentsOf bounded (init ++ [d]) = init.map (fun e => ⟨e, none⟩) ++ [⟨d, bounded⟩] := by
  induction init using segmentsOf.induct with
  | case1 => rfl
  | case2 e => rfl
  | case3 e e' rest ih =>
    rw [cons_append, cons_append, segmentsOf, ← cons_append, ih]
    rfl

theorem segmentsOf_none_eq (pieces : List (List UInt8)) :
    segmentsOf none pieces = pieces.map fun d => ⟨d, none⟩ := by
  rcases eq_nil_or_concat pieces with rfl | ⟨init, d, rfl⟩
  · rfl
  · rw [concat_eq_append, segmentsOf_concat, map_append]
    rfl

theorem encryptToSends_eq_ok (hwf : w.sendCopyPool.Wf)
    (h : w.encryptToSends tls tok data = (.ok sends, w')) :
    ∃ p fs, w' = { w with sendCopyPool := p } ∧ Sealed w.sendCopyPool p fs ∧
      sends = w'.ciphertextSends tok (fs.map SealedSlot.slot) ∧
      tls.encrypt data = .ok (fs.map SealedSlot.data) ∧ ∀ f ∈ fs, f.bounded = none := by
  rw [Worker.encryptToSends] at h
  split at h
  · cases h
  rename_i pieces henc
  split at h
  · cases h
  rename_i staged v hstage
  obtain ⟨p, fs, hv, hsealed, hstaged, hdata, hnone⟩ := stageCiphertext_spec hwf hstage
  obtain ⟨hsends, rfl⟩ := Prod.mk.inj h
  refine ⟨p, fs, hv, hsealed, ?_, by rw [hdata]; exact henc, hnone⟩
  rw [← Except.ok.inj hsends, hstaged, nil_append]

theorem encryptTlsSend_eq_ok {deadline : Nat}
    (h : w.encryptTlsSend tls deadline tok data = (.ok sends, w')) :
    w.encryptToSends tls tok data = (.ok sends, w') := by
  simp only [Worker.encryptTlsSend] at h
  split at h
  · cases h
  split at h
  · cases h
  split at h
  · rename_i henc
    rw [henc, h]
  · cases h

/-- Sealed data joins the line. -/
theorem Live.queueSealed {deadline : Nat} (h : Live w g L) (hcur : Current w g tok)
    (htls : w.tls tok.index = true)
    (hne : tls.NoEmptyPiece data) (henc : w.encryptTlsSend tls deadline tok data = (.ok sends,
    w')) :
    Takes w g L tok.index (segmentsOf none (w.outgoing tls tok.index data))
      (w'.queueBuiltSends tok.index sends) := by
  obtain ⟨p, fs, rfl, hsealed, rfl, hpieces, hnone⟩ :=
    encryptToSends_eq_ok h.core.res.pool (encryptTlsSend_eq_ok henc)
  obtain ⟨g', hlive, htook⟩ := h.acceptSealed hcur hsealed
    (fun f hf => hne _ hpieces _ (mem_map_of_mem hf))
    (v := { w with sendCopyPool := p }) fun f hf => hsealed.remaining hf
  have hsegs : (fs.map fun f => (⟨f.data, f.bounded⟩ : Segment UInt8 (BoundedSendId × Nat))) =
      segmentsOf none (w.outgoing tls tok.index data) := by
    rw [Worker.outgoing, if_pos htls, hpieces, segmentsOf_none_eq]
    simp only [Except.toOption, Option.getD_some, map_map]
    refine map_congr_left fun f hf => ?_
    rw [hnone f hf]
    rfl
  exact ⟨g', hlive, hsegs ▸ htook⟩

/-! ## The entry points -/

/-- **`send`.**  On a connection with TLS the send has to be accepted: a failure there closes the
connection. -/
theorem Live.send (h : Live w g L) (hb : g.built tok.index = []) (tls : TlsEngine) (deadline : Nat)
    (data : List UInt8)
    (hseal : w.tls tok.index = true →
      (w.send tls deadline tok data).2 = .ok ∧ tls.NoEmptyPiece data) :
    Admits w g L tok.index (segmentsOf none (w.outgoing tls tok.index data))
      (w.send tls deadline tok data) := by
  rcases hcheck : w.checkSend tok with e | ⟨⟨⟩⟩
  · simp only [Worker.send, hcheck]
    exact h.refused (by nofun) _
  have hcur := checkSend_ok hb hcheck
  simp only [Worker.send, hcheck] at hseal ⊢
  by_cases htls : w.tls tok.index = true
  · obtain ⟨hok, hne⟩ := hseal htls
    rw [if_pos htls] at hok ⊢
    rcases henc : w.encryptTlsSend tls deadline tok data with ⟨e | sends, w'⟩
    · rw [henc] at hok
      cases hok
    · exact (h.queueSealed hcur htls hne henc).admits
  · rw [if_neg htls, Worker.outgoing, if_neg htls]
    exact h.copySendAll hcur data none

/-- What becomes of a bounded send of `pieces`: they join the line and the last carries the id, or
there are none and the id is as good as settled, or the send is refused. -/
def AdmittedBounded (w : Worker) (g : Ghost) (r : Worker × ApiResult) (g' : Ghost) (c : Nat)
    (pieces : List (List UInt8)) (id : BoundedSendId) (len : Nat) : Prop :=
  (r.2 = .ok ∧ pieces ≠ [] ∧ Took w g r.1 g' c (segmentsOf (some (id, len)) pieces)) ∨
    (r.2 = .ok ∧ pieces = [] ∧ g'.built = g.built ∧ (∀ d, g'.pend d = g.pend d) ∧
      r.1.books = (w.settled, w.boundedSendCompletions ++ [(id, .ok len)])) ∨
    (r.2 ≠ .ok ∧ Kept w g r.1 g')

/-- The last piece of ciphertext is submitted as a copy send of its own. -/
theorem ciphertextSends_concat (w : Worker) (tok : ConnToken) (init : List Nat) (slot : Nat) :
    ∃ l, w.ciphertextSends tok (init ++ [slot]) =
      l ++ [Worker.copySend .send tok slot (w.sendCopyPool.slots slot).remaining] := by
  induction init using twoStepInduction with
  | nil => exact ⟨[], rfl⟩
  | singleton s => exact ⟨[_], rfl⟩
  | cons_cons s t rest _ ih =>
    obtain ⟨l, hl⟩ := ih t
    exact ⟨_ :: l, by rw [cons_append, cons_append, Worker.ciphertextSends,
      ← cons_append, hl, cons_append]; nofun⟩

/-- The segments of a gathered send on slot `ci`. -/
def Worker.partsSegments (w : Worker) (tls : TlsEngine) (ci : Nat) (parts : List SendPart) :
    List (Segment UInt8 (BoundedSendId × Nat)) :=
  if parts = [] then []
  else if w.tls ci then segmentsOf none (w.outgoing tls ci (partsBytes parts))
  else [⟨partsBytes parts, none⟩]

theorem length_partsBytes (parts : List SendPart) :
    (parts.map fun p => p.data.length).sum = (partsBytes parts).length := by
  rw [partsBytes, length_flatten, map_map]
  rfl

/-- A gathered send the code handles as intended: its length fits a `u32`, and unless it is sent
in place it is not empty. -/
def Sizable (w : Worker) (parts : List SendPart) : Prop :=
  (partsBytes parts).length < 4294967296 ∧
    (partsBytes parts ≠ [] ∨ (w.sendZcThreshold = 0 ∧ parts.any SendPart.isGuard = true))

section

variable (h : Live w g L)

include h

theorem Live.boundedSendCompletionsPush (id : BoundedSendId) (result : IoResult) :
    Live (w.boundedSendCompletionsPush id result) g L :=
  h.congr {} rfl

/-- Sealed data joins the line, and the last piece carries the bounded send. -/
theorem Live.queueSealedBounded (hcur : Current w g tok) (htls : w.tls tok.index = true)
    (hne : tls.NoEmptyPiece data) (henc : w.encryptToSends tls tok data = (.ok sends, w'))
    (id : BoundedSendId) (len : Nat) :
    (sends.getLast?.bind (·.poolSlot) = none ∧ w.outgoing tls tok.index data = [] ∧
      Live w' g L ∧ w'.books = w.books) ∨
    ∃ slot, sends.getLast?.bind (·.poolSlot) = some slot ∧
      w.outgoing tls tok.index data ≠ [] ∧
      Takes w g L tok.index (segmentsOf (some (id, len)) (w.outgoing tls tok.index data))
        (Worker.queueBuiltSends
          { w' with sendCopyPool := w'.sendCopyPool.setBoundedSend slot id len } tok.index
          sends) := by
  obtain ⟨p, fs, rfl, hsealed, rfl, hpieces, hnone⟩ :=
    encryptToSends_eq_ok h.core.res.pool henc
  have hout : w.outgoing tls tok.index data = fs.map SealedSlot.data := by
    rw [Worker.outgoing, if_pos htls, hpieces]
    rfl
  rcases eq_nil_or_concat fs with rfl | ⟨init, last, rfl⟩
  · refine .inl ⟨rfl, hout, ?_, rfl⟩
    exact h.setRes (h.core.res.congr hsealed.wf h.core.res.slab hsealed.count rfl
      (fun s _ => hsealed.others s not_mem_nil) (fun _ _ => rfl) fun _ hin => hin)
      fun _ _ _ s _ => hsealed.others s not_mem_nil
  rw [concat_eq_append] at hsealed hpieces hnone hout ⊢
  have hset := hsealed.setBounded id len
  have hdata : ∀ f ∈ init ++ [{ last with bounded := some (id, len) }], ∃ f' ∈ init ++ [last],
      f'.slot = f.slot ∧ f'.data = f.data := by
    intro f hf
    rcases mem_append.mp hf with hf | hf
    · exact ⟨f, mem_append_left _ hf, rfl, rfl⟩
    · rw [mem_singleton.mp hf]
      exact ⟨last, mem_append_right _ (mem_singleton_self _), rfl, rfl⟩
  have hne' : ∀ f ∈ init ++ [{ last with bounded := some (id, len) }], f.data ≠ [] := by
    intro f hf
    obtain ⟨f', hf', -, hd⟩ := hdata f hf
    exact hd ▸ hne _ hpieces _ (mem_map_of_mem hf')
  obtain ⟨g', hlive, htook⟩ := h.acceptSealed hcur hset hne'
    (v := { w with sendCopyPool := p }) fun f hf => by
      obtain ⟨f', hf', hs, hd⟩ := hdata f hf
      rw [← hs, ← hd]
      exact hsealed.remaining hf'
  have hslots : (init ++ [{ last with bounded := some (id, len) }]).map SealedSlot.slot =
      (init ++ [last]).map SealedSlot.slot := by simp
  have hsegs : ((init ++ [{ last with bounded := some (id, len) }]).map fun f : SealedSlot =>
      (⟨f.data, f.bounded⟩ : Segment UInt8 (BoundedSendId × Nat))) =
        segmentsOf (some (id, len)) (w.outgoing tls tok.index data) := by
    rw [hout, map_append, map_append, map_singleton, map_singleton,
      segmentsOf_concat, map_map]
    refine congrArg (· ++ _) (map_congr_left fun f hf => ?_)
    rw [hnone f (mem_append_left _ hf)]
    rfl
  rw [hslots] at hlive htook
  rw [hsegs] at htook
  refine .inr ⟨last.slot, ?_, by simp [hout], g', hlive, htook⟩
  rw [map_append, map_singleton]
  obtain ⟨l, hl⟩ := ciphertextSends_concat { w with sendCopyPool := p } tok
    (init.map SealedSlot.slot) last.slot
  rw [hl, getLast?_append]
  rfl

/-- **`send_bounded`.** -/
theorem Live.sendBounded (hb : g.built tok.index = []) (tls : TlsEngine)
    (deadline : Nat) (data : List UInt8) (id : BoundedSendId)
    (hseal : w.tls tok.index = true →
      (w.sendBounded tls deadline tok data id).2 = .ok ∧ tls.NoEmptyPiece data) :
    ∃ g', Live (w.sendBounded tls deadline tok data id).1 g' L ∧
      AdmittedBounded w g (w.sendBounded tls deadline tok data id) g' tok.index
        (w.outgoing tls tok.index data) id (wrap32 data.length) := by
  have hrefused : ∀ e, ∃ g', Live (w, ApiResult.error e).1 g' L ∧
      AdmittedBounded w g (w, .error e) g' tok.index (w.outgoing tls tok.index data) id
        (wrap32 data.length) := fun e => ⟨g, h, .inr (.inr ⟨by simp, .of_books rfl⟩)⟩
  rcases hcheck : w.checkSend tok with e | ⟨⟨⟩⟩
  · simp only [Worker.sendBounded, hcheck]
    exact hrefused e
  have hcur := checkSend_ok hb hcheck
  by_cases htls : w.tls tok.index = true
  · obtain ⟨hok, hne⟩ := hseal htls
    simp only [Worker.sendBounded, hcheck, if_pos htls] at hok ⊢
    split
    · exact hrefused _
    split
    · exact hrefused _
    split
    · exact hrefused _
    rename_i hslots hcap hfree
    simp only [hslots, if_neg hcap, if_neg hfree] at hok
    rcases henc : w.encryptToSends tls tok data with ⟨e | sends, w'⟩
    · rw [henc] at hok
      cases hok
    rcases h.queueSealedBounded hcur htls hne henc id (wrap32 data.length) with
      ⟨hnone, hnil, hlive, hbooks⟩ | ⟨slot, hslot, hcons, g', hlive, htook⟩
    · simp only [hnone]
      refine ⟨g, hlive.boundedSendCompletionsPush _ _, .inr (.inl ⟨rfl, hnil, rfl, fun _ => rfl, ?_⟩)⟩
      obtain ⟨hsettled, hqueued⟩ := Prod.mk.inj hbooks
      rw [← hsettled, ← hqueued]
      rfl
    · simp only [hslot]
      exact ⟨g', hlive, .inl ⟨rfl, hcons, htook⟩⟩
  · simp only [Worker.sendBounded, hcheck, if_neg htls, Worker.outgoing]
    obtain ⟨g', hlive, hadm⟩ :=
      h.copySendAll hcur data (some (id, wrap32 data.length))
    rcases hcopy : w.copySendAll tok data (some (id, wrap32 data.length)) with ⟨w', r⟩
    rw [hcopy] at hlive hadm
    rcases hadm with ⟨hr, htook⟩ | ⟨hr, hkept⟩
    · obtain rfl : r = .ok := hr
      by_cases hdata : data = []
      · subst hdata
        refine ⟨g', hlive.boundedSendCompletionsPush _ _,
          .inr (.inl ⟨rfl, Chunks.chunksAux_nil _ _, htook.built, fun d => ?_, ?_⟩)⟩
        · rw [htook.pend d, chunks, Chunks.chunksAux_nil, segmentsOf, append_nil,
            Function.update_eq_self]
        · obtain ⟨hsettled, hqueued⟩ := Prod.mk.inj htook.books
          rw [← hsettled, ← hqueued]
          rfl
      · have hnil : data.isEmpty = false := by simpa using hdata
        simp only [hnil]
        refine ⟨g', hlive, .inl ⟨rfl, fun hchunks => hdata ?_, htook⟩⟩
        rw [← Chunks.flatten_chunks h.core.res.pool.slotSize_pos data, hchunks]
        rfl
    · cases r with
      | ok => exact absurd rfl hr
      | error e => exact ⟨g', hlive, .inr (.inr ⟨by simp, hkept⟩)⟩
      | panicked => exact ⟨g', hlive, .inr (.inr ⟨by simp, hkept⟩)⟩

/-- All parts go into one slot. -/
theorem Live.gatherIntoSlot (hcur : Current w g tok) {parts : List SendPart}
    (hne : partsBytes parts ≠ []) {len : Nat} {pool : SendCopyPool}
    (hlen : len = (partsBytes parts).length)
    (hgather : w.sendCopyPool.copyInGather (parts.map SendPart.data) len = some (slot, pool)) :
    Takes w g L tok.index [⟨partsBytes parts, none⟩] (Worker.submitOrQueue
      { w with sendCopyPool := pool } tok.index (Worker.copySend .send tok slot len)) := by
  obtain ⟨-, rest, hfree, rfl⟩ := SendCopyPool.copyInGather_eq_some hgather
  subst hlen
  exact h.acceptSlot hcur hfree w.sendCopyPool.reserved
    ((w.sendCopyPool.slots slot).bytes.drop (partsBytes parts).length) true none hne (by nofun) rfl

/-- **`send_parts`.** -/
theorem Live.sendParts (hb : g.built tok.index = []) (tls : TlsEngine)
    (deadline : Nat) (parts : List SendPart)
    (hsize : w.tls tok.index = false → parts ≠ [] → Sizable w parts)
    (hseal : w.tls tok.index = true →
      (w.sendParts tls deadline tok parts).2 = .ok ∧ tls.NoEmptyPiece (partsBytes parts)) :
    Admits w g L tok.index (w.partsSegments tls tok.index parts)
      (w.sendParts tls deadline tok parts) := by
  rcases hbuilder : builderError 0 0 parts with _ | e
  swap
  · simp only [Worker.sendParts, hbuilder]
    exact h.refused (by nofun) _
  by_cases hnil : parts = []
  · simp only [Worker.sendParts, hbuilder, if_pos hnil, Worker.partsSegments]
    exact ⟨g, h, .inl ⟨rfl, Took.nil rfl⟩⟩
  rcases hcheck : w.checkSend tok with e | ⟨⟨⟩⟩
  · simp only [Worker.sendParts, hbuilder, if_neg hnil, hcheck]
    exact h.refused (by nofun) _
  have hcur := checkSend_ok hb hcheck
  simp only [Worker.sendParts, hbuilder, if_neg hnil, hcheck, Worker.partsSegments] at hseal ⊢
  by_cases htls : w.tls tok.index = true
  · obtain ⟨hok, hne⟩ := hseal htls
    rw [if_pos htls] at hok ⊢
    rcases henc : w.encryptTlsSend tls deadline tok (partsBytes parts) with ⟨e | sends, w'⟩
    · rw [partsBytes] at henc
      rw [henc] at hok
      cases hok
    · have htakes := h.queueSealed hcur htls hne henc
      rw [partsBytes] at henc
      rw [henc, if_pos htls]
      exact htakes.admits
  · obtain ⟨hsmall, hbytes⟩ := hsize (Bool.not_eq_true _ ▸ htls) hnil
    rw [if_neg htls, if_neg htls]
    split
    · rename_i hall
      have hne : partsBytes parts ≠ [] := by
        rcases hbytes with hne | ⟨-, hany⟩
        · exact hne
        · obtain ⟨p, hp, hguard⟩ := any_eq_true.mp hany
          have := all_eq_true.mp hall p hp
          rw [hguard] at this
          cases this
      split
      · exact h.refused (by nofun) _
      · rename_i slot pool hgather
        exact (h.gatherIntoSlot hcur hne (length_partsBytes parts) hgather).admits
    split
    · rename_i hthreshold
      rw [Bool.and_eq_true, decide_eq_true_eq, decide_eq_true_eq] at hthreshold
      have hne : partsBytes parts ≠ [] := by
        rcases hbytes with hne | ⟨hzero, -⟩
        · exact hne
        · omega
      have hlen : Worker.partsTotalLen parts = (partsBytes parts).length := by
        rw [Worker.partsTotalLen, length_partsBytes, wrap32, Nat.mod_eq_of_lt hsmall]
      split
      · rename_i slot pool hgather
        exact (h.gatherIntoSlot hcur hne hlen hgather).admits
      · exact h.submitWithGuards hcur parts
    · exact h.submitWithGuards hcur parts

end

end Ringline.Uring
