import Ringline.Uring.SendRetries

/-!
# What accepting a send does to a line

`send`, `sendBounded` and `sendParts` put their bytes at the end of the line of their connection, all
of them or none (`Took`).  A copied send becomes one piece per pool slot, of which the last carries
the bounded send; a gathered send becomes one piece.
-/

set_option autoImplicit false

namespace Ringline.Uring

open Streams (Same Segment)
open Chunks (chunks)
open List Function

variable {w : Worker} {g : Ghost} {L : List (Nat × Ref)} {c : Nat} {x : Piece}
variable {p : SendCopyPool} {tok : ConnToken}

/-- `segs` joined the line of `c`, and nothing else happened. -/
structure Took (w : Worker) (g : Ghost) (w' : Worker) (g' : Ghost) (c : Nat)
    (segs : List (Segment UInt8 (BoundedSendId × Nat))) : Prop where
  built : g'.built = g.built
  pend : ∀ d, g'.pend d = update g.pend c (g.pend c ++ segs) d
  books : w'.books = w.books

/-- The invariant holds again, and `segs` joined the line of `c`. -/
def Takes (w : Worker) (g : Ghost) (L : List (Nat × Ref)) (c : Nat)
    (segs : List (Segment UInt8 (BoundedSendId × Nat))) (w' : Worker) : Prop :=
  ∃ g', Live w' g' L ∧ Took w g w' g' c segs

variable {w' : Worker}

theorem Took.nil (hbooks : w'.books = w.books) : Took w g w' g c [] := by
  refine ⟨rfl, fun d => ?_, hbooks⟩
  rw [append_nil, update_eq_self]

theorem Took.trans {w'' : Worker} {g' g'' : Ghost}
    {l m : List (Segment UInt8 (BoundedSendId × Nat))} (h : Took w g w' g' c l)
    (h' : Took w' g' w'' g'' c m) : Took w g w'' g'' c (l ++ m) := by
  refine ⟨h'.built.trans h.built, fun d => ?_, h'.books.trans h.books⟩
  rw [h'.pend d]
  rcases eq_or_ne d c with rfl | hd
  · rw [update_self, update_self, h.pend d, update_self,
      append_assoc]
  · rw [update_of_ne hd, update_of_ne hd, h.pend d, update_of_ne hd]

/-! ## From built to queued -/

theorem Live.queueBuiltSends {bs : List BuiltSend} (h : Live w g L) (hb : g.built c = bs) :
    ∃ g', Live (w.queueBuiltSends c bs) g' L ∧ g'.built = update g.built c [] ∧
      (∀ d, g'.pieces d = g.pieces d) ∧ (w.queueBuiltSends c bs).books = w.books := by
  induction bs generalizing w g with
  | nil =>
    refine ⟨g, h, ?_, fun _ => rfl, rfl⟩
    rw [← hb, update_eq_self]
  | cons b bs ih =>
    obtain ⟨g₁, hlive, hbuilt, hpieces, hbooks⟩ := h.submitOrQueue hb
    obtain ⟨g', hlive', hbuilt', hpieces', hbooks'⟩ :=
      ih hlive (by rw [hbuilt, update_self])
    refine ⟨g', hlive', ?_, fun d => (hpieces' d).trans (hpieces d), hbooks'.trans hbooks⟩
    rw [hbuilt', hbuilt, update_idem]

/-- **Acceptance.**  What was staged is queued. -/
theorem Live.accept (h : Live w g L) (hb : g.built c = []) {sl : InFlightSendSlab}
    {bs : List BuiltSend} {xs : List Piece}
    (hcore : Core { w with sendCopyPool := p, sendSlab := sl } (g.stage c bs xs) L) :
    Takes w g L c (xs.map Piece.segment)
      (Worker.queueBuiltSends { w with sendCopyPool := p, sendSlab := sl } c bs) := by
  have hstaged : Live { w with sendCopyPool := p, sendSlab := sl } (g.stage c bs xs) L :=
    ⟨hcore, h.flags⟩
  obtain ⟨g', hlive, hbuilt, hpieces, hbooks⟩ :=
    hstaged.queueBuiltSends (by rw [Ghost.built_stage, update_self, hb, nil_append])
  refine ⟨g', hlive, ?_, fun d => ?_, hbooks⟩
  · rw [hbuilt, Ghost.built_stage, update_idem, ← hb, update_eq_self]
  · rw [Ghost.pend, hpieces, Ghost.pieces_stage]
    rcases eq_or_ne d c with rfl | hd
    · rw [if_pos rfl, update_self, map_append]
      rfl
    · rw [if_neg hd, update_of_ne hd]
      rfl

/-! ## Copied pieces -/

/-- A slot as it is filled: `data`, and whatever lay behind it. -/
def filledSlot (data tail : List UInt8) (eos : Bool) (bounded : Option (BoundedSendId × Nat)) :
    PoolSlot where
  bytes := data ++ tail
  offset := 0
  remaining := data.length
  inUse := true
  endOfSend := eos
  boundedSend := bounded

variable {s : Nat}

theorem holdsCopy_filledSlot {data tail : List UInt8} {eos : Bool}
    {bounded : Option (BoundedSendId × Nat)} (hs : s < p.count)
    (hslot : p.slots s = filledSlot data tail eos bounded) :
    HoldsCopy p s ⟨.copy s, data, eos, bounded⟩ := by
  refine ⟨hs, ?_, ?_, ?_, ?_, ?_⟩ <;> simp [SendCopyPool.span, hslot, filledSlot]

theorem queued_copySend {gen : Nat → Nat} {tag : OpTag} {data tail : List UInt8} {eos : Bool}
    {bounded : Option (BoundedSendId × Nat)} (htok : tok = ⟨c, gen c⟩)
    (htag : tag = .send ∨ tag = .tlsSend) (hslot : p.slots s = filledSlot data tail eos bounded) :
    Queued p gen c (Worker.copySend tag tok s data.length) ⟨.copy s, data, eos, bounded⟩ := by
  subst htok
  refine ⟨rfl, rfl, ?_, tag, htag, rfl⟩
  rw [hslot]
  rfl

/-- The handle is that of a connection that is there, and nothing built for it is waiting. -/
structure Current (w : Worker) (g : Ghost) (tok : ConnToken) : Prop where
  built : g.built tok.index = []
  active : (w.connections tok.index).active = true
  token : tok = ⟨tok.index, w.generation tok.index⟩

/-- A handle that `checkSend` accepts is current. -/
theorem checkSend_ok (hb : g.built tok.index = []) (h : w.checkSend tok = .ok ()) :
    Current w g tok := by
  rw [Worker.checkSend, Worker.conn?] at h
  split at h
  · cases h
  · rename_i conn hconn
    split at hconn
    · rename_i hactive
      cases hconn
      split at h
      · cases h
      · rename_i hgen
        refine ⟨hb, hactive, ?_⟩
        rw [not_not] at hgen
        rw [Worker.generation, hgen]
    · cases hconn

/-- One filled slot joins the line of a current connection. -/
theorem Live.acceptSlot (h : Live w g L) (hcur : Current w g tok) {rest : List Nat}
    (hfree : w.sendCopyPool.freeList = s :: rest) (reserved : Nat) {data : List UInt8}
    (tail : List UInt8) (eos : Bool) (bounded : Option (BoundedSendId × Nat)) (hdata : data ≠ [])
    (heos : eos = false → bounded = none) (hw : w' = { w with
      sendCopyPool :=
        { w.sendCopyPool with freeList := rest, reserved := reserved }.setSlot s
          (filledSlot data tail eos bounded) }) :
    Takes w g L tok.index [⟨data, bounded⟩]
      (w'.submitOrQueue tok.index (Worker.copySend .send tok s data.length)) := by
  obtain ⟨hlt, hunused⟩ := h.core.res.pool.free.unused s (hfree ▸ mem_cons_self ..)
  subst hw
  have hslot : ({ w.sendCopyPool with freeList := rest, reserved := reserved }.setSlot s
      (filledSlot data tail eos bounded)).slots s = filledSlot data tail eos bounded := by simp
  have hcore := h.core.stage [Worker.copySend .send tok s data.length]
    [⟨.copy s, data, eos, bounded⟩] hcur.active
    (h.core.res.pool.take_top reserved hfree _) h.core.res.slab rfl rfl ?_ (fun _ he => by cases he)
    ?_ (fun _ _ => rfl) ⟨nodup_singleton s, nodup_nil⟩ ?_
    (.cons (queued_copySend hcur.token (.inl rfl) hslot) .nil)
  · exact h.accept hcur.built hcore
  · intro t ht
    rw [mem_singleton.mp ht]
    exact hunused
  · intro t ht
    have hts : t ≠ s := fun hts => ht (mem_singleton.mpr hts)
    exact update_of_ne hts ..
  · intro y hy
    rw [mem_singleton.mp hy]
    exact ⟨holdsCopy_filledSlot hlt hslot, fun _ => hdata, heos, fun hzc => by cases hzc⟩

/-! ## Copied sends -/

theorem setEndOfSend_filled (p : SendCopyPool) (s : Nat) (data tail : List UInt8) (eos eos' : Bool)
    (bounded : Option (BoundedSendId × Nat)) :
    (p.setSlot s (filledSlot data tail eos bounded)).setEndOfSend s eos' =
      p.setSlot s (filledSlot data tail eos' bounded) := by
  simp [SendCopyPool.setEndOfSend, filledSlot]

theorem setBoundedSend_filled (p : SendCopyPool) (s : Nat) (data tail : List UInt8) (eos : Bool)
    (bounded : Option (BoundedSendId × Nat)) (id : BoundedSendId) (logicalLen : Nat) :
    (p.setSlot s (filledSlot data tail eos bounded)).setBoundedSend s id logicalLen =
      p.setSlot s (filledSlot data tail eos (some (id, logicalLen))) := by
  simp [SendCopyPool.setBoundedSend, filledSlot]

/-- The pieces of a copied send, of which the last carries the bounded send. -/
def segmentsOf (bounded : Option (BoundedSendId × Nat)) :
    List (List UInt8) → List (Segment UInt8 (BoundedSendId × Nat))
  | [] => []
  | [d] => [⟨d, bounded⟩]
  | d :: d' :: rest => ⟨d, none⟩ :: segmentsOf bounded (d' :: rest)

theorem content_segmentsOf (bounded : Option (BoundedSendId × Nat)) (pieces : List (List UInt8)) :
    Streams.content (segmentsOf bounded pieces) = pieces.flatten := by
  induction pieces using segmentsOf.induct with
  | case1 => rfl
  | case2 d => simp [segmentsOf]
  | case3 d d' rest ih => rw [segmentsOf, Streams.content_cons, ih, flatten_cons (l := d)]

variable {pieces : List (List UInt8)}

theorem segmentsOf_eq_append (bounded : Option (BoundedSendId × Nat)) (h : pieces ≠ []) :
    ∃ l d, segmentsOf bounded pieces = l ++ [⟨d, bounded⟩] ∧
      ∀ y ∈ l, y.label = none := by
  induction pieces using segmentsOf.induct with
  | case1 => exact absurd rfl h
  | case2 d => exact ⟨[], d, rfl, fun _ hy => by cases hy⟩
  | case3 d d' rest ih =>
    obtain ⟨l, e, heq, hl⟩ := ih (cons_ne_nil _ _)
    refine ⟨⟨d, none⟩ :: l, e, by rw [segmentsOf, heq, cons_append], fun y hy => ?_⟩
    rcases mem_cons.mp hy with rfl | hy
    · rfl
    · exact hl y hy

theorem segmentsOf_none (pieces : List (List UInt8)) :
    ∀ y ∈ segmentsOf none pieces, y.label = none := by
  induction pieces using segmentsOf.induct with
  | case1 => exact fun _ hy => by cases hy
  | case2 d =>
    intro y hy
    rw [mem_singleton.mp hy]
  | case3 d d' rest ih =>
    intro y hy
    rcases mem_cons.mp hy with rfl | hy
    · rfl
    · exact ih y hy

theorem submitOrQueue_connections (w : Worker) (ci : Nat) (b : BuiltSend) :
    (w.submitOrQueue ci b).connections = w.connections := by
  rw [Worker.submitOrQueue]
  split
  · rfl
  · rcases w.push_cases b.entry with ⟨room, hr⟩ | ⟨room, hr⟩ <;> rw [hr] <;> rfl

/-- The slots of a copied send join the line one after the other. -/
theorem Live.sendChunks (bounded : Option (BoundedSendId × Nat)) (hne : ∀ d ∈ pieces, d ≠ [])
    (h : Live w g L) (hcur : Current w g tok)
    (hw : Worker.sendChunks tok bounded pieces w = some w') :
    Takes w g L tok.index (segmentsOf bounded pieces) w' := by
  induction pieces generalizing w g with
  | nil =>
    cases hw
    exact ⟨g, h, Took.nil rfl⟩
  | cons d rest ih =>
    rw [Worker.sendChunks] at hw
    split at hw
    · cases hw
    rename_i slot pool hcopy
    obtain ⟨free, hfree, rfl⟩ := SendCopyPool.copyInReserved_eq_some hcopy
    have hd : d ≠ [] := hne d (mem_cons_self ..)
    have hrest : ∀ d ∈ rest, d ≠ [] := fun d hd => hne d (mem_cons_of_mem _ hd)
    let base : SendCopyPool :=
      { w.sendCopyPool with freeList := free, reserved := w.sendCopyPool.reserved - 1 }
    have hfill : base.fillSlot slot d d.length =
        base.setSlot slot (filledSlot d ((base.slots slot).bytes.drop d.length) true none) := rfl
    rw [hfill, setEndOfSend_filled] at hw
    -- Only the last piece of a bounded send carries it.
    rcases rest with _ | ⟨d', rest⟩
    · have hstep : Takes w g L tok.index [⟨d, bounded⟩] w' := by
        rcases bounded with _ | ⟨id, logicalLen⟩
        · cases hw
          exact h.acceptSlot hcur hfree _ _ true none hd (fun _ => rfl) rfl
        · simp only [setBoundedSend_filled] at hw
          cases hw
          exact h.acceptSlot hcur hfree _ _ true _ hd (fun hf => by cases hf) rfl
      exact hstep
    · have hw' : Worker.sendChunks tok bounded (d' :: rest)
          (Worker.submitOrQueue { w with
            sendCopyPool := base.setSlot slot
              (filledSlot d ((base.slots slot).bytes.drop d.length) false none) } tok.index
            (Worker.copySend .send tok slot d.length)) = some w' := by
        rcases bounded with _ | ⟨id, logicalLen⟩ <;> exact hw
      obtain ⟨g₁, hlive, htook⟩ := h.acceptSlot hcur hfree _
        ((base.slots slot).bytes.drop d.length) false none hd (fun _ => rfl) rfl
      obtain ⟨g', hlive', htook'⟩ := ih hrest hlive ⟨by rw [htook.built, hcur.built],
        by rw [submitOrQueue_connections]; exact hcur.active,
        by rw [Worker.generation, submitOrQueue_connections]; exact hcur.token⟩ hw'
      exact ⟨g', hlive', htook.trans htook'⟩

theorem Live.setReserved (h : Live w g L) (r : Nat) :
    Live { w with sendCopyPool := { w.sendCopyPool with reserved := r } } g L :=
  h.setRes (h.core.res.congr ⟨h.core.res.pool.slotSize_pos, h.core.res.pool.free⟩ h.core.res.slab rfl
    rfl (fun _ _ => rfl) (fun _ _ => rfl) fun _ hin => hin) fun _ _ _ _ _ => rfl

/-- A send was accepted and `segs` joined the line, or it was refused and nothing joined it. -/
def Admitted (w : Worker) (g : Ghost) (r : Worker × ApiResult) (g' : Ghost) (c : Nat)
    (segs : List (Segment UInt8 (BoundedSendId × Nat))) : Prop :=
  (r.2 = .ok ∧ Took w g r.1 g' c segs) ∨ (r.2 ≠ .ok ∧ Kept w g r.1 g')

/-- The invariant holds again, and `segs` joined the line of `c` or were refused. -/
def Admits (w : Worker) (g : Ghost) (L : List (Nat × Ref)) (c : Nat)
    (segs : List (Segment UInt8 (BoundedSendId × Nat))) (r : Worker × ApiResult) : Prop :=
  ∃ g', Live r.1 g' L ∧ Admitted w g r g' c segs

theorem Takes.admits {segs : List (Segment UInt8 (BoundedSendId × Nat))}
    (h : Takes w g L c segs w') : Admits w g L c segs (w', .ok) := by
  obtain ⟨g', hlive, htook⟩ := h
  exact ⟨g', hlive, .inl ⟨rfl, htook⟩⟩

theorem Live.refused (h : Live w g L) {r : ApiResult} (hr : r ≠ .ok)
    (segs : List (Segment UInt8 (BoundedSendId × Nat))) : Admits w g L c segs (w, r) :=
  ⟨g, h, .inr ⟨hr, .of_books rfl⟩⟩

theorem Live.copySendAll (h : Live w g L) (hcur : Current w g tok) (data : List UInt8)
    (bounded : Option (BoundedSendId × Nat)) : Admits w g L tok.index
      (segmentsOf bounded (chunks w.sendCopyPool.slotSize data))
      (w.copySendAll tok data bounded) := by
  rw [Worker.copySendAll]
  split
  · exact h.refused (by nofun) _
  · exact h.refused (by nofun) _
  · rename_i pool hres
    obtain ⟨r, rfl⟩ : ∃ r, pool = { w.sendCopyPool with reserved := r } := by
      rw [SendCopyPool.reserveSlots] at hres
      split at hres
      · cases hres
      · split at hres
        · cases hres
        · exact ⟨_, (Except.ok.inj hres).symm⟩
    dsimp only
    split
    · exact h.refused (by nofun) _
    · rename_i w' hchunks
      obtain ⟨g', hlive, htook⟩ := Live.sendChunks bounded
        (fun d hd => (Chunks.mem_chunks h.core.res.pool.slotSize_pos hd).1)
        (h.setReserved r) ⟨hcur.built, hcur.active, hcur.token⟩ hchunks
      exact ⟨g', hlive.setReserved _, .inl ⟨rfl, htook.built, htook.pend, htook.books⟩⟩

/-! ## Sealed sends -/

/-- A slot, the ciphertext in it, and the bounded send it ends. -/
structure SealedSlot where
  slot : Nat
  data : List UInt8
  bounded : Option (BoundedSendId × Nat)

/-- Every piece of ciphertext ends a send of its own as far as coalescing is concerned. -/
def SealedSlot.piece (f : SealedSlot) : Piece := ⟨.copy f.slot, f.data, true, f.bounded⟩

/-- `fs` are in the pool `p'`, in slots that were free in `p`. -/
structure Sealed (p p' : SendCopyPool) (fs : List SealedSlot) : Prop where
  wf : p'.Wf
  count : p'.count = p.count
  nodup : (fs.map SealedSlot.slot).Nodup
  free : ∀ f ∈ fs, f.slot < p.count ∧ (p.slots f.slot).inUse = false
  others : ∀ s, s ∉ fs.map SealedSlot.slot → p'.slots s = p.slots s
  filled : ∀ f ∈ fs, ∃ tail, p'.slots f.slot = filledSlot f.data tail true f.bounded

variable {fs : List SealedSlot}

theorem Sealed.remaining {p' : SendCopyPool} (h : Sealed p p' fs) {f : SealedSlot} (hf : f ∈ fs) :
    (p'.slots f.slot).remaining = f.data.length := by
  obtain ⟨tail, hslot⟩ := h.filled f hf
  rw [hslot]
  rfl

/-- Putting ciphertext into slots, one piece each. -/
theorem stageCiphertext_spec {acc staged : List Nat} (hwf : w.sendCopyPool.Wf)
    (h : Worker.stageCiphertext pieces acc w = (some staged, w')) :
    ∃ p' fs, w' = { w with sendCopyPool := p' } ∧ Sealed w.sendCopyPool p' fs ∧
      staged = acc ++ fs.map SealedSlot.slot ∧ fs.map SealedSlot.data = pieces ∧
      ∀ f ∈ fs, f.bounded = none := by
  induction pieces generalizing acc w with
  | nil =>
    obtain ⟨hstaged, rfl⟩ := Prod.mk.inj h
    cases hstaged
    exact ⟨w.sendCopyPool, [], rfl, ⟨hwf, rfl, nodup_nil, nofun, fun _ _ => rfl, nofun⟩, by simp,
      rfl, nofun⟩
  | cons piece rest ih =>
    rw [Worker.stageCiphertext] at h
    split at h
    swap
    · cases h
    rename_i slot pool hcopy
    obtain ⟨free, hfree, hpool⟩ : ∃ free, w.sendCopyPool.freeList = slot :: free ∧
        pool = { w.sendCopyPool with freeList := free }.fillSlot slot piece piece.length := by
      rw [SendCopyPool.copyIn] at hcopy
      split at hcopy
      · cases hcopy
      · split at hcopy
        · cases hcopy
        · rename_i idx q hpop
          obtain ⟨free, hfree, rfl⟩ := SendCopyPool.popUnreserved_eq_some hpop
          cases (Option.some_inj.mp hcopy)
          exact ⟨free, hfree, rfl⟩
    have hslot : pool.slots slot =
        filledSlot piece ((w.sendCopyPool.slots slot).bytes.drop piece.length) true none := by
      rw [hpool]
      exact update_self ..
    have hother : ∀ s, s ≠ slot → pool.slots s = w.sendCopyPool.slots s := by
      intro s hs
      rw [hpool]
      exact update_of_ne hs ..
    have hpwf : pool.Wf := hpool ▸ hwf.take_top _ hfree _
    have hcount : pool.count = w.sendCopyPool.count := by rw [hpool]; rfl
    obtain ⟨hlt, hunused⟩ := hwf.free.unused slot (hfree ▸ mem_cons_self ..)
    obtain ⟨p', fs, rfl, hs, rfl, rfl, hnone⟩ := ih hpwf h
    -- The slot just filled is in use, so it is not handed out again.
    have hfresh : slot ∉ fs.map SealedSlot.slot := by
      intro hmem
      obtain ⟨f, hf, hfs⟩ := mem_map.mp hmem
      have hin := (hs.free f hf).2
      rw [hfs] at hin
      rw [hslot] at hin
      cases hin
    refine ⟨p', ⟨slot, piece, none⟩ :: fs, rfl, ⟨hs.wf, hs.count.trans hcount,
      nodup_cons.mpr ⟨hfresh, hs.nodup⟩, ?_, ?_, ?_⟩, by simp, rfl, ?_⟩
    · intro f hf
      rcases mem_cons.mp hf with rfl | hf
      · exact ⟨hlt, hunused⟩
      · have hne : f.slot ≠ slot := fun heq => hfresh (heq ▸ mem_map_of_mem hf)
        rw [← hother f.slot hne, ← hcount]
        exact hs.free f hf
    · intro s hmem
      rw [map_cons, mem_cons, not_or] at hmem
      rw [hs.others s hmem.2]
      exact hother s hmem.1
    · intro f hf
      rcases mem_cons.mp hf with rfl | hf
      · exact ⟨_, (hs.others slot hfresh).trans hslot⟩
      · exact hs.filled f hf
    · intro f hf
      rcases mem_cons.mp hf with rfl | hf
      · rfl
      · exact hnone f hf

/-- The submissions of sealed slots, in order. -/
theorem queued_ciphertextSends {gen : Nat → Nat} (htok : tok = ⟨c, gen c⟩) {v : Worker}
    (hfilled : ∀ f ∈ fs, ∃ tail, p.slots f.slot = filledSlot f.data tail true f.bounded)
    (hrem : ∀ f ∈ fs, (v.sendCopyPool.slots f.slot).remaining = f.data.length) :
    List.Forall₂ (Queued p gen c) (v.ciphertextSends tok (fs.map SealedSlot.slot))
      (fs.map SealedSlot.piece) := by
  induction fs with
  | nil => exact .nil
  | cons f fs ih =>
    have hhead : ∀ tag, tag = .send ∨ tag = .tlsSend →
        Queued p gen c (Worker.copySend tag tok f.slot (v.sendCopyPool.slots f.slot).remaining)
          f.piece := by
      intro tag htag
      obtain ⟨tail, hslot⟩ := hfilled f (mem_cons_self ..)
      rw [hrem f (mem_cons_self ..)]
      exact queued_copySend htok htag hslot
    have htail := ih (fun f' hf' => hfilled f' (mem_cons_of_mem _ hf'))
      fun f' hf' => hrem f' (mem_cons_of_mem _ hf')
    rcases fs with _ | ⟨f', fs⟩
    · exact .cons (hhead .send (.inl rfl)) .nil
    · exact .cons (hhead .tlsSend (.inr rfl)) htail

/-- Sealed slots join the line of a current connection. -/
theorem Live.acceptSealed (h : Live w g L) (hcur : Current w g tok) (hs : Sealed w.sendCopyPool p fs)
    (hne : ∀ f ∈ fs, f.data ≠ []) {v : Worker}
    (hrem : ∀ f ∈ fs, (v.sendCopyPool.slots f.slot).remaining = f.data.length) :
    Takes w g L tok.index (fs.map fun f => ⟨f.data, f.bounded⟩)
      (Worker.queueBuiltSends { w with sendCopyPool := p } tok.index
        (v.ciphertextSends tok (fs.map SealedSlot.slot))) := by
  have hslots : slotsOf (fs.map SealedSlot.piece) = fs.map SealedSlot.slot := by
    rw [slotsOf, flatMap_map, ← flatMap_pure_eq_map]
    rfl
  have hentries : entriesOf (fs.map SealedSlot.piece) = [] := by
    rw [entriesOf, flatMap_map]
    exact flatMap_eq_nil_iff.mpr fun _ _ => rfl
  have hcore := h.core.stage (v.ciphertextSends tok (fs.map SealedSlot.slot))
    (fs.map SealedSlot.piece) hcur.active hs.wf h.core.res.slab hs.count rfl ?_ ?_ ?_ (fun _ _ => rfl)
    ?_ ?_ (queued_ciphertextSends hcur.token hs.filled hrem)
  · obtain ⟨g', hlive, htook⟩ := h.accept hcur.built hcore
    refine ⟨g', hlive, ?_⟩
    rw [map_map] at htook
    exact htook
  · intro s hmem
    rw [hslots] at hmem
    obtain ⟨f, hf, rfl⟩ := mem_map.mp hmem
    exact (hs.free f hf).2
  · rw [hentries]
    simp
  · rw [hslots]
    exact hs.others
  · rw [hslots, hentries]
    exact ⟨hs.nodup, nodup_nil⟩
  · intro x hx
    obtain ⟨f, hf, rfl⟩ := mem_map.mp hx
    obtain ⟨tail, hslot⟩ := hs.filled f hf
    refine ⟨holdsCopy_filledSlot (hs.count ▸ (hs.free f hf).1) hslot, fun _ => hne f hf,
      by rintro ⟨⟩, by rintro ⟨⟩⟩

/-- The bounded send of sealed slots goes on the last of them. -/
theorem Sealed.setBounded {p' : SendCopyPool} {init : List SealedSlot} {last : SealedSlot}
    (h : Sealed p p' (init ++ [last])) (id : BoundedSendId) (logicalLen : Nat) :
    Sealed p (p'.setBoundedSend last.slot id logicalLen)
      (init ++ [{ last with bounded := some (id, logicalLen) }]) := by
  have hslots : (init ++ [{ last with bounded := some (id, logicalLen) }]).map SealedSlot.slot =
      (init ++ [last]).map SealedSlot.slot := by simp
  have hlast : last ∈ init ++ [last] := mem_append_right _ (mem_singleton_self _)
  obtain ⟨tail, hslot⟩ := h.filled last hlast
  have hnodup := h.nodup
  rw [map_append, nodup_append] at hnodup
  refine ⟨h.wf.setSlot (by rw [hslot]; rfl), h.count, hslots ▸ h.nodup, fun f hf => ?_, fun s hs => ?_,
    fun f hf => ?_⟩
  · rcases mem_append.mp hf with hf | hf
    · exact h.free f (mem_append_left _ hf)
    · rw [mem_singleton.mp hf]
      exact h.free last hlast
  · rw [hslots] at hs
    have hne : s ≠ last.slot := fun heq => hs (heq ▸ mem_map_of_mem hlast)
    rw [← h.others s hs]
    exact update_of_ne hne ..
  · rcases mem_append.mp hf with hf | hf
    · have hne : f.slot ≠ last.slot :=
        hnodup.2.2 f.slot (mem_map_of_mem hf) last.slot (by simp)
      obtain ⟨tail', hslot'⟩ := h.filled f (mem_append_left _ hf)
      exact ⟨tail', (update_of_ne hne ..).trans hslot'⟩
    · rw [mem_singleton.mp hf]
      refine ⟨tail, ?_⟩
      simp only [SendCopyPool.setBoundedSend, SendCopyPool.setSlot_slots, update_self, hslot]
      rfl

end Ringline.Uring
