import Ringline.H2.StreamCore

/-!
# The events of a stream

The events that a client sees of one of its requests are those of an HTTP response: a response, data,
perhaps trailers, and nothing after the end.  `Lawful` states this about the list of everything that
happens to a stream: that it was opened, its events, and that the client has reset it.  `Phase` is an
automaton with four states that accepts lawful lists only (`lawful_of_after`).

The state of a stream in the table says in which phase it is (`Phase.fits`), as long as the frames of
the peer come when they are expected (`OnTime`); then all lists of events are lawful and no stream
leaves the state `Closed` (`events_lawful`).  The handlers do not check all of this:

* `handle_headers` takes a header block for a stream in any state,
* `handle_data` takes DATA before the response,
* RST_STREAM is reported for streams that do not exist,
* an overflowing WINDOW_UPDATE and GOAWAY reset streams that have ended.

So a header block for a stream that the client has reset is delivered, and takes the stream out of
`Closed` (`closed_stream_answers`).
-/

set_option autoImplicit false

namespace Ringline.H2

open List Option

/-! ## Lawful lists -/

/-- What can happen to a stream. -/
inductive Sign where
  /-- The client has opened it. -/
  | opened
  | response (endStream : Bool)
  | data (endStream : Bool)
  | trailers
  | reset
  /-- The client has reset it. -/
  | abandoned
deriving DecidableEq, Repr

namespace Sign

/-- Events are what the client is told. -/
def isEvent : Sign → Bool
  | opened | abandoned => false
  | _ => true

/-- The part of a response after its first headers. -/
def isBody : Sign → Bool
  | data _ | trailers => true
  | _ => false

/-- The stream is over. -/
def isFinal : Sign → Bool
  | response es | data es => es
  | trailers | reset | abandoned => true
  | opened => false

end Sign

/-- What happens to a stream is a response, data and perhaps trailers, all after it was opened and
with nothing after its end. -/
structure Lawful (w : List Sign) : Prop where
  opened : ∀ u a v, w = u ++ a :: v → a.isEvent = true → .opened ∈ u
  response : ∀ u es v, w = u ++ .response es :: v → ∀ b ∈ u, b.isEvent = false
  body : ∀ u a v, w = u ++ a :: v → a.isBody = true → .response false ∈ u
  final : ∀ u a v, w = u ++ a :: v → a.isFinal = true → ∀ b ∈ v, b.isEvent = false

inductive Phase where
  | idle | waiting | body | done
deriving DecidableEq, Repr

namespace Phase

def next : Phase → Sign → Option Phase
  | idle, .opened => some waiting
  | idle, .abandoned => some done
  | waiting, .response es => some (if es then done else body)
  | waiting, .reset | waiting, .abandoned => some done
  | body, .data es => some (if es then done else body)
  | body, .trailers | body, .reset | body, .abandoned => some done
  | done, .abandoned => some done
  | _, _ => none

variable (φ : Phase)

/-- The phase after a list of signs. -/
def after (w : List Sign) : Option Phase := w.foldlM next φ

@[simp] theorem after_nil : φ.after [] = some φ := rfl

@[simp] theorem after_singleton (a : Sign) : φ.after [a] = φ.next a := by
  rcases h : φ.next a with _ | ψ <;> simp [after, h]

theorem after_append (u v : List Sign) :
    φ.after (u ++ v) = (φ.after u).bind (·.after v) := foldlM_append

/-- The lists that lead to each phase. -/
theorem idle_after {w : List Sign} {φ : Phase} (h : idle.after w = some φ) :
    (φ = idle → w = []) ∧ (φ = waiting → w = [.opened]) ∧
      (φ = body → ∃ n, w = .opened :: .response false :: replicate n (.data false)) := by
  induction w using reverseRecOn generalizing φ with
  | nil =>
    cases h
    exact ⟨fun _ => rfl, nofun, nofun⟩
  | append_singleton w a ih =>
    rw [after_append] at h
    obtain ⟨ψ, hψ, hnext⟩ := bind_eq_some_iff.mp h
    rw [after_singleton] at hnext
    obtain ⟨hidle, hwaiting, hbody⟩ := ih hψ
    refine ⟨?_, ?_, ?_⟩
    · rintro rfl
      rcases ψ <;> rcases a with _ | (_ | _) | (_ | _) | _ | _ | _ <;> cases hnext
    · rintro rfl
      rcases ψ <;> rcases a with _ | (_ | _) | (_ | _) | _ | _ | _ <;> cases hnext
      rw [hidle rfl]
      rfl
    · rintro rfl
      rcases ψ <;> rcases a with _ | (_ | _) | (_ | _) | _ | _ | _ <;> cases hnext
      · exact ⟨0, by rw [hwaiting rfl]; rfl⟩
      · obtain ⟨n, rfl⟩ := hbody rfl
        exact ⟨n + 1, by rw [replicate_succ']; rfl⟩

/-- Nothing is reported of a stream that is over. -/
theorem isEvent_of_done_after {w : List Sign} {φ : Phase} (h : done.after w = some φ) :
    ∀ b ∈ w, b.isEvent = false := by
  induction w with
  | nil => exact fun _ hb => absurd hb not_mem_nil
  | cons a w ih =>
    rw [← singleton_append, after_append, after_singleton] at h
    obtain ⟨ψ, hψ, hafter⟩ := bind_eq_some_iff.mp h
    rcases a <;> cases hψ
    exact forall_mem_cons.mpr ⟨rfl, ih hafter⟩

end Phase

variable {φ : Phase}

/-- **The automaton accepts lawful lists only.** -/
theorem lawful_of_after {w : List Sign} (h : Phase.idle.after w = some φ) : Lawful w := by
  have hsplit : ∀ u a v, w = u ++ a :: v → ∃ ψ ψ' : Phase,
      Phase.idle.after u = some ψ ∧ ψ.next a = some ψ' ∧ ψ'.after v = some φ := by
    rintro u a v rfl
    rw [Phase.after_append] at h
    obtain ⟨ψ, hu, h⟩ := bind_eq_some_iff.mp h
    rw [← singleton_append, Phase.after_append, Phase.after_singleton] at h
    obtain ⟨ψ', ha, hv⟩ := bind_eq_some_iff.mp h
    exact ⟨ψ, ψ', hu, ha, hv⟩
  refine ⟨?_, ?_, ?_, ?_⟩
  · intro u a v hw hevent
    obtain ⟨ψ, ψ', hu, ha, -⟩ := hsplit u a v hw
    obtain ⟨-, hwaiting, hbody⟩ := Phase.idle_after hu
    cases ψ with
    | idle => rcases a <;> cases ha <;> cases hevent
    | waiting => rw [hwaiting rfl]; exact mem_singleton_self _
    | body =>
      obtain ⟨n, rfl⟩ := hbody rfl
      exact mem_cons_self
    | done =>
      rcases a <;> cases ha
      cases hevent
  · intro u es v hw
    obtain ⟨ψ, ψ', hu, ha, -⟩ := hsplit u _ v hw
    cases ψ <;> cases ha
    rw [(Phase.idle_after hu).2.1 rfl]
    exact forall_mem_singleton.mpr rfl
  · intro u a v hw hbody
    obtain ⟨ψ, ψ', hu, ha, -⟩ := hsplit u a v hw
    cases ψ with
    | body =>
      obtain ⟨n, rfl⟩ := (Phase.idle_after hu).2.2 rfl
      exact mem_cons_of_mem _ mem_cons_self
    | _ => rcases a <;> cases ha <;> cases hbody
  · intro u a v hw hfinal
    obtain ⟨ψ, ψ', -, ha, hv⟩ := hsplit u a v hw
    obtain rfl : ψ' = .done := by
      rcases ψ <;> rcases a with _ | (_ | _) | (_ | _) | _ | _ | _ <;>
        cases ha <;> first | rfl | cases hfinal
    exact Phase.isEvent_of_done_after hv

/-! ## What happens in a run -/

/-- What a step does to some stream. -/
inductive Mark where
  | opened (streamId : Nat)
  | event (e : H2Event)
  | abandoned (streamId : Nat)

/-- What a mark means for a stream. -/
def Mark.sign (sid : Nat) : Mark → Option Sign
  | opened j => if j = sid then some .opened else none
  | event (.response j _ es) => if j = sid then some (.response es) else none
  | event (.data j _ es) => if j = sid then some (.data es) else none
  | event (.trailers j _) => if j = sid then some .trailers else none
  | event (.streamReset j _) => if j = sid then some .reset else none
  | event _ => none
  | abandoned j => if j = sid then some .abandoned else none

/-- Everything that happens to a stream. -/
def word (sid : Nat) (log : List Mark) : List Sign := log.filterMap (Mark.sign sid)

@[simp] theorem word_append (sid : Nat) (log log' : List Mark) :
    word sid (log ++ log') = word sid log ++ word sid log' := filterMap_append

variable {sid : Nat}

theorem word_of_sign {m : Mark} {a : Sign} (h : m.sign sid = some a) : word sid [m] = [a] := by
  simp [word, h]

theorem word_of_sign_none {m : Mark} (h : m.sign sid = none) : word sid [m] = [] := by
  simp [word, h]

theorem word_opened (sid j : Nat) : word sid [.opened j] = if j = sid then [.opened] else [] := by
  by_cases h : j = sid <;> simp [word, Mark.sign, h]

theorem word_abandoned (sid j : Nat) :
    word sid [.abandoned j] = if j = sid then [.abandoned] else [] := by
  by_cases h : j = sid <;> simp [word, Mark.sign, h]

/-- Only the events of the stream matter. -/
theorem word_own (sid : Nat) (evs : List H2Event) :
    word sid ((evs.filter (·.stream = some sid)).map .event) = word sid (evs.map .event) := by
  rw [word, word, filterMap_map, filterMap_map, filterMap_filter]
  congr 1
  funext e
  by_cases h : e.stream = some sid
  · simp [h]
  · cases e <;> simp_all [H2Event.stream, Mark.sign]

namespace H2Connection

/-- What the call itself does to a stream. -/
def callMarks (c : H2Connection) : ConnStep → List Mark
  | .own (.sendRequest headers es) =>
    match (c.sendRequest headers es).2 with
    | .ok sid => [.opened sid]
    | .error _ => []
  | .own (.resetStream sid _) => [.abandoned sid]
  | _ => []

/-- What happens to the streams: what the calls do, and the events that are emitted. -/
def recordMarks (log : List Mark) (c : H2Connection) (x : ConnStep) : List Mark :=
  log ++ (c.callMarks x ++ ((c.step x).events.drop c.events.length).map .event)

end H2Connection

/-! ## When frames are expected -/

/-- The peer may still send on the stream. -/
def Core.Live (k : Core) : Prop := k.state = .open ∨ k.state = .halfClosedLocal

namespace H2Connection

variable (c : H2Connection)

/-- The frames that may come: a header block for a stream on which the peer may still send, DATA
there after the response, RST_STREAM only there; a WINDOW_UPDATE that overflows and GOAWAY affect
such streams only. -/
def Expected (f : Frame) : Prop :=
  (∀ b k, c.completes f = some b → c.coreAt b.streamId = some k → k.Live) ∧
  match f with
  | .data sid _ _ => ∀ k, c.coreAt sid = some k → k.Live → k.responded = true
  | .rstStream sid _ => ∃ k, c.coreAt sid = some k ∧ k.Live
  | .windowUpdate sid inc =>
    ∀ k, c.coreAt sid = some k → k.sendWindow.window + inc > 0x7fffffff → k.Live
  | .goAway last _ _ => ∀ sid k, last < sid → c.coreAt sid = some k → k.Live
  | _ => True

/-- The condition under which a step keeps the law: a frame that is not turned away is expected, and
the client resets only streams it has opened. -/
def OnTime : ConnStep → Prop
  | .own (.resetStream sid _) => sid < c.nextStreamId
  | .frame _ f => c.admits f = .ok () → c.Expected f
  | _ => True

/-- No stream leaves the state `Closed`, except out of the table. -/
def KeepsClosed (x : ConnStep) : Prop :=
  ∀ sid k k', c.coreAt sid = some k → k.state = .closed → (c.step x).coreAt sid = some k' →
    k'.state = .closed

end H2Connection

/-! ## Phases and states -/

/-- The phase of a stream, by its entry in the table. -/
def Phase.fits (φ : Phase) : Option Core → Prop
  | none => φ = .idle ∨ φ = .done
  | some k =>
    match k.state with
    | .idle => False
    | .open | .halfClosedLocal => φ = if k.responded then .body else .waiting
    | .halfClosedRemote | .closed => φ = .done

variable {k : Core}

theorem Phase.fits_of_live (h : k.Live) :
    φ.fits (some k) ↔ φ = if k.responded then .body else .waiting := by
  rw [fits]
  rcases h with h | h <;> rw [h]

theorem Phase.fits_done (h : k.state = .closed ∨ k.state = .halfClosedRemote) :
    φ.fits (some k) ↔ φ = .done := by
  rw [fits]
  rcases h with h | h <;> rw [h]

theorem Phase.live_of_fits (h : φ.fits (some k)) (hclosed : k.state ≠ .closed)
    (hremote : k.state ≠ .halfClosedRemote) : k.Live := by
  rw [fits] at h
  rcases hstate : k.state with _ | _ | _ | _ | _
  · rw [hstate] at h
    exact h.elim
  · exact .inl hstate
  · exact .inr hstate
  · exact absurd hstate hremote
  · exact absurd hstate hclosed

/-- Cores that differ in their window only have the same phase. -/
theorem Phase.fits_congr {k' : Core} (hstate : k'.state = k.state)
    (hresponded : k'.responded = k.responded) : φ.fits (some k') ↔ φ.fits (some k) := by
  rw [fits, fits, hstate, hresponded]

/-- A stream goes from one entry to another while `marks` are recorded. -/
structure Advances (sid : Nat) (marks : List Mark) (o o' : Option Core) : Prop where
  after : ∀ φ : Phase, φ.fits o → ∃ φ', φ.after (word sid marks) = some φ' ∧ φ'.fits o'
  absent : o = none → word sid marks = [] ∧ o' = none
  closed : ∀ k k', o = some k → k.state = .closed → o' = some k' → k'.state = .closed

variable {marks : List Mark} {o : Option Core}

theorem Advances.same (h : word sid marks = []) : Advances sid marks o o where
  after φ hφ := ⟨φ, by rw [h, Phase.after_nil], hφ⟩
  absent hnone := ⟨h, hnone⟩
  closed k k' hk hclosed hk' := some.inj (hk.symm.trans hk') ▸ hclosed

/-- Only the events of the stream matter. -/
theorem Advances.own {evs : List H2Event} {o' : Option Core}
    (h : Advances sid ((evs.filter (·.stream = some sid)).map .event) o o') :
    Advances sid (evs.map .event) o o' where
  after := word_own sid evs ▸ h.after
  absent := word_own sid evs ▸ h.absent
  closed := h.closed

/-- Nothing happens to the stream but a change of its window. -/
theorem Advances.window {k' : Core} (hstate : k'.state = k.state)
    (hresponded : k'.responded = k.responded) : Advances sid [] (some k) (some k') where
  after φ hφ := ⟨φ, rfl, (Phase.fits_congr hstate hresponded).mpr hφ⟩
  absent hnone := nomatch hnone
  closed k₁ k₁' hk hclosed hk' := by
    cases hk
    cases hk'
    exact hstate.trans hclosed

/-- A live stream is reset. -/
theorem Advances.reset (hlive : k.Live) (hword : word sid marks = [.reset]) :
    Advances sid marks (some k) none where
  after φ hφ := by
    rw [Phase.fits_of_live hlive] at hφ
    refine ⟨.done, ?_, .inr rfl⟩
    rw [hword, Phase.after_singleton, hφ]
    split <;> rfl
  absent hnone := nomatch hnone
  closed _ _ _ _ hnone := nomatch hnone

/-- A live stream takes a sign of the peer that may end it. -/
theorem Advances.receive {a : Sign} {es : Bool} (hlive : k.Live) (hword : word sid marks = [a])
    (hnext : (if k.responded then Phase.body else .waiting).next a =
      some (if es then .done else .body)) : Advances sid marks (some k) (k.received es true) where
  after φ hφ := by
    rw [Phase.fits_of_live hlive] at hφ
    refine ⟨_, by rw [hword, Phase.after_singleton, hφ]; exact hnext, ?_⟩
    rw [Core.received]
    cases es with
    | false => rcases hlive with h | h <;> rw [h] <;> rfl
    | true =>
      rcases hlive with h | h
      · rw [h]
        rfl
      · rw [h]
        exact .inr rfl
  absent hnone := nomatch hnone
  closed k₁ _ hk hclosed _ := by
    cases hk
    rcases hlive with h | h <;> cases h.symm.trans hclosed

/-- The entry of a stream that is over is removed. -/
theorem Advances.remove (h : ∀ k, o = some k → k.state = .closed ∨ k.state = .halfClosedRemote) :
    Advances sid [] o none where
  after φ hφ := by
    refine ⟨φ, rfl, ?_⟩
    rcases o with _ | k
    · exact hφ
    · exact .inr ((Phase.fits_done (h k rfl)).mp hφ)
  absent _ := ⟨rfl, rfl⟩
  closed _ _ _ _ hnone := nomatch hnone

/-! ## Frames -/

namespace H2Connection

variable {c c' : H2Connection}

/-- The streams advance while the events are emitted. -/
def Progress (c c' : H2Connection) : Prop :=
  ∃ evs, c'.events = c.events ++ evs ∧
    ∀ sid, Advances sid (evs.map .event) (c.coreAt sid) (c'.coreAt sid)

/-- No event is emitted. -/
theorem Progress.quiet (hevents : c'.events = c.events)
    (h : ∀ sid, Advances sid [] (c.coreAt sid) (c'.coreAt sid)) : Progress c c' :=
  ⟨[], by rw [hevents, append_nil], h⟩

theorem Progress.refl (hevents : c'.events = c.events) (h : ∀ sid, c'.coreAt sid = c.coreAt sid) :
    Progress c c' :=
  .quiet hevents fun sid => h sid ▸ .same rfl

/-- An event that concerns no stream is emitted. -/
theorem Progress.notice {e : H2Event} (hevents : c'.events = c.events ++ [e])
    (hsign : ∀ sid, (Mark.event e).sign sid = none) (h : ∀ sid, c'.coreAt sid = c.coreAt sid) :
    Progress c c' :=
  ⟨[e], hevents, fun sid => h sid ▸ .same (word_of_sign_none (hsign sid))⟩

theorem progress_fatalError (c : H2Connection) (e : H2Error) : Progress c (c.fatalError e) := by
  rw [fatalError]
  split
  · exact .refl rfl fun _ => rfl
  · exact .notice rfl (fun _ => rfl) fun _ => rfl

theorem Dispatched.progress {f : Frame} {r : Except H2Error Unit} (h : Dispatched c f c' r)
    (hexp : c.Expected f) (hfits : ∀ sid, ∃ φ : Phase, φ.fits (c.coreAt sid)) :
    Progress c c' := by
  obtain ⟨hblock, hexp⟩ := hexp
  obtain ⟨evs, hevents, htouch, -⟩ := h.touches
  refine ⟨evs, hevents, fun sid => .own ?_⟩
  obtain ⟨φ, hφ⟩ := hfits sid
  have ht := htouch sid
  generalize evs.filter (·.stream = some sid) = own at ht ⊢
  generalize hk : c.coreAt sid = o at ht hφ ⊢
  generalize c'.coreAt sid = o' at ht ⊢
  cases ht with
  | kept => exact .same rfl
  | window => exact .window rfl rfl
  | begun => exact .same rfl
  | @headers k b fields hb hsid hend =>
    subst hsid
    have hlive := hblock b k hb hk
    cases hresp : k.responded with
    | false =>
      refine .receive (a := .response b.endStream) hlive (word_of_sign (if_pos rfl)) ?_
      rw [hresp]
      rfl
    | true =>
      refine .receive (a := .trailers) hlive (word_of_sign (if_pos rfl)) ?_
      rw [hresp, hend hresp]
      rfl
  | data k h hclosed hremote =>
    subst h
    have hlive := Phase.live_of_fits hφ hclosed hremote
    have hresp : k.responded = true := hexp k hk hlive
    rw [hresp]
    refine .receive hlive (word_of_sign (if_pos rfl)) ?_
    rw [hresp]
    rfl
  | dropped _ h hover => exact .remove hover
  | reset code h =>
    have hlive : ∃ k, o = some k ∧ k.Live := by
      rcases h with rfl | ⟨k, ho, ⟨inc, rfl, hw⟩ | ⟨last, code, d, rfl, hlast⟩⟩
      · rw [← hk]
        exact hexp
      · exact ⟨k, ho, hexp k (hk.trans ho) hw⟩
      · exact ⟨k, ho, hexp sid k hlast (hk.trans ho)⟩
    obtain ⟨k, rfl, hlive⟩ := hlive
    exact .reset hlive (word_of_sign (if_pos rfl))

theorem Progress.trans_settle (h : Progress c c') (r : Except H2Error Unit) :
    Progress c (c'.settle r) := by
  rcases r with e | _
  · obtain ⟨evs, hevents, hadv⟩ := h
    rw [settle, fatalError]
    split
    · exact ⟨evs, hevents, hadv⟩
    · refine ⟨evs ++ [.error e], ?_, fun sid => ?_⟩
      · rw [← append_assoc, ← hevents]
        rfl
      · have hword : word sid ((evs ++ [H2Event.error e]).map .event) = word sid (evs.map .event) := by
          rw [map_append, word_append]
          exact append_nil _
        exact ⟨fun φ hφ => hword ▸ (hadv sid).after φ hφ, fun hnone => hword ▸ (hadv sid).absent hnone,
          (hadv sid).closed⟩
  · exact h

/-- **What handling a frame does to the streams.** -/
theorem progress_takeFrame {f : Frame} (hexp : c.admits f = .ok () → c.Expected f)
    (hfits : ∀ sid, ∃ φ : Phase, φ.fits (c.coreAt sid)) : Progress c (c.takeFrame f) := by
  rcases takeFrame_cases c f with ⟨e, b, -, hc⟩ | ⟨hadmits, c', r, hd, hc⟩
  · rw [hc]
    exact progress_fatalError { c with receivedAnyFrame := b } e
  · rw [hc]
    have h : Progress { c with receivedAnyFrame := true } c' := hd.progress (hexp hadmits) hfits
    exact Progress.trans_settle (c := { c with receivedAnyFrame := true }) h r

/-- Sending data moves a stream between states of the same phase. -/
theorem progress_sendData (c : H2Connection) (sid : Nat) (data : List UInt8) (es : Bool) :
    Progress c (c.sendData sid data es).1 := by
  refine sendData_induction (P := Progress c) (.refl rfl fun _ => rfl) fun s hmay => ?_
  refine .quiet rfl fun j => ?_
  rw [coreAt_sendChunks hmay.stream]
  split
  · rename_i hj
    rw [hj, coreAt_of_get? hmay.stream]
    refine ⟨fun φ hφ => ⟨φ, rfl, ?_⟩, (fun hnone => by cases hnone), fun k k' hk hclosed _ => ?_⟩
    · rcases hmay.state with hs | hs <;> rw [H2Stream.core, hs] at hφ <;> cases es <;>
        rw [hs] <;> exact hφ
    · cases hk
      rcases hmay.state with hs | hs <;> cases hs.symm.trans hclosed
  · exact .same rfl

/-! ## Runs -/

/-- The phases of all streams fit. -/
structure Tracks (log : List Mark) (c : H2Connection) : Prop where
  phase : ∀ sid, ∃ φ, Phase.idle.after (word sid log) = some φ ∧ φ.fits (c.coreAt sid)
  fresh : ∀ sid, c.nextStreamId ≤ sid → c.coreAt sid = none ∧ word sid log = []

variable {log : List Mark}

theorem Tracks.progress (h : Tracks log c) (hp : Progress c c')
    (hnext : c'.nextStreamId = c.nextStreamId) :
    Tracks (log ++ (c'.events.drop c.events.length).map .event) c' := by
  obtain ⟨evs, hevents, hadv⟩ := hp
  rw [hevents, drop_left]
  refine ⟨fun sid => ?_, fun sid hsid => ?_⟩
  · obtain ⟨φ, hφ, hfits⟩ := h.phase sid
    obtain ⟨φ', hφ', hfits'⟩ := (hadv sid).after φ hfits
    refine ⟨φ', ?_, hfits'⟩
    rw [word_append, Phase.after_append, hφ, bind_some, hφ']
  · obtain ⟨hnone, hword⟩ := h.fresh sid (hnext ▸ hsid)
    obtain ⟨hword', hnone'⟩ := (hadv sid).absent hnone
    rw [word_append, hword, hword']
    exact ⟨hnone', rfl⟩

theorem Tracks.openStream (h : Tracks log c) (headers : List HeaderField) (es : Bool) :
    Tracks (log ++ [.opened c.nextStreamId]) (c.openStream headers es) := by
  refine ⟨fun sid => ?_, fun sid hsid => ?_⟩
  · rw [word_append, Phase.after_append, coreAt_openStream]
    by_cases hsid : sid = c.nextStreamId
    · refine ⟨.waiting, ?_, ?_⟩
      · rw [(h.fresh sid hsid.ge).2, word_opened, if_pos hsid.symm]
        rfl
      · rw [if_pos hsid]
        cases es <;> rfl
    · obtain ⟨φ, hφ, hfits⟩ := h.phase sid
      refine ⟨φ, ?_, ?_⟩
      · rw [hφ, word_opened, if_neg (Ne.symm hsid)]
        rfl
      · rwa [if_neg hsid]
  · change c.nextStreamId + 2 ≤ sid at hsid
    obtain ⟨hnone, hword⟩ := h.fresh sid (by omega)
    have hne : sid ≠ c.nextStreamId := by omega
    rw [coreAt_openStream, if_neg hne, word_append, hword, word_opened, if_neg hne.symm]
    exact ⟨hnone, rfl⟩

theorem Tracks.resetStream (h : Tracks log c) {k : Nat} (hk : k < c.nextStreamId) (code : ErrorCode) :
    Tracks (log ++ [.abandoned k]) (c.resetStream k code) := by
  refine ⟨fun sid => ?_, fun sid hsid => ?_⟩
  · obtain ⟨φ, hφ, hfits⟩ := h.phase sid
    rw [word_append, Phase.after_append, coreAt_resetStream, hφ]
    by_cases hsid : sid = k
    · refine ⟨.done, ?_, ?_⟩
      · rw [word_abandoned, if_pos hsid.symm, bind_some, Phase.after_singleton]
        cases φ <;> rfl
      · rw [if_pos hsid]
        rcases c.coreAt sid with _ | core
        · exact .inr rfl
        · rfl
    · refine ⟨φ, ?_, ?_⟩
      · rw [word_abandoned, if_neg (Ne.symm hsid)]
        rfl
      · rwa [if_neg hsid]
  · obtain ⟨hnone, hword⟩ := h.fresh sid hsid
    have hne : sid ≠ k := by
      change c.nextStreamId ≤ sid at hsid
      omega
    rw [coreAt_resetStream, if_neg hne, word_append, hword, word_abandoned, if_neg hne.symm]
    exact ⟨hnone, rfl⟩

theorem nextStreamId_takeFrame (c : H2Connection) (f : Frame) :
    (c.takeFrame f).nextStreamId = c.nextStreamId := by
  rcases hf : opens f with _ | _
  · exact congrArg Setup.nextStreamId (setup_takeFrame c hf)
  · obtain ⟨s, rfl⟩ := eq_settings_of_opens hf
    rcases takeFrame_cases c (.settings false s) with ⟨e, b, -, hc⟩ | ⟨-, c', r, hd, hc⟩
    · rw [hc]
      exact congrArg Setup.nextStreamId (setup_fatalError { c with receivedAnyFrame := b } e)
    · obtain ⟨rfl, rfl⟩ := hd.settings_eq
      rw [hc]
      exact (congrArg Setup.nextStreamId (setup_settle _ _)).trans
        (settingsApplied { c with receivedAnyFrame := true } s).nextStreamId

/-- **One step keeps the phases and the closed streams.** -/
theorem tracks_step {x : ConnStep} (hx : c.OnTime x) (h : Tracks log c) :
    Tracks (recordMarks log c x) (c.step x) ∧ c.KeepsClosed x := by
  have hprogress : c.callMarks x = [] → Progress c (c.step x) →
      (c.step x).nextStreamId = c.nextStreamId →
      Tracks (recordMarks log c x) (c.step x) ∧ c.KeepsClosed x := by
    intro hmarks hp hnext
    refine ⟨?_, ?_⟩
    · rw [recordMarks, hmarks]
      exact h.progress hp hnext
    · obtain ⟨evs, -, hadv⟩ := hp
      exact fun sid k k' => (hadv sid).closed k k'
  have hcall : ∀ marks, c.callMarks x = marks → (c.step x).events = c.events →
      recordMarks log c x = log ++ marks := by
    intro marks hmarks hevents
    rw [recordMarks, hmarks, hevents, drop_length, map_nil, append_nil]
  cases x with
  | malformed e =>
    exact hprogress rfl (progress_fatalError c e)
      (congrArg Setup.nextStreamId (setup_fatalError c e))
  | overflow =>
    exact hprogress rfl (progress_fatalError c _)
      (congrArg Setup.nextStreamId (setup_fatalError c _))
  | frame raw f =>
    refine hprogress rfl (progress_takeFrame hx fun sid => ?_) (nextStreamId_takeFrame c f)
    obtain ⟨φ, -, hφ⟩ := h.phase sid
    exact ⟨φ, hφ⟩
  | own l =>
    cases l with
    | sendRequest headers es =>
      rcases sendRequest_cases c headers es with ⟨e, heq⟩ | heq
      · have hstep : c.step (.own (.sendRequest headers es)) = c := by rw [step, own, heq]
        refine hprogress ?_ (.refl (by rw [hstep]) fun _ => by rw [hstep]) (by rw [hstep])
        rw [callMarks, heq]
      · have hstep : c.step (.own (.sendRequest headers es)) = c.openStream headers es := by
          rw [step, own, heq]
        have hmarks : c.callMarks (.own (.sendRequest headers es)) = [.opened c.nextStreamId] := by
          rw [callMarks, heq]
        refine ⟨?_, fun sid k k' hk hclosed hk' => ?_⟩
        · rw [hcall _ hmarks (by rw [hstep]; rfl), hstep]
          exact h.openStream headers es
        · rw [hstep, coreAt_openStream] at hk'
          split at hk'
          · rename_i hsid
            rw [(h.fresh sid hsid.ge).1] at hk
            cases hk
          · exact some.inj (hk.symm.trans hk') ▸ hclosed
    | sendData sid data es =>
      exact hprogress rfl (progress_sendData c sid data es)
        (sendData_induction (P := fun c' => c'.nextStreamId = c.nextStreamId) rfl fun _ _ => rfl)
    | resetStream sid code =>
      refine ⟨?_, fun j k k' hk hclosed hk' => ?_⟩
      · rw [hcall [.abandoned sid] rfl rfl]
        exact h.resetStream hx code
      · rw [step, own, coreAt_resetStream, hk] at hk'
        split at hk'
        · cases hk'
          rfl
        · exact some.inj hk' ▸ hclosed
    | setMaxRecvBuf n => exact hprogress rfl (.refl rfl fun _ => rfl) rfl
    | sendPing => exact hprogress rfl (.refl rfl fun _ => rfl) rfl
    | sendGoaway code => exact hprogress rfl (.refl rfl fun _ => rfl) rfl

end H2Connection

namespace Client

open H2Connection

theorem tracks_new (settings : Settings) (order : Table.Order Nat H2Stream) :
    Tracks [] (new settings order).conn where
  phase _ := ⟨.idle, rfl, .inl rfl⟩
  fresh _ _ := ⟨rfl, rfl⟩

/-- **The events of every stream are lawful**, and no stream leaves the state `Closed`, in every run
in which the frames come when they are expected. -/
theorem events_lawful (settings : Settings) (order : Table.Order Nat H2Stream) (calls : List Call)
    (h : ∀ x ∈ (new settings order).traceOf calls, x.1.OnTime x.2) :
    (∀ sid, Lawful (word sid ((new settings order).recordOf recordMarks [] calls))) ∧
      ∀ x ∈ (new settings order).traceOf calls, x.1.KeepsClosed x.2 := by
  have hstep : ∀ x ∈ (new settings order).traceOf calls, ∀ log, Tracks log x.1 →
      Tracks (recordMarks log x.1 x.2) (x.1.step x.2) := fun x hx log hlog =>
    (tracks_step (h x hx) hlog).1
  refine ⟨fun sid => ?_, ?_⟩
  · obtain ⟨φ, hφ, -⟩ := (applyAll_invariant _ (tracks_new settings order) hstep).phase sid
    exact lawful_of_after hφ
  · have htrace : ∀ x ∈ (new settings order).traceOf calls, ∃ log, Tracks log x.1 :=
      Machine.trace_invariant (P := fun c => ∃ log, Tracks log c) ⟨[], tracks_new settings order⟩
        fun x hx ⟨log, hlog⟩ => ⟨_, hstep x hx log hlog⟩
    intro x hx
    obtain ⟨log, hlog⟩ := htrace x hx
    exact (tracks_step (h x hx) hlog).2

/-- A request and its response. -/
theorem events_lawful_get :
    (∀ sid, Lawful (word sid ((new .clientDefault .listed).recordOf recordMarks []
        [.recv emptySettings, .own (.sendRequest [] true), .recv okResponse]))) ∧
      ∀ x ∈ (new .clientDefault .listed).traceOf
        [.recv emptySettings, .own (.sendRequest [] true), .recv okResponse],
        x.1.KeepsClosed x.2 := by
  refine events_lawful .clientDefault .listed _ ?_
  have hsteps : (new .clientDefault .listed).stepsOf
      [.recv emptySettings, .own (.sendRequest [] true), .recv okResponse] =
      [.frame emptySettings (.settings false {}), .own (.sendRequest [] true),
        .frame okResponse (.headers 1 [0x88] true true none)] := by rfl
  intro x hx
  rw [traceOf, hsteps, Machine.trace, Machine.trace, Machine.trace, Machine.trace, mem_cons,
    mem_cons, mem_singleton] at hx
  rcases hx with rfl | rfl | rfl
  · exact fun _ => ⟨(fun _ _ hb => by cases hb), trivial⟩
  · trivial
  · refine fun _ => ⟨fun b k hb hk => ?_, trivial⟩
    cases hb
    cases hk
    exact .inr rfl

/-- **A closed stream answers.**  The client resets stream 1; the response that was on its way is
delivered, and the stream is half closed. -/
theorem closed_stream_answers :
    ∃ (settings : Settings) (order : Table.Order Nat H2Stream) (calls : List Call),
      (∃ sid, ¬ Lawful (word sid ((new settings order).recordOf recordMarks [] calls))) ∧
      ∃ x ∈ (new settings order).traceOf calls, ¬ x.1.KeepsClosed x.2 := by
  let before : List ConnStep := [.frame emptySettings (.settings false {}),
    .own (.sendRequest [] false), .own (.resetStream 1 .cancel)]
  have hsteps : (new .clientDefault .listed).stepsOf [.recv emptySettings,
      .own (.sendRequest [] false), .own (.resetStream 1 .cancel), .recv okResponse] =
      before ++ [.frame okResponse (.headers 1 [0x88] true true none)] := by rfl
  refine ⟨.clientDefault, .listed, [.recv emptySettings, .own (.sendRequest [] false),
    .own (.resetStream 1 .cancel), .recv okResponse], ⟨1, fun h => ?_⟩,
    (Machine.run step (new .clientDefault .listed).conn before,
      .frame okResponse (.headers 1 [0x88] true true none)), ?_, fun h => ?_⟩
  · have hfinal := h.final [.opened] .abandoned [.response true] (by rfl) rfl
    cases hfinal _ mem_cons_self
  · exact Machine.mem_trace_iff.mpr ⟨before, [], hsteps, rfl⟩
  · cases h 1 _ _ rfl rfl rfl

end Client
end Ringline.H2
