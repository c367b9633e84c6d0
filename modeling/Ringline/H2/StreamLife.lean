import Ringline.H2.StreamData

/-!
# Streams that go on

A stream is alive while it is in the table and the peer has not ended it.  The client hears of the end
of a stream: between two states of a run in which it did not reset the stream, the stream either stays
alive or one of the events in between ends it (`Proceeds`).

`Later` is what a user of the connection can rely on from one state to a later one, and
`Client.accounts_applyAll` is the account of `StreamData` for a run that starts anywhere.
-/

set_option autoImplicit false

namespace Ringline.H2

open List

/-- The event ends the stream. -/
def H2Event.Ends (sid : Nat) : H2Event → Prop
  | .response k _ es => k = sid ∧ es = true
  | .data k _ es => k = sid ∧ es = true
  | .trailers k _ => k = sid
  | .streamReset k _ => k = sid
  | _ => False

namespace H2Connection

variable (c : H2Connection)

/-- The stream is in the table, and the peer has not ended it. -/
def Alive (sid : Nat) : Prop := ∃ k, c.coreAt sid = some k ∧ ¬ k.Over

/-- The stream stays alive, or an event ends it. -/
def Proceeds (sid : Nat) (c c' : H2Connection) : Prop :=
  ∃ evs, c'.events = c.events ++ evs ∧ (c.Alive sid → c'.Alive sid ∨ ∃ e ∈ evs, e.Ends sid)

section
variable {c c' c'' : H2Connection} {sid : Nat}

theorem Alive.alike (h : c.Alive sid) (ha : Alike (c.coreAt sid) (c'.coreAt sid)) :
    c'.Alive sid := by
  obtain ⟨k, hk, hlive⟩ := h
  rw [hk] at ha
  cases hk' : c'.coreAt sid with
  | none => rw [hk'] at ha; cases ha
  | some k' =>
    rw [hk'] at ha
    cases ha with
    | some hover hresp => exact ⟨k', hk', fun h => hlive (hover.mp h)⟩

/-- The stream is left alone. -/
theorem Proceeds.alike (evs : List H2Event) (hevents : c'.events = c.events ++ evs)
    (ha : Alike (c.coreAt sid) (c'.coreAt sid)) : Proceeds sid c c' :=
  ⟨evs, hevents, fun h => .inl (h.alike ha)⟩

/-- No event comes. -/
theorem Proceeds.quiet (hevents : c'.events = c.events) (ha : Alike (c.coreAt sid) (c'.coreAt sid)) :
    Proceeds sid c c' := .alike [] (by rw [hevents, append_nil]) ha

theorem Proceeds.refl (sid : Nat) (c : H2Connection) : Proceeds sid c c := .quiet rfl (.refl _)

theorem Proceeds.trans (h : Proceeds sid c c') (h' : Proceeds sid c' c'') : Proceeds sid c c'' := by
  obtain ⟨evs, hevents, halive⟩ := h
  obtain ⟨evs', hevents', halive'⟩ := h'
  refine ⟨evs ++ evs', by rw [hevents', hevents, append_assoc], fun h => ?_⟩
  rcases halive h with h | ⟨e, he, hends⟩
  · exact (halive' h).imp_right fun ⟨e, he, hends⟩ => ⟨e, mem_append_right _ he, hends⟩
  · exact .inr ⟨e, mem_append_left _ he, hends⟩

/-- A stream that the peer does not end stays alive. -/
theorem Core.received_live {k : Core} (hlive : ¬ k.Over) (responded : Bool) :
    ∃ k', k.received false responded = some k' ∧ ¬ k'.Over := by
  have hiff := Told.over_remote_iff hlive false
  have hopen : k.state.remote false ≠ .closed := fun h => Bool.false_ne_true (hiff.mp (.inl h))
  exact ⟨_, if_neg hopen, fun h => Bool.false_ne_true (hiff.mp h)⟩

end

theorem Dispatched.proceeds {c c' : H2Connection} {f : Frame} {r : Except H2Error Unit}
    (hd : Dispatched c f c' r) (sid : Nat) : Proceeds sid c c' := by
  obtain ⟨evs, hevents, htouch, -, -⟩ := hd.touches
  refine ⟨evs, hevents, fun ⟨core, hcore, hlive⟩ => ?_⟩
  have hends : ∀ {e}, e ∈ evs.filter (·.stream = some sid) → e.Ends sid → ∃ e ∈ evs, e.Ends sid :=
    fun he hends => ⟨_, (mem_filter.mp he).1, hends⟩
  have ht := htouch sid
  rw [hcore] at ht
  generalize evs.filter (·.stream = some sid) = own at ht hends
  generalize hcore' : c'.coreAt sid = o' at ht
  have hlives : ∀ {k}, o' = some k → ¬ k.Over → c'.Alive sid := fun ho h => ⟨_, hcore'.trans ho, h⟩
  cases ht with
  | kept => exact .inl (hlives rfl hlive)
  | window _ w => exact .inl (hlives rfl hlive)
  | begun => exact .inl (hlives rfl hlive)
  | @headers _ b fields =>
    cases hes : b.endStream with
    | true =>
      refine .inr (hends (mem_singleton.mpr rfl) ?_)
      rw [headersEvent]
      split
      · exact ⟨rfl, hes⟩
      · rfl
    | false =>
      obtain ⟨k, hk, hlive⟩ := Core.received_live hlive true
      exact .inl (hlives (hes ▸ hk) hlive)
  | @data _ payload es =>
    cases es with
    | true => exact .inr (hends (mem_singleton.mpr rfl) ⟨rfl, rfl⟩)
    | false =>
      obtain ⟨k, hk, hlive⟩ := Core.received_live hlive core.responded
      exact .inl (hlives hk hlive)
  | dropped _ _ hover => exact absurd (hover core rfl) hlive
  | reset code => exact .inr (hends (mem_singleton.mpr rfl) rfl)

theorem proceeds_fatalError (e : H2Error) (sid : Nat) : Proceeds sid c (c.fatalError e) := by
  rw [fatalError]
  split
  · exact .refl sid c
  · exact .alike [.error e] rfl (.refl _)

/-- **Every step either keeps a stream alive or tells of its end**, unless the client resets it. -/
theorem proceeds_step (x : ConnStep) (hown : ∀ sid code, x ≠ .own (.resetStream sid code))
    (sid : Nat) : Proceeds sid c (c.step x) := by
  cases x with
  | malformed e => exact proceeds_fatalError c e sid
  | overflow => exact proceeds_fatalError c _ sid
  | frame raw f =>
    rw [step]
    rcases takeFrame_cases c f with ⟨e, b, -, hc⟩ | ⟨hadmits, c', r, hd, hc⟩
    · rw [hc]
      exact proceeds_fatalError { c with receivedAnyFrame := b } e sid
    · rw [hc]
      have hproceeds : Proceeds sid { c with receivedAnyFrame := true } c' := hd.proceeds sid
      rcases r with e | _
      · exact hproceeds.trans (proceeds_fatalError c' e sid)
      · exact hproceeds
  | own l =>
    cases l with
    | sendRequest headers es =>
      refine sendRequest_induction (P := Proceeds sid c) (.refl sid c)
        ⟨[], (append_nil _).symm, ?_⟩
      rintro ⟨k, hk, hlive⟩
      left
      rw [Alive, coreAt_openStream]
      split
      · refine ⟨_, rfl, fun h => ?_⟩
        cases es <;> rcases h with h | h <;> cases h
      · exact ⟨k, hk, hlive⟩
    | sendData k data es =>
      exact sendData_induction (P := Proceeds sid c) (.refl sid c) fun s hmay =>
        .quiet rfl (sendChunks_alike hmay es sid)
    | resetStream k code => exact absurd rfl (hown k code)
    | _ => exact .quiet rfl (.refl _)

/-! ## Runs -/

/-- What can be relied on from one state of a run to a later one. -/
structure Later (g : Nat → Inbound) (c : H2Connection) (g' : Nat → Inbound) (c' : H2Connection) :
    Prop where
  nextStreamId : c.nextStreamId ≤ c'.nextStreamId
  proceeds : ∀ sid, Proceeds sid c c'
  kept : ∀ sid, sid < c.nextStreamId → (g sid).ended = true → g' sid = g sid

theorem Later.refl (g : Nat → Inbound) (c : H2Connection) : Later g c g c :=
  ⟨Nat.le_refl _, fun sid => .refl sid c, fun _ _ _ => rfl⟩

theorem Later.trans {g g' g'' : Nat → Inbound} {c c' c'' : H2Connection} (h : Later g c g' c')
    (h' : Later g' c' g'' c'') : Later g c g'' c'' where
  nextStreamId := Nat.le_trans h.nextStreamId h'.nextStreamId
  proceeds := fun sid => (h.proceeds sid).trans (h'.proceeds sid)
  kept := by
    intro sid hlt hended
    have hkept := h.kept sid hlt hended
    rw [h'.kept sid (Nat.lt_of_lt_of_le hlt h.nextStreamId) (hkept ▸ hended), hkept]

theorem later_step (g : Nat → Inbound) (c : H2Connection) (x : ConnStep)
    (hown : ∀ sid code, x ≠ .own (.resetStream sid code)) :
    Later g c (recordInbound g c x) (c.step x) := by
  refine ⟨?_, proceeds_step c x hown, fun sid hlt hended => ?_⟩
  · cases x with
    | malformed e => exact (congrArg Setup.nextStreamId (setup_fatalError c e)).ge
    | overflow => exact (congrArg Setup.nextStreamId (setup_fatalError c _)).ge
    | frame raw f => exact (nextStreamId_takeFrame c f).ge
    | own l =>
      cases l with
      | sendRequest headers es =>
        exact sendRequest_induction (P := fun c' => c.nextStreamId ≤ c'.nextStreamId) le_rfl
          (Nat.le_add_right _ 2)
      | sendData k data es =>
        exact sendData_induction (P := fun c' => c.nextStreamId ≤ c'.nextStreamId) le_rfl
          fun _ _ => le_rfl
      | _ => exact Nat.le_refl _
  · cases x with
    | frame raw f => exact Inbound.take_of_ended hended sid f
    | own l =>
      cases l with
      | sendRequest headers es =>
        rw [recordInbound]
        rcases sendRequest_cases c headers es with ⟨e, heq⟩ | heq
        · rw [heq]
        · rw [heq]
          exact if_neg (Nat.ne_of_lt hlt)
      | _ => rfl
    | _ => rfl

end H2Connection

namespace Client

/-- Receiving makes no calls. -/
theorem own_notMem_loopSteps (l : Local) (fuel : Nat) (cl : Client) : .own l ∉ loopSteps fuel cl := by
  induction fuel generalizing cl with
  | zero => exact not_mem_nil
  | succ fuel ih =>
    rw [loopSteps]
    split
    · exact not_mem_nil
    · split
      · exact not_mem_nil
      · exact fun h => by cases mem_singleton.mp h
      · rintro (_ | ⟨_, h⟩)
        exact ih _ h

theorem mem_of_own_mem_stepsOf {l : Local} {cl : Client} {calls : List Call}
    (h : .own l ∈ cl.stepsOf calls) : .own l ∈ calls := by
  induction calls generalizing cl with
  | nil => exact absurd h not_mem_nil
  | cons call calls ih =>
    rcases mem_append.mp h with h | h
    · cases call with
      | own l' =>
        obtain rfl := ConnStep.own.inj (mem_singleton.mp h)
        exact mem_cons_self
      | recv data =>
        rw [callSteps] at h
        split at h
        · exact absurd h not_mem_nil
        · split at h
          · cases mem_singleton.mp h
          · exact absurd h (own_notMem_loopSteps l _ _)
    · exact mem_cons_of_mem _ (ih h)

/-- **The account of a run that starts anywhere.** -/
theorem accounts_applyAll {g : Nat → Inbound} {cl : Client} {calls : List Call}
    (hacc : H2Connection.Accounts g cl.conn)
    (hcalls : ∀ p ∈ cl.traceOf calls, H2Connection.Undisturbed p.1 p.2)
    (hown : ∀ sid code, .own (.resetStream sid code) ∉ calls) :
    H2Connection.Accounts (cl.recordOf recordInbound g calls) (cl.applyAll calls).conn ∧
      H2Connection.Later g cl.conn (cl.recordOf recordInbound g calls) (cl.applyAll calls).conn := by
  refine applyAll_invariant _
    (P := fun g' c' => H2Connection.Accounts g' c' ∧ H2Connection.Later g cl.conn g' c')
    ⟨hacc, .refl g cl.conn⟩ fun p hp g' ⟨hacc', hlater⟩ => ?_
  have hreset : ∀ sid code, p.2 ≠ .own (.resetStream sid code) :=
    fun sid code heq => hown sid code (mem_of_own_mem_stepsOf (heq ▸ Machine.mem_of_mem_trace hp))
  exact ⟨H2Connection.accounts_step (genuine_traceOf cl calls p hp) (hcalls p hp) hreset hacc',
    hlater.trans (H2Connection.later_step g' p.1 p.2 hreset)⟩

/-- **No stream ends in silence.**  While the client resets nothing, a stream that is alive stays so or
an event ends it, whatever the peer sends. -/
theorem proceeds_applyAll (cl : Client) (calls : List Call)
    (hown : ∀ sid code, .own (.resetStream sid code) ∉ calls) (sid : Nat) :
    H2Connection.Proceeds sid cl.conn (cl.applyAll calls).conn := by
  refine applyAll_invariant (h := ()) (fun h _ _ => h)
    (P := fun _ c => H2Connection.Proceeds sid cl.conn c) (.refl sid cl.conn) fun p hp _ h =>
    h.trans (H2Connection.proceeds_step p.1 p.2 (fun k code heq => ?_) sid)
  exact hown k code (mem_of_own_mem_stepsOf (heq ▸ Machine.mem_of_mem_trace hp))

theorem proceeds_applyAll_ok :
    H2Connection.Proceeds 1 ((new {} .listed).applyAll [.own (.sendRequest [] true)]).conn
      ((new {} .listed).applyAll [.own (.sendRequest [] true), .recv okResponse]).conn :=
  proceeds_applyAll _ [.recv okResponse] (by simp) 1

end Client
end Ringline.H2
