import Ringline.H2.Outcome

/-!
# The settings of the peer

A SETTINGS frame is a list of parameters, and a parameter that a frame does not mention keeps its
value.  `InForce` is that law, over the list of all parameters received so far.

`Settings::decode` builds a whole `Settings` from the defaults for every frame, and `handle_settings`
stores it.  So a parameter that is absent from a frame goes back to its default.  This is harmless
exactly when it still had its default (`inForce_append_iff`); the law holds along every run in which
that is so (`settings_accumulate`), and fails as soon as a frame leaves out a parameter that an
earlier one has set (`settings_forgotten`).
-/

set_option autoImplicit false

namespace Ringline.H2

open Settings

variable {s s' : Settings}

/-! ## The law -/

/-- The value of the last occurrence of a parameter. -/
def lastOf (id : Nat) (ps : List (Nat × Nat)) : Option Nat :=
  (ps.reverse.find? (·.1 == id)).map Prod.snd

theorem lastOf_append (id : Nat) (ps qs : List (Nat × Nat)) :
    lastOf id (ps ++ qs) = (lastOf id qs).or (lastOf id ps) := by
  rw [lastOf, List.reverse_append, List.find?_append, Option.map_or]
  rfl

theorem lastOf_singleton (id : Nat) (p : Nat × Nat) :
    lastOf id [p] = if p.1 = id then some p.2 else none := by
  by_cases h : p.1 = id <;> simp [lastOf, h]

/-- The parameters `ps`, in the order of their arrival, leave these settings in force. -/
structure InForce (ps : List (Nat × Nat)) (s : Settings) : Prop where
  headerTableSize : s.headerTableSize = min ((lastOf 0x1 ps).getD 4096) maxPeerHeaderTableSize
  maxConcurrentStreams : s.maxConcurrentStreams = lastOf 0x3 ps
  initialWindowSize : s.initialWindowSize = (lastOf 0x4 ps).getD 65535
  maxFrameSize : s.maxFrameSize = (lastOf 0x5 ps).getD 16384

/-! ## What decoding a frame gives -/

/-- The settings `s₀` with the parameters `ps` written over them. -/
structure Overlaid (s₀ : Settings) (ps : List (Nat × Nat)) (s : Settings) : Prop where
  headerTableSize : s.headerTableSize =
    ((lastOf 0x1 ps).map (min · maxPeerHeaderTableSize)).getD s₀.headerTableSize
  maxConcurrentStreams : s.maxConcurrentStreams = (lastOf 0x3 ps).or s₀.maxConcurrentStreams
  initialWindowSize : s.initialWindowSize = (lastOf 0x4 ps).getD s₀.initialWindowSize
  maxFrameSize : s.maxFrameSize = (lastOf 0x5 ps).getD s₀.maxFrameSize

theorem Overlaid.append {s₀ s₁ s₂ : Settings} {ps qs : List (Nat × Nat)}
    (h₁ : Overlaid s₀ ps s₁) (h₂ : Overlaid s₁ qs s₂) : Overlaid s₀ (ps ++ qs) s₂ where
  headerTableSize := by
    rw [h₂.headerTableSize, h₁.headerTableSize, lastOf_append]
    cases lastOf 0x1 qs <;> rfl
  maxConcurrentStreams := by
    rw [h₂.maxConcurrentStreams, h₁.maxConcurrentStreams, lastOf_append, Option.or_assoc]
  initialWindowSize := by
    rw [h₂.initialWindowSize, h₁.initialWindowSize, lastOf_append]
    cases lastOf 0x4 qs <;> rfl
  maxFrameSize := by
    rw [h₂.maxFrameSize, h₁.maxFrameSize, lastOf_append]
    cases lastOf 0x5 qs <;> rfl

/-- One parameter. -/
theorem overlaid_apply {p : Nat × Nat} (h : s.apply p = .ok s') :
    Overlaid s [p] s' := by
  obtain ⟨id, value⟩ := p
  rw [apply.eq_def] at h
  split at h
  · cases h
    constructor <;> simp_all [lastOf_singleton]
  · split at h
    · cases h
    · cases h
      constructor <;> simp_all [lastOf_singleton]
  · cases h
    constructor <;> simp_all [lastOf_singleton]
  · split at h
    · cases h
    · cases h
      constructor <;> simp_all [lastOf_singleton]
  · split at h
    · cases h
    · cases h
      constructor <;> simp_all [lastOf_singleton]
  · cases h
    constructor <;> simp_all [lastOf_singleton]
  · rename_i h1 h2 h3 h4 h5 h6
    cases h
    have hne : id ≠ 0x1 ∧ id ≠ 0x3 ∧ id ≠ 0x4 ∧ id ≠ 0x5 := by
      refine ⟨?_, ?_, ?_, ?_⟩ <;> rintro rfl
      · exact h1 value rfl
      · exact h3 value rfl
      · exact h4 value rfl
      · exact h5 value rfl
    constructor <;> simp [lastOf_singleton, hne]

theorem overlaid_applyAll {ps : List (Nat × Nat)} (h : s.applyAll ps = .ok s') :
    Overlaid s ps s' := by
  induction ps generalizing s with
  | nil =>
    cases h
    constructor <;> rfl
  | cons p ps ih =>
    rw [applyAll] at h
    split at h
    · cases h
    · rename_i s₁ hs₁
      exact (overlaid_apply hs₁).append (ih h)

/-- `Settings::decode` starts from the defaults. -/
theorem overlaid_decode {payload : List UInt8} (h : decode payload = .ok s) :
    Overlaid {} (params payload) s := by
  rw [decode] at h
  split at h
  · cases h
  · exact overlaid_applyAll h

/-- The bounds that `Settings::decode` checks. -/
structure Settings.Valid (s : Settings) : Prop where
  initialWindowSize : s.initialWindowSize ≤ 0x7fffffff
  maxFrameSize : 16384 ≤ s.maxFrameSize

theorem valid_apply {p : Nat × Nat} (hs : s.Valid) (h : s.apply p = .ok s') :
    s'.Valid := by
  rw [apply.eq_def] at h
  repeat' split at h
  all_goals cases h
  · exact ⟨hs.initialWindowSize, hs.maxFrameSize⟩
  · exact ⟨hs.initialWindowSize, hs.maxFrameSize⟩
  · exact ⟨hs.initialWindowSize, hs.maxFrameSize⟩
  · exact ⟨by simp only; omega, hs.maxFrameSize⟩
  · exact ⟨hs.initialWindowSize, by simp only; omega⟩
  · exact ⟨hs.initialWindowSize, hs.maxFrameSize⟩
  · exact hs

theorem valid_decode {payload : List UInt8} (h : decode payload = .ok s) :
    s.Valid := by
  have hall : ∀ (ps : List (Nat × Nat)) (s₀ s : Settings), s₀.Valid → s₀.applyAll ps = .ok s →
      s.Valid := by
    intro ps
    induction ps with
    | nil =>
      rintro s₀ s hs₀ h
      cases h
      exact hs₀
    | cons p ps ih =>
      intro s₀ s hs₀ h
      rw [applyAll] at h
      split at h
      · cases h
      · rename_i s₁ hs₁
        exact ih s₁ s (valid_apply hs₀ hs₁) h
  rw [decode] at h
  split at h
  · cases h
  · exact hall _ {} s ⟨by decide, le_rfl⟩ h

/-- Every parameter that is not among `ps` has its default in `s₀`. -/
structure AbsentDefault (s₀ : Settings) (ps : List (Nat × Nat)) : Prop where
  headerTableSize : lastOf 0x1 ps = none → s₀.headerTableSize = 4096
  maxConcurrentStreams : lastOf 0x3 ps = none → s₀.maxConcurrentStreams = none
  initialWindowSize : lastOf 0x4 ps = none → s₀.initialWindowSize = 65535
  maxFrameSize : lastOf 0x5 ps = none → s₀.maxFrameSize = 16384

/-- **When one frame keeps the law.**  With the law in force before it, what a frame decodes to is in
force after it if and only if all that it leaves out had its default. -/
theorem inForce_append_iff {before ps : List (Nat × Nat)} {s₀ : Settings}
    (hbefore : InForce before s₀) (hs : Overlaid {} ps s) :
    InForce (before ++ ps) s ↔ AbsentDefault s₀ ps := by
  constructor
  · intro h
    refine ⟨fun hnone => ?_, fun hnone => ?_, fun hnone => ?_, fun hnone => ?_⟩
    · have := h.headerTableSize
      rw [hs.headerTableSize, lastOf_append, hnone, Option.none_or] at this
      rw [hbefore.headerTableSize, ← this]
      rfl
    · have := h.maxConcurrentStreams
      rw [hs.maxConcurrentStreams, lastOf_append, hnone, Option.none_or, Option.none_or] at this
      rw [hbefore.maxConcurrentStreams, ← this]
    · have := h.initialWindowSize
      rw [hs.initialWindowSize, lastOf_append, hnone, Option.none_or] at this
      rw [hbefore.initialWindowSize, ← this]
      rfl
    · have := h.maxFrameSize
      rw [hs.maxFrameSize, lastOf_append, hnone, Option.none_or] at this
      rw [hbefore.maxFrameSize, ← this]
      rfl
  · intro h
    refine ⟨?_, ?_, ?_, ?_⟩
    · rw [hs.headerTableSize, lastOf_append]
      rcases hlast : lastOf 0x1 ps with _ | v
      · rw [Option.none_or, ← hbefore.headerTableSize, h.headerTableSize hlast]
        rfl
      · rfl
    · rw [hs.maxConcurrentStreams, lastOf_append]
      rcases hlast : lastOf 0x3 ps with _ | v
      · rw [Option.none_or, Option.none_or, ← hbefore.maxConcurrentStreams,
          h.maxConcurrentStreams hlast]
      · rfl
    · rw [hs.initialWindowSize, lastOf_append]
      rcases hlast : lastOf 0x4 ps with _ | v
      · rw [Option.none_or, ← hbefore.initialWindowSize, h.initialWindowSize hlast]
        rfl
      · rfl
    · rw [hs.maxFrameSize, lastOf_append]
      rcases hlast : lastOf 0x5 ps with _ | v
      · rw [Option.none_or, ← hbefore.maxFrameSize, h.maxFrameSize hlast]
        rfl
      · rfl

/-! ## Runs -/

namespace H2Connection

variable {c : H2Connection}

/-- The parameters that a step brings: those of a SETTINGS frame that is not an acknowledgement and
does not interrupt a header block. -/
def paramsOf (c : H2Connection) : ConnStep → List (Nat × Nat)
  | .frame raw (.settings false _) =>
    if c.continuationStream = none then params (raw.drop 9) else []
  | _ => []

/-- The parameters received so far. -/
def recordParams (ps : List (Nat × Nat)) (c : H2Connection) (x : ConnStep) : List (Nat × Nat) :=
  ps ++ c.paramsOf x

/-- The condition under which a step keeps the law: a frame leaves out only what has its default, and
its initial window overflows no send window. -/
def KeepsSettings (c : H2Connection) : ConnStep → Prop
  | .frame raw (.settings false s) => c.continuationStream = none →
    AbsentDefault c.remoteSettings (params (raw.drop 9)) ∧
      ∀ sid st, c.streams.get? sid = some st → st.state ≠ .closed →
        st.sendWindow.window + c.delta s ≤ 0x7fffffff
  | _ => True

/-- SETTINGS that are accepted move the send window of every stream that is not closed by the change
of the initial window. -/
def MovesWindows (c : H2Connection) (x : ConnStep) : Prop :=
  ∀ raw s, x = .frame raw (.settings false s) → c.continuationStream = none →
    ∀ sid st, c.streams.get? sid = some st → st.state ≠ .closed →
      ∃ st', (c.step x).streams.get? sid = some st' ∧
        st'.sendWindow.window = st.sendWindow.window +
          ((c.step x).remoteSettings.initialWindowSize - c.remoteSettings.initialWindowSize)

/-- The payload of a frame that was received. -/
theorem Genuine.payload {raw : List UInt8} {f : Frame} (h : c.Genuine (.frame raw f)) :
    ∃ head, decodePayload head (raw.drop 9) = .ok f := by
  obtain ⟨head, hframed⟩ := decodeFrame_eq_some h.2
  refine ⟨head, ?_⟩
  have hpayload := hframed.payload
  rwa [List.take_length] at hpayload

theorem Genuine.decoded {raw : List UInt8}
    (h : c.Genuine (.frame raw (.settings false s))) : decode (raw.drop 9) = .ok s := by
  obtain ⟨head, hpayload⟩ := h.payload
  exact decodePayload_settings hpayload

variable {x : ConnStep}

/-- A step that is not an accepted SETTINGS frame changes no settings. -/
theorem step_remoteSettings
    (h : ∀ raw s, x = .frame raw (.settings false s) → c.continuationStream ≠ none) :
    (c.step x).remoteSettings = c.remoteSettings := by
  cases x with
  | own l => exact (own_aside c l).2.1
  | malformed e => exact congrArg Setup.remoteSettings (setup_fatalError c e)
  | overflow => exact congrArg Setup.remoteSettings (setup_fatalError c _)
  | frame raw f =>
    rcases hf : opens f with _ | _
    · exact congrArg Setup.remoteSettings (setup_takeFrame c hf)
    · obtain ⟨s, rfl⟩ := eq_settings_of_opens hf
      obtain ⟨e, he⟩ := admit_settings_ne (h raw s rfl) s
      rw [step, takeFrame, handleFrame, he]
      exact congrArg Setup.remoteSettings (setup_fatalError _ e)

/-- A step either applies the SETTINGS of a frame or leaves the settings of the peer alone. -/
theorem step_remoteSettings_cases (hgen : c.Genuine x) :
    (∃ raw s, x = .frame raw (.settings false s) ∧ c.continuationStream = none ∧
      decode (raw.drop 9) = .ok s ∧ (c.step x).remoteSettings = s ∧
      c.paramsOf x = params (raw.drop 9)) ∨
    (c.step x).remoteSettings = c.remoteSettings ∧ c.paramsOf x = [] := by
  by_cases happ : ∃ raw s, x = .frame raw (.settings false s) ∧ c.continuationStream = none
  · obtain ⟨raw, s, rfl, hcont⟩ := happ
    obtain ⟨c', r, happlied, htake⟩ := takeFrame_settings hcont s
    refine .inl ⟨raw, s, rfl, hcont, hgen.decoded, ?_, if_pos hcont⟩
    rw [step, htake]
    exact (congrArg Setup.remoteSettings (setup_settle c' r)).trans happlied.remoteSettings
  · refine .inr ⟨step_remoteSettings ?_, ?_⟩
    · rintro raw s rfl hcont
      exact happ ⟨raw, s, rfl, hcont⟩
    · rw [paramsOf.eq_def]
      split
      · exact if_neg fun hcont => happ ⟨_, _, rfl, hcont⟩
      · rfl

/-- **One step keeps the law.** -/
theorem inForce_step {ps : List (Nat × Nat)} (hgen : c.Genuine x) (hkeep : c.KeepsSettings x)
    (h : InForce ps c.remoteSettings) :
    InForce (recordParams ps c x) (c.step x).remoteSettings := by
  rw [recordParams]
  rcases step_remoteSettings_cases hgen with ⟨raw, s, rfl, hcont, hdec, hs, hps⟩ | ⟨hs, hps⟩
  · rw [hs, hps]
    exact (inForce_append_iff h (overlaid_decode hdec)).mpr (hkeep hcont).1
  · rw [hs, hps, List.append_nil]
    exact h

/-- **One step moves the windows.** -/
theorem movesWindows_step (hkeep : c.KeepsSettings x) : c.MovesWindows x := by
  rintro raw s rfl hcont sid st hst hopen
  obtain ⟨c', r, happlied, htake⟩ := takeFrame_settings hcont s
  rcases r with e | _
  · obtain ⟨sid', st', hst', hopen', hover⟩ := happlied.failed e rfl
    exact absurd ((hkeep hcont).2 sid' st' hst' hopen') (Int.not_le.mpr hover)
  · rw [step, htake]
    refine ⟨_, happlied.moved rfl sid st hst hopen, ?_⟩
    rw [settle, happlied.remoteSettings, delta]

end H2Connection

namespace Client

open H2Connection

/-- **The settings of the peer accumulate** in every run whose SETTINGS frames leave out only
parameters that still have their default, and overflow no send window: after the run each parameter
has the value of its last occurrence in all frames received, or else its default, and every SETTINGS
frame has moved the send windows by the change of the initial window. -/
theorem settings_accumulate (settings : Settings) (order : Table.Order Nat H2Stream)
    (calls : List Call)
    (h : ∀ x ∈ (new settings order).traceOf calls, x.1.KeepsSettings x.2) :
    InForce ((new settings order).recordOf recordParams [] calls)
        ((new settings order).applyAll calls).conn.remoteSettings ∧
      ∀ x ∈ (new settings order).traceOf calls, x.1.MovesWindows x.2 := by
  refine ⟨?_, fun x hx => movesWindows_step (h x hx)⟩
  refine applyAll_invariant _ (P := fun ps c => InForce ps c.remoteSettings) ?_ ?_
  · exact ⟨rfl, rfl, rfl, rfl⟩
  · intro x hx ps hps
    exact inForce_step (genuine_traceOf _ calls x hx) (h x hx) hps

/-- SETTINGS with an initial window of 100000. -/
def windowSettings : List UInt8 := [0, 0, 6, 4, 0, 0, 0, 0, 0, 0, 4, 0, 1, 0x86, 0xa0]

/-- The settings that `windowSettings` decode to. -/
def wideWindow : Settings := { initialWindowSize := 100000 }

/-- One frame that sets the initial window while a stream is open. -/
theorem settings_accumulate_window :
    InForce ((new .clientDefault .listed).recordOf recordParams []
        [.own (.sendRequest [] true), .recv windowSettings])
      ((new .clientDefault .listed).applyAll
        [.own (.sendRequest [] true), .recv windowSettings]).conn.remoteSettings ∧
      ∀ x ∈ (new .clientDefault .listed).traceOf
        [.own (.sendRequest [] true), .recv windowSettings], x.1.MovesWindows x.2 := by
  refine settings_accumulate .clientDefault .listed _ ?_
  have hsteps : (new .clientDefault .listed).stepsOf
      [.own (.sendRequest [] true), .recv windowSettings] =
      [.own (.sendRequest [] true), .frame windowSettings (.settings false wideWindow)] := by rfl
  intro x hx
  rw [traceOf, hsteps, Machine.trace, Machine.trace, Machine.trace, List.mem_cons,
    List.mem_singleton] at hx
  rcases hx with rfl | rfl
  · trivial
  · refine fun _ => ⟨⟨fun _ => rfl, fun _ => rfl, fun _ => rfl, fun _ => rfl⟩, ?_⟩
    intro sid st hst _
    change (Table.insert Table.empty 1 { H2Stream.new 65535 65535 with state := .halfClosedLocal }).get?
      sid = some st at hst
    rw [Table.get?_insert, Table.get?_empty] at hst
    split at hst
    · obtain rfl := Option.some_inj.mp hst
      decide
    · cases hst

/-- **An absent parameter is forgotten.**  SETTINGS with an initial window of 100000, then SETTINGS
without parameters: the initial window in force is 65535 again. -/
theorem settings_forgotten :
    ∃ (settings : Settings) (order : Table.Order Nat H2Stream) (calls : List Call),
      ¬ InForce ((new settings order).recordOf recordParams [] calls)
        ((new settings order).applyAll calls).conn.remoteSettings := by
  refine ⟨.clientDefault, .listed, [.recv windowSettings, .recv emptySettings], ?_⟩
  intro h
  exact absurd h.initialWindowSize (by decide)

end Client
end Ringline.H2
