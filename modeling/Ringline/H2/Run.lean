import Ringline.Base.Run
import Ringline.H2.Connection

/-!
# Runs of a client

A user of `H2Connection` makes calls.  Most calls are one step of the connection; a call of `recv`
is as many steps as it finds frames in the bytes.  This file takes every call apart into such steps
(`Client.stepsOf`), so that what a run of calls does to the connection is a run of a machine that
handles one frame at a time (`Client.applyAll_conn`).  The frames of such a run are those the decoder
found (`Client.genuine_traceOf`).
-/

set_option autoImplicit false

namespace Ringline.H2

open Machine List

/-! ## Steps of the connection -/

/-- A call that does not bring in bytes of the peer. -/
inductive Local where
  | setMaxRecvBuf (n : Nat)
  | sendRequest (headers : List HeaderField) (endStream : Bool)
  | sendData (streamId : Nat) (data : List UInt8) (endStream : Bool)
  | resetStream (streamId : Nat) (code : ErrorCode)
  | sendPing
  | sendGoaway (code : ErrorCode)

/-- A step of the connection. -/
inductive ConnStep where
  | own (l : Local)
  /-- The frame with the bytes `raw` is handled. -/
  | frame (raw : List UInt8) (f : Frame)
  /-- The peer's bytes are not a frame. -/
  | malformed (e : H2Error)
  /-- The peer's bytes do not fit into the receive buffer. -/
  | overflow

namespace H2Connection

variable (c : H2Connection)

def own : Local → H2Connection
  | .setMaxRecvBuf n => c.setMaxRecvBuf n
  | .sendRequest headers endStream => (c.sendRequest headers endStream).1
  | .sendData streamId data endStream => (c.sendData streamId data endStream).1
  | .resetStream streamId code => c.resetStream streamId code
  | .sendPing => c.sendPing
  | .sendGoaway code => c.sendGoaway code

def step : ConnStep → H2Connection
  | .own l => c.own l
  | .frame _ f => c.takeFrame f
  | .malformed e => c.fatalError e
  | .overflow => c.fatalError c.overflowError

theorem fatalError_done (e : H2Error) : (c.fatalError e).state.done = true := by
  rw [fatalError]
  split
  · assumption
  · rfl

/-- The calls of the client leave alone what its peer has a say in. -/
theorem own_aside (l : Local) :
    (c.own l).localSettings = c.localSettings ∧ (c.own l).remoteSettings = c.remoteSettings ∧
      (c.own l).events = c.events ∧ (c.own l).peerLastStreamId = c.peerLastStreamId := by
  cases l with
  | sendRequest headers es =>
    simp only [own, sendRequest]
    repeat' split
    all_goals exact ⟨rfl, rfl, rfl, rfl⟩
  | sendData sid data es =>
    simp only [own, sendData]
    repeat' split
    all_goals exact ⟨rfl, rfl, rfl, rfl⟩
  | _ => exact ⟨rfl, rfl, rfl, rfl⟩

theorem own_done {c : H2Connection} (h : c.state.done = true) (l : Local) :
    (c.own l).state.done = true := by
  cases l with
  | sendRequest headers es => simp only [own, sendRequest, h, if_true]
  | sendData sid data es =>
    simp only [own, sendData]
    repeat' split
    all_goals exact h
  | sendGoaway code => rfl
  | _ => exact h

/-- A step that a call can make: a frame is handled while the connection is open, and it is the one
that the decoder found in its bytes. -/
def Genuine : ConnStep → Prop
  | .frame raw f => c.state.done = false ∧
      decodeFrame raw c.localSettings.maxFrameSize = .ok (some (f, raw.length))
  | _ => True

end H2Connection

/-! ## Calls -/

/-- A call. -/
inductive Call where
  | own (l : Local)
  | recv (data : List UInt8)

namespace Client

open H2Connection (step Genuine)

variable {calls : List Call} (cl : Client)

def apply : Call → Client
  | .own l => { cl with conn := cl.conn.own l }
  | .recv data => cl.recv data

/-- A run of calls. -/
def applyAll (calls : List Call) : Client := run apply cl calls

/-- The steps of `processLoop`. -/
def loopSteps : Nat → Client → List ConnStep
  | 0, _ => []
  | fuel + 1, cl =>
    if cl.conn.state.done then []
    else
      match decodeFrame cl.recvBuf cl.conn.localSettings.maxFrameSize with
      | .ok none => []
      | .error e => [.malformed e]
      | .ok (some (f, consumed)) =>
        .frame (cl.recvBuf.take consumed) f ::
          loopSteps fuel ⟨cl.conn.takeFrame f, cl.recvBuf.drop consumed⟩

/-- The steps of a call. -/
def callSteps : Call → List ConnStep
  | .own l => [.own l]
  | .recv data =>
    if cl.conn.state.done then []
    else if cl.conn.maxRecvBuf < cl.recvBuf.length + data.length then [.overflow]
    else loopSteps ((cl.recvBuf ++ data).length + 1) { cl with recvBuf := cl.recvBuf ++ data }

/-- The steps of a run of calls. -/
def stepsOf : Client → List Call → List ConnStep
  | _, [] => []
  | cl, call :: calls => cl.callSteps call ++ stepsOf (cl.apply call) calls

/-- The steps of a run of calls, with the states they start from. -/
def traceOf (calls : List Call) : List (H2Connection × ConnStep) :=
  trace step cl.conn (cl.stepsOf calls)

/-- What an observer of a run of calls knows in the end. -/
def recordOf {γ : Type} (upd : γ → H2Connection → ConnStep → γ) (h : γ) (cl : Client)
    (calls : List Call) : γ :=
  (run (withHistory step upd) (h, cl.conn) (cl.stepsOf calls)).1

/-- The steps of a run of calls, with what the observer knows before each. -/
def historyOf {γ : Type} (upd : γ → H2Connection → ConnStep → γ) (h : γ) (cl : Client)
    (calls : List Call) : List ((γ × H2Connection) × ConnStep) :=
  trace (withHistory step upd) (h, cl.conn) (cl.stepsOf calls)

theorem processLoop_conn (fuel : Nat) (cl : Client) :
    (processLoop fuel cl).conn = run step cl.conn (loopSteps fuel cl) := by
  induction fuel generalizing cl with
  | zero => rfl
  | succ fuel ih =>
    rw [processLoop, loopSteps]
    split
    · rfl
    · rcases decodeFrame cl.recvBuf cl.conn.localSettings.maxFrameSize with e | _ | ⟨f, consumed⟩
      · rfl
      · rfl
      · exact ih _

theorem apply_conn (call : Call) : (cl.apply call).conn = run step cl.conn (cl.callSteps call) := by
  cases call with
  | own l => rfl
  | recv data =>
    rw [apply, recv, callSteps]
    split
    · rfl
    · split
      · rfl
      · exact processLoop_conn _ _

/-- **Calls are steps.**  A run of calls takes the connection where its steps take it. -/
theorem applyAll_conn (calls : List Call) :
    (cl.applyAll calls).conn = run step cl.conn (cl.stepsOf calls) := by
  induction calls generalizing cl with
  | nil => rfl
  | cons call calls ih =>
    rw [applyAll, run_cons, ← applyAll, ih, stepsOf, run_append, apply_conn]

theorem stepsOf_append (calls calls' : List Call) :
    cl.stepsOf (calls ++ calls') = cl.stepsOf calls ++ (cl.applyAll calls).stepsOf calls' := by
  induction calls generalizing cl with
  | nil => rfl
  | cons call calls ih =>
    rw [cons_append, stepsOf, stepsOf, ih, append_assoc]
    rfl

variable {γ : Type} {cl : Client} {P : γ → H2Connection → Prop} {h : γ}
  (upd : γ → H2Connection → ConnStep → γ)

theorem recordOf_append (h : γ) (cl : Client) (calls calls' : List Call) :
    cl.recordOf upd h (calls ++ calls') =
      (cl.applyAll calls).recordOf upd (cl.recordOf upd h calls) calls' := by
  have hconn := run_withHistory step upd (h, cl.conn) (cl.stepsOf calls)
  rw [← applyAll_conn] at hconn
  rw [recordOf, stepsOf_append, run_append, recordOf, recordOf, ← hconn]

theorem mem_traceOf_of_mem_historyOf {upd : γ → H2Connection → ConnStep → γ}
    {p : (γ × H2Connection) × ConnStep} (hp : p ∈ cl.historyOf upd h calls) :
    (p.1.2, p.2) ∈ cl.traceOf calls :=
  mem_trace_of_withHistory hp

/-- The last step of a run. -/
theorem mem_historyOf_last {before : List ConnStep} {x : ConnStep}
    (hsteps : cl.stepsOf calls = before ++ [x]) (upd : γ → H2Connection → ConnStep → γ) (h : γ) :
    (run (withHistory step upd) (h, cl.conn) before, x) ∈ cl.historyOf upd h calls :=
  mem_trace_iff.mpr ⟨before, [], hsteps, rfl⟩

section

variable (hinit : P h cl.conn)

include hinit

/-- **Induction along a run of calls, with a history.** -/
theorem applyAll_induction {upd : γ → H2Connection → ConnStep → γ}
    (hstep : ∀ p ∈ cl.historyOf upd h calls, P p.1.1 p.1.2 →
      P (upd p.1.1 p.1.2 p.2) (p.1.2.step p.2)) :
    P (cl.recordOf upd h calls) (cl.applyAll calls).conn := by
  have hrun : P (cl.recordOf upd h calls) (run (withHistory step upd) (h, cl.conn)
      (cl.stepsOf calls)).2 :=
    run_invariant (P := fun p : γ × H2Connection => P p.1 p.2) hinit hstep
  rw [applyAll_conn, ← run_withHistory step upd (h, cl.conn)]
  exact hrun

/-- What holds along a run of calls holds wherever a step of it starts. -/
theorem historyOf_induction
    (hstep : ∀ p ∈ cl.historyOf upd h calls, P p.1.1 p.1.2 →
      P (upd p.1.1 p.1.2 p.2) (p.1.2.step p.2)) : ∀ p ∈ cl.historyOf upd h calls, P p.1.1 p.1.2 :=
  trace_invariant (P := fun p : γ × H2Connection => P p.1 p.2) hinit hstep

/-- Induction along a run whose steps do not depend on the history. -/
theorem applyAll_invariant
    (hstep : ∀ x ∈ cl.traceOf calls, ∀ h, P h x.1 → P (upd h x.1 x.2) (x.1.step x.2)) :
    P (cl.recordOf upd h calls) (cl.applyAll calls).conn :=
  applyAll_induction hinit fun p hp => hstep (p.1.2, p.2) (mem_traceOf_of_mem_historyOf hp) p.1.1

theorem historyOf_invariant
    (hstep : ∀ x ∈ cl.traceOf calls, ∀ h, P h x.1 → P (upd h x.1 x.2) (x.1.step x.2)) :
    ∀ p ∈ cl.historyOf upd h calls, P p.1.1 p.1.2 :=
  historyOf_induction upd hinit fun p hp => hstep (p.1.2, p.2) (mem_traceOf_of_mem_historyOf hp) p.1.1

end

/-! ## The frames of a run -/

theorem genuine_loopSteps (fuel : Nat) (cl : Client) :
    ∀ x ∈ trace step cl.conn (loopSteps fuel cl), Genuine x.1 x.2 := by
  induction fuel generalizing cl with
  | zero => exact fun _ hx => absurd hx not_mem_nil
  | succ fuel ih =>
    intro x hx
    rw [loopSteps] at hx
    split at hx
    · exact absurd hx not_mem_nil
    · rename_i hdone
      split at hx
      · exact absurd hx not_mem_nil
      · obtain rfl := mem_singleton.mp hx
        trivial
      · rename_i f consumed hdec
        rw [trace, mem_cons] at hx
        rcases hx with rfl | hx
        · refine ⟨Bool.eq_false_of_not_eq_true hdone, ?_⟩
          rw [decodeFrame_take hdec, length_take, Nat.min_eq_left (decodeFrame_some hdec).2]
        · exact ih ⟨cl.conn.takeFrame f, cl.recvBuf.drop consumed⟩ x hx

theorem genuine_callSteps (cl : Client) (call : Call) :
    ∀ x ∈ trace step cl.conn (cl.callSteps call), Genuine x.1 x.2 := by
  intro x hx
  cases call with
  | own l =>
    obtain rfl := mem_singleton.mp hx
    trivial
  | recv data =>
    rw [callSteps] at hx
    split at hx
    · exact absurd hx not_mem_nil
    · split at hx
      · obtain rfl := mem_singleton.mp hx
        trivial
      · exact genuine_loopSteps _ { cl with recvBuf := cl.recvBuf ++ data } x hx

/-- **Every frame of a run is genuine.** -/
theorem genuine_traceOf (cl : Client) (calls : List Call) :
    ∀ x ∈ cl.traceOf calls, Genuine x.1 x.2 := by
  induction calls generalizing cl with
  | nil => exact fun _ hx => absurd hx not_mem_nil
  | cons call calls ih =>
    intro x hx
    rw [traceOf, stepsOf, trace_append, ← apply_conn, mem_append] at hx
    rcases hx with hx | hx
    · exact genuine_callSteps cl call x hx
    · exact ih _ x hx

/-! ## Two frames -/

/-- SETTINGS without parameters. -/
def emptySettings : List UInt8 := [0, 0, 0, 4, 0, 0, 0, 0, 0]

/-- The response 200 on stream 1, which ends it. -/
def okResponse : List UInt8 := [0, 0, 1, 1, 5, 0, 0, 0, 1, 0x88]

end Client
end Ringline.H2
