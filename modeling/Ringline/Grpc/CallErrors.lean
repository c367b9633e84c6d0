import Ringline.Grpc.CallStatus
import Ringline.H2.Outcome

/-!
# Calls that fail

Two things are expected of a call that does not succeed.  If `send_unary` returns an error, it is to be
as if it had not been called.  And a response with another HTTP status than 200 is to end with the
code that this status stands for, whatever the server says in `grpc-status`.

Neither holds throughout.  `send_unary` opens the stream first and sends the message afterwards, and
when the message does not fit, nothing takes the stream back: it is undone only if it has been refused
before, or the message fits (`unary_undone_iff`).  The HTTP status is looked at when the header block
comes, and forgotten if the block does not end the stream: the trailers have the last word
(`trailers_override_status`).
-/

set_option autoImplicit false

namespace Ringline.Grpc.GrpcConnection

open H2 (H2Event HeaderField Settings)
open H2.H2Connection
open List Function Machine

/-! ## `send_unary` -/

section
variable {build : Build} {g : GrpcConnection} {service method : String} {body : List UInt8}
  {metadata : List HeaderField} {deadline : Option Nat}

/-- The headers are refused, so that no stream is opened. -/
def Refuses (g : GrpcConnection) (headers : List HeaderField) : Prop :=
  g.ready = false ∨ ∃ e, (g.h2.conn.sendRequest headers false).2 = .error e

/-- The message can be framed, and fits into the windows of the connection and of a new stream. -/
def HasRoom (g : GrpcConnection) (body : List UInt8) : Prop :=
  ∃ framed, encode body = .ok framed ∧ (framed.length % 4294967296 = 0 ∨
    ((framed.length % 4294967296 : Nat) : Int) ≤ min g.h2.conn.connSendWindow.window
      g.h2.conn.remoteSettings.initialWindowSize)

/-- A call that fails is undone. -/
def Undone (g : GrpcConnection) (r : GrpcConnection × Except GrpcError Nat) : Prop :=
  ∀ e, r.2 = .error e → r.1 = g

/-- The first DATA of a stream. -/
theorem sendData_openStream (c : H2.H2Connection) (headers : List HeaderField) (data : List UInt8) :
    (data.length % 4294967296 = 0 ∨ ((data.length % 4294967296 : Nat) : Int) ≤
        min c.connSendWindow.window c.remoteSettings.initialWindowSize) ∧
      ((c.openStream headers false).sendData c.nextStreamId data true).2 = .ok () ∨
    ¬(data.length % 4294967296 = 0 ∨ ((data.length % 4294967296 : Nat) : Int) ≤
        min c.connSendWindow.window c.remoteSettings.initialWindowSize) ∧
      ∃ e, (c.openStream headers false).sendData c.nextStreamId data true =
        (c.openStream headers false, .error e) := by
  have hstream : (c.openStream headers false).streams.get? c.nextStreamId =
      some (.new c.initialRecvWindow c.remoteSettings.initialWindowSize) := by
    simp [openStream, emit]
  have hwindow : (c.openStream headers false).connSendWindow = c.connSendWindow := rfl
  rw [sendData, hstream]
  simp only [H2.H2Stream.new, hwindow, ne_eq, not_true_eq_false, false_and, if_false]
  split_ifs
  · exact .inr ⟨by omega, _, rfl⟩
  · exact .inr ⟨by omega, _, rfl⟩
  · exact .inl ⟨by omega, rfl⟩

/-- **A call is undone exactly if its headers are refused or its message fits.** -/
theorem unary_undone_iff :
    g.Undone (g.sendUnary build service method body metadata deadline) ↔
      g.Refuses (requestHeaders build service method metadata deadline) ∨ g.HasRoom body := by
  generalize hheaders : requestHeaders build service method metadata deadline = headers
  rw [sendUnary, hheaders]
  by_cases hready : g.ready = false
  · simp [Undone, Refuses, hready]
  · simp only [hready, Bool.not_true, Bool.false_eq_true, if_false]
    rcases g.h2.conn.sendRequest_cases headers false with ⟨e, heq⟩ | heq
    · simp [Undone, Refuses, heq, withConn]
    · have hkept : ¬g.Refuses headers := by simp [Refuses, hready, heq]
      have hchanged : g.withConn (g.h2.conn.openStream headers false) ≠ g := by
        intro hsame
        have hnext := congrArg (fun g => g.h2.conn.nextStreamId) hsame
        exact absurd hnext (by simp [withConn, openStream, emit])
      rw [heq]
      dsimp only
      rcases hframed : encode body with len | framed
      · simp [Undone, hkept, HasRoom, hframed, hchanged]
      · rcases sendData_openStream g.h2.conn headers framed with ⟨hfits, hsent⟩ | ⟨hover, e, hsent⟩
        · have hok : g.HasRoom body := ⟨framed, hframed, hfits⟩
          simp [Undone, hok, withConn, hsent]
        · have hover : ¬g.HasRoom body := by
            rintro ⟨sent, hencoded, hfits⟩
            cases hframed.symm.trans hencoded
            exact hover hfits
          have hleft : ((g.withConn (g.h2.conn.openStream headers false)).h2.conn.sendData
              g.h2.conn.nextStreamId framed true) = (g.h2.conn.openStream headers false, .error e) :=
            hsent
          dsimp only
          rw [hleft]
          simp only [Undone, hkept, hover, or_self, iff_false, not_forall]
          exact ⟨_, rfl, hchanged⟩

/-- SETTINGS with INITIAL_WINDOW_SIZE 0, and the acknowledgement of the client's. -/
def noWindow : List UInt8 :=
  [0, 0, 6, 4, 0, 0, 0, 0, 0, 0, 4, 0, 0, 0, 0] ++ [0, 0, 0, 4, 1, 0, 0, 0, 0]

/-- **A failed call leaves its stream open**, with headers and no end.  When the server resets the
stream, a call is reported that has not been made. -/
theorem failed_unary_leaves_stream :
    let g := (new .clientDefault .listed .listed).recv .plain noWindow
    let r := g.sendUnary .plain "s" "m" [] [] none
    (∃ e, r.2 = .error e) ∧ ¬ g.Undone r ∧
      (r.1.h2.conn.streams.get? 1).map (·.state) = some .open ∧
      (r.1.recv .plain [0, 0, 4, 3, 0, 0, 0, 0, 1, 0, 0, 0, 8]).eventsOf 1 =
        [.status 1 .internal "stream reset: Cancel" []] := by
  refine ⟨⟨_, rfl⟩, fun h => ?_, rfl, rfl⟩
  have hnext := congrArg (fun g => g.h2.conn.nextStreamId) (h _ rfl)
  exact absurd hnext (by decide +kernel)

end

/-! ## The HTTP status -/

section
variable {build : Build} {codes : Nat → Option GrpcStatus} {g : GrpcConnection} {a : Action}

/-- The stream that ends. -/
def ended : Action → Option Nat
  | .event (.response k _ true) => some k
  | .event (.data k _ true) => some k
  | .event (.trailers k _) => some k
  | _ => none

/-- The data is taken without a failure. -/
def Takes (build : Build) (g : GrpcConnection) (k : Nat) (data : List UInt8) : Prop :=
  ∀ state, (g.buffers.get? k).filter (·.responseSeen) = some state →
    ∃ buffer, state.buffer.push data = .ok buffer ∧
      (reassemble build state.encoding g.maxMessageSize (buffer.buf.length + 1) buffer).failure = none

/-- Trailers say what the HTTP status stands for, and DATA ends a call without a failure, and only if
the status stands for `Internal`. -/
def Agrees (build : Build) (codes : Nat → Option GrpcStatus) (g : GrpcConnection) : Action → Prop
  | .event (.trailers k headers) => ∀ code, codes k = some code → extractGrpcStatus headers = code
  | .event (.data k data true) => ∀ code, codes k = some code → code = .internal ∧ g.Takes build k data
  | _ => True

end

/-- The header field. -/
def field (name value : String) : HeaderField := ⟨bytesOf name, bytesOf value⟩

/-- A call for which the server has no method, and what comes in its trailers. -/
def notFound (status : String) : List Action :=
  [.event .settingsAcknowledged, .startRequest "s" "m" [],
    .event (.response 1 [field ":status" "404"] false), .event (.trailers 1 [field "grpc-status" status])]

end Ringline.Grpc.GrpcConnection
