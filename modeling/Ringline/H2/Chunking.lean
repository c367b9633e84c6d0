import Ringline.H2.Run

/-!
# How the peer's bytes are cut does not matter

The peer's bytes arrive in pieces whose sizes mean nothing.  `recv` handles the frames that are
complete and keeps the rest, so a frame may be handled in one call or in another; here is the proof
that nothing else depends on it.

* `processLoop_append` — the frames of a buffer followed by more bytes are the frames of the buffer,
  and then those of what is left of it followed by the bytes.  This is `decodeFrame_append`, lifted
  through the loop.
* `recvAll_eq` — so the pieces of a run of `recv` calls may as well be received at once.

Once the connection is closing the loop stops, and what is left in the buffer then does depend on
the pieces.  `Agree` is equality up to that.
-/

set_option autoImplicit false

namespace Ringline.H2.Client

open H2Connection (fatalError_done own_done own_aside)

/-! ## The loop -/

/-- The connections are equal, and so are the receive buffers as long as they are looked at. -/
structure Agree (a b : Client) : Prop where
  conn : a.conn = b.conn
  recvBuf : a.conn.state.done = false → a.recvBuf = b.recvBuf

theorem Agree.refl (a : Client) : Agree a a := ⟨rfl, fun _ => rfl⟩

theorem Agree.symm {a b : Client} (h : Agree a b) : Agree b a :=
  ⟨h.conn.symm, fun hdone => (h.recvBuf (h.conn ▸ hdone)).symm⟩

theorem Agree.trans {a b c : Client} (h₁ : Agree a b) (h₂ : Agree b c) : Agree a c :=
  ⟨h₁.conn.trans h₂.conn, fun hdone => (h₁.recvBuf hdone).trans (h₂.recvBuf (h₁.conn ▸ hdone))⟩

/-- There is no frame in the buffer that would be handled. -/
def Settled (cl : Client) : Prop :=
  cl.conn.state.done = true ∨
    decodeFrame cl.recvBuf cl.conn.localSettings.maxFrameSize = .ok none

/-- The bytes that come next are put behind those that are there. -/
def more (cl : Client) (data : List UInt8) : Client := { cl with recvBuf := cl.recvBuf ++ data }

variable {cl : Client}

theorem processLoop_done (h : cl.conn.state.done = true) (fuel : Nat) :
    processLoop fuel cl = cl := by
  cases fuel with
  | zero => rfl
  | succ fuel => rw [processLoop, if_pos h]

theorem processLoop_settled (h : cl.Settled) (fuel : Nat) : processLoop fuel cl = cl := by
  cases fuel with
  | zero => rfl
  | succ fuel =>
    rcases h with hdone | hnone
    · exact processLoop_done hdone _
    · rw [processLoop, hnone]
      split <;> rfl

/-- With fuel for the whole buffer the loop ends because nothing is left to handle. -/
theorem settled_processLoop (fuel : Nat) (cl : Client) (hfuel : cl.recvBuf.length < fuel) :
    (processLoop fuel cl).Settled := by
  induction fuel generalizing cl with
  | zero => exact absurd hfuel (Nat.not_lt_zero _)
  | succ fuel ih =>
    rw [processLoop]
    split
    · rename_i hdone
      exact .inl hdone
    · rcases hdec : decodeFrame cl.recvBuf cl.conn.localSettings.maxFrameSize with
        e | _ | ⟨f, consumed⟩
      · exact .inl (fatalError_done _ e)
      · exact .inr hdec
      · refine ih _ ?_
        have hconsumed := decodeFrame_some hdec
        simp only [List.length_drop]
        omega

/-- Any fuel that is enough gives the same. -/
theorem processLoop_fuel (fuel : Nat) (cl : Client) (hfuel : cl.recvBuf.length < fuel) :
    processLoop fuel cl = processRecvBuf cl := by
  rw [processRecvBuf]
  generalize hn : cl.recvBuf.length + 1 = n
  replace hn : cl.recvBuf.length < n := by omega
  induction fuel generalizing cl n with
  | zero => exact absurd hfuel (Nat.not_lt_zero _)
  | succ fuel ih =>
    cases n with
    | zero => exact absurd hn (Nat.not_lt_zero _)
    | succ n =>
      rw [processLoop, processLoop]
      split
      · rfl
      · rcases hdec : decodeFrame cl.recvBuf cl.conn.localSettings.maxFrameSize with
          e | _ | ⟨f, consumed⟩
        · rfl
        · rfl
        · have hconsumed := decodeFrame_some hdec
          refine ih _ ?_ n ?_ <;> simp only [List.length_drop] <;> omega

theorem processRecvBuf_settled (h : cl.Settled) : cl.processRecvBuf = cl :=
  processLoop_settled h _

/-- The loop handles the frames of a buffer first, and goes on with what is left of it and the bytes
behind it. -/
theorem processLoop_append (fuel : Nat) (cl : Client) (data : List UInt8)
    (hfuel : cl.recvBuf.length + data.length < fuel) :
    Agree (processLoop fuel (cl.more data)) (processRecvBuf ((processLoop fuel cl).more data)) := by
  induction fuel generalizing cl with
  | zero => exact absurd hfuel (Nat.not_lt_zero _)
  | succ fuel ih =>
    have hlen : (cl.more data).recvBuf.length < fuel + 1 := by
      rw [more, List.length_append]
      exact hfuel
    by_cases hdone : cl.conn.state.done = true
    · rw [processLoop_done hdone, processLoop_fuel _ _ hlen]
      exact .refl _
    · have happend := fun h : decodeFrame cl.recvBuf cl.conn.localSettings.maxFrameSize ≠ .ok none =>
        decodeFrame_append h data
      rcases hdec : decodeFrame cl.recvBuf cl.conn.localSettings.maxFrameSize with
        e | _ | ⟨f, consumed⟩
      · -- A frame that cannot be decoded empties the buffer, and closes the connection.
        rw [hdec] at happend
        have hstop : processLoop (fuel + 1) cl = ⟨cl.conn.fatalError e, []⟩ := by
          rw [processLoop, if_neg hdone, hdec]
        have hstop' : processLoop (fuel + 1) (cl.more data) = ⟨cl.conn.fatalError e, []⟩ := by
          rw [processLoop, if_neg (by exact hdone)]
          simp only [more, happend (by simp)]
        rw [hstop, hstop', processRecvBuf, processLoop_done (by exact fatalError_done _ e)]
        exact ⟨rfl, fun hopen => absurd (fatalError_done _ e) (Bool.eq_false_iff.mp hopen)⟩
      · rw [processLoop_settled (.inr hdec), processLoop_fuel _ _ hlen]
        exact .refl _
      · have hconsumed := decodeFrame_some hdec
        rw [hdec] at happend
        have hrest : processLoop (fuel + 1) (cl.more data) = processLoop fuel
            ((⟨cl.conn.takeFrame f, cl.recvBuf.drop consumed⟩ : Client).more data) := by
          rw [processLoop, if_neg (by exact hdone)]
          simp only [more, happend (by simp), List.drop_append_of_le_length hconsumed.2]
        rw [hrest, processLoop, if_neg hdone, hdec]
        refine ih _ ?_
        simp only [List.length_drop]
        omega

/-- **More bytes behind a buffer.** -/
theorem processRecvBuf_more (cl : Client) (data : List UInt8) :
    Agree (cl.more data).processRecvBuf (cl.processRecvBuf.more data).processRecvBuf := by
  have hfuel : cl.recvBuf.length + data.length < cl.recvBuf.length + data.length + 1 :=
    Nat.lt_succ_self _
  have h := processLoop_append _ cl data hfuel
  rwa [processLoop_fuel _ (cl.more data) (by rw [more, List.length_append]; exact hfuel),
    processLoop_fuel _ cl (by omega)] at h

/-! ## Pieces -/

/-- Receive the pieces one after the other. -/
def recvAll (cl : Client) (pieces : List (List UInt8)) : Client := Machine.run recv cl pieces

/-- No piece makes what is left and what is new exceed the cap on the receive buffer. -/
def Fits : Client → List (List UInt8) → Prop
  | _, [] => True
  | cl, piece :: pieces =>
    (cl.conn.state.done = true ∨ cl.recvBuf.length + piece.length ≤ cl.conn.maxRecvBuf) ∧
      Fits (cl.recv piece) pieces

/-- Pieces that fit may as well be received at once. -/
theorem recvAll_eq (pieces : List (List UInt8)) (cl : Client) (hsettled : cl.Settled)
    (hfits : cl.Fits pieces) :
    Agree (cl.recvAll pieces) (cl.more pieces.flatten).processRecvBuf := by
  induction pieces generalizing cl with
  | nil =>
    have hmore : cl.more [].flatten = cl := by rw [more, List.flatten_nil, List.append_nil]
    rw [hmore, processRecvBuf_settled hsettled]
    exact .refl _
  | cons piece pieces ih =>
    obtain ⟨hpiece, hfits⟩ := hfits
    have hmore : cl.more (piece :: pieces).flatten = (cl.more piece).more pieces.flatten := by
      simp only [more, List.flatten_cons, List.append_assoc]
    rw [recvAll, Machine.run_cons, ← recvAll, hmore]
    by_cases hdone : cl.conn.state.done = true
    · have hrecv : cl.recv piece = cl := by rw [recv, if_pos hdone]
      rw [hrecv] at hfits ⊢
      refine (ih cl hsettled hfits).trans ?_
      rw [processRecvBuf_settled (.inl (by exact hdone)),
        processRecvBuf_settled (.inl (by exact hdone))]
      exact ⟨rfl, fun hopen => absurd hdone (Bool.eq_false_iff.mp hopen)⟩
    · have hle : cl.recvBuf.length + piece.length ≤ cl.conn.maxRecvBuf := hpiece.resolve_left hdone
      have hrecv : cl.recv piece = (cl.more piece).processRecvBuf := by
        rw [recv, if_neg hdone, if_neg (Nat.not_lt.mpr hle)]
        rfl
      rw [hrecv] at hfits ⊢
      refine (ih _ (settled_processLoop _ _ (Nat.lt_succ_self _)) hfits).trans ?_
      exact (processRecvBuf_more (cl.more piece) pieces.flatten).symm

/-! ## Runs -/

theorem settled_apply (h : cl.Settled) (call : Call) : (cl.apply call).Settled := by
  cases call with
  | own l =>
    rcases h with hdone | hnone
    · exact .inl (own_done hdone l)
    · refine .inr ?_
      rw [apply, (own_aside _ l).1]
      exact hnone
  | recv data =>
    rw [apply, recv]
    split
    · exact h
    · split
      · exact .inl (fatalError_done _ _)
      · exact settled_processLoop _ _ (Nat.lt_succ_self _)

theorem settled_applyAll (settings : Settings) (order : Table.Order Nat H2Stream)
    (calls : List Call) : ((new settings order).applyAll calls).Settled :=
  Machine.run_invariant (.inr rfl) fun x _ hx => settled_apply hx x.2

/-- **How the peer's bytes are cut does not matter.**  After any run of calls, the same bytes received
in two ways, neither of which exceeds the cap on the receive buffer, lead to the same connection:
state, streams, windows, compression contexts, everything sent and every event.  The receive buffers
are the same too, unless the connection is closing. -/
theorem recv_cut_irrelevant (settings : Settings) (order : Table.Order Nat H2Stream)
    (calls : List Call) (pieces pieces' : List (List UInt8))
    (hcut : pieces.flatten = pieces'.flatten)
    (hfits : ((new settings order).applyAll calls).Fits pieces)
    (hfits' : ((new settings order).applyAll calls).Fits pieces') :
    Agree (((new settings order).applyAll calls).recvAll pieces)
      (((new settings order).applyAll calls).recvAll pieces') := by
  have hsettled := settled_applyAll settings order calls
  have h := recvAll_eq pieces _ hsettled hfits
  rw [hcut] at h
  exact h.trans (recvAll_eq pieces' _ hsettled hfits').symm

/-- A SETTINGS frame in one piece, and in two with an empty piece between them. -/
theorem recv_cut_irrelevant_settings :
    Agree (((new .clientDefault .listed).applyAll [.own .sendPing]).recvAll [emptySettings])
      (((new .clientDefault .listed).applyAll [.own .sendPing]).recvAll
        [[0, 0, 0, 4], [], [0, 0, 0, 0, 0]]) :=
  recv_cut_irrelevant .clientDefault .listed [.own .sendPing] [emptySettings]
    [[0, 0, 0, 4], [], [0, 0, 0, 0, 0]] rfl ⟨.inr (by decide), trivial⟩
    ⟨.inr (by decide), .inr (by decide), .inr (by decide), trivial⟩

end Ringline.H2.Client
