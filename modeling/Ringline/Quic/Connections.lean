import Ringline.Quic.Calls
import Mathlib.Logic.Function.Basic

/-!
# The end of a connection

An application learns from `ConnectionClosed` that a connection is over, and the endpoint drops its
entry once quinn has drained it.  Quinn says that a connection is lost with an event, and that it is
drained when it is asked; a connection that nobody closed is drained only after it was lost, or at
the same time, as when it has been idle for too long.

`ConnectionClosed` is emitted exactly once for every connection that has ended (`Inv`).  But
`poll_connection` returns when it reads that the connection is lost, before it asks whether it is
drained.  So a connection that is drained is removed if and only if it was not reported lost in the
same poll (`drained_removed_iff`).  One that times out stays in the slab and in the handle map, and
nothing will poll it again (`timed_out_connection_stays`).
-/

set_option autoImplicit false

namespace Ringline.Quic

open List

/-- What an observer knows: connections are numbered as they are made. -/
structure Memory where
  /-- The connection that was last stored under a key. -/
  who : Nat → Option Nat
  /-- The number of connections so far. -/
  count : Nat
  /-- The connections for which `ConnectionClosed` was emitted. -/
  closed : List Nat

namespace Memory

def start : Memory := ⟨fun _ => none, 0, []⟩

variable (m : Memory)

/-- A connection is stored under a key. -/
def born (key : Nat) : Memory :=
  { m with who := Function.update m.who key (some m.count), count := m.count + 1 }

/-- Events are emitted. -/
def note (new : List QuicEvent) : Memory :=
  { m with closed := m.closed ++ (closes new).filterMap m.who }

theorem note_append (l l' : List QuicEvent) : m.note (l ++ l') = (m.note l).note l' := by
  rw [note, note, note, closes_append, filterMap_append, append_assoc]

@[simp] theorem note_nil : m.note [] = m := by
  rw [note]
  exact congrArg (fun l => { m with closed := l }) (append_nil _)

end Memory

namespace QuicEndpoint

/-- What the observer knows after a call. -/
def record (m : Memory) (e : QuicEndpoint) (i : Input) : Memory :=
  (match e.inserts i with
    | some key => m.born key
    | none => m).note (e.emitted i)

/-- The map leads to a key. -/
def maps (e : QuicEndpoint) (idx key : Nat) : Prop := e.handleMap[idx]?.join = some key

/-- What holds along every run. -/
structure Inv (m : Memory) (e : QuicEndpoint) : Prop where
  linked : ∀ idx key, e.maps idx key → ∃ c, e.connections.get? key = some c ∧ c.handle = idx
  known : ∀ key c, e.connections.get? key = some c →
    ∃ s, m.who key = some s ∧ s < m.count ∧ (s ∈ m.closed ↔ c.closeEventEmitted = true)
  distinct : ∀ key key' c c', e.connections.get? key = some c → e.connections.get? key' = some c' →
    m.who key = m.who key' → key = key'
  once : m.closed.Nodup
  bound : ∀ s ∈ m.closed, s < m.count
  ended : ∀ s < m.count, s ∈ m.closed ∨ ∃ key c, e.connections.get? key = some c ∧ m.who key = some s

section

variable {m : Memory} {e e' : QuicEndpoint} {key : Nat} {lost : Bool} {new : List QuicEvent}

/-- The closing of a connection that is there. -/
theorem closed_note_self (hh : Hears key lost e e' new) {c : QuicConnection} {s : Nat}
    (hc : e.connections.get? key = some c) (hs : m.who key = some s) :
    (m.note new).closed = m.closed ++ if lost && !c.closeEventEmitted then [s] else [] := by
  obtain ⟨c', -, hheard⟩ := hh.self c hc
  rw [Memory.note, hheard.closes]
  split
  · rw [filterMap_cons_some hs]
    rfl
  · rfl

theorem getElem?_setHandle (map : List (Option Nat)) (idx : Nat) (k : Option Nat) (j : Nat) :
    (setHandle map idx k)[j]?.join = if j = idx then k else map[j]?.join := by
  have hlt : idx < (map ++ replicate (idx + 1 - map.length) none).length := by
    rw [length_append, length_replicate]
    omega
  rw [setHandle, getElem?_set]
  split
  · rename_i heq
    rw [if_pos heq.symm]
    cases k <;> rfl
  · rename_i hne
    rw [if_neg (Ne.symm hne), getElem?_append]
    split
    · rfl
    · rename_i hge
      rw [getElem?_eq_none (l := map) (Nat.not_lt.mp hge), getElem?_replicate]
      split <;> rfl

section

variable (h : Inv m e)

include h

/-- What is closed was closed before, or is the connection under the key. -/
theorem Inv.closed_note (hh : Hears key lost e e' new) :
    (m.note new).closed = m.closed ∨ ∃ c s, e.connections.get? key = some c ∧ m.who key = some s ∧
      s < m.count ∧ s ∉ m.closed ∧ (m.note new).closed = m.closed ++ [s] := by
  cases hc : e.connections.get? key with
  | none =>
    left
    rw [Memory.note, (hh.absent hc).2]
    exact append_nil _
  | some c =>
    obtain ⟨s, hs, hlt, hiff⟩ := h.known key c hc
    have hclosed := closed_note_self hh hc hs
    split at hclosed
    · rename_i hlost
      rw [Bool.and_eq_true, Bool.not_eq_true'] at hlost
      refine .inr ⟨c, s, rfl, hs, hlt, fun hmem => ?_, hclosed⟩
      rw [hiff.mp hmem] at hlost
      cases hlost.2
    · exact .inl (hclosed.trans (append_nil _))

/-- **One connection changes.**  All that is known stays true. -/
theorem Inv.hears (hh : Hears key lost e e' new) : Inv (m.note new) e' := by
  have hback : ∀ {j c'}, e'.connections.get? j = some c' →
      ∃ c, e.connections.get? j = some c ∧ (j ≠ key → c' = c) ∧
        (j = key → c'.closeEventEmitted = (lost || c.closeEventEmitted)) := by
    intro j c' hc'
    rcases eq_or_ne j key with rfl | hne
    · cases hc : e.connections.get? j with
      | none => rw [(hh.absent hc).1] at hc'; cases hc'
      | some c =>
        obtain ⟨d, hd, hheard⟩ := hh.self c hc
        cases (hd.symm.trans hc')
        exact ⟨c, rfl, fun hne => absurd rfl hne, fun _ => hheard.closeEventEmitted⟩
    · rw [hh.other j hne] at hc'
      exact ⟨c', hc', fun _ => rfl, fun heq => absurd heq hne⟩
  have hforth : ∀ {j c}, e.connections.get? j = some c →
      ∃ c', e'.connections.get? j = some c' ∧ c'.handle = c.handle := by
    intro j c hc
    rcases eq_or_ne j key with rfl | hne
    · obtain ⟨c', hc', hheard⟩ := hh.self c hc
      exact ⟨c', hc', hheard.handle⟩
    · exact ⟨c, (hh.other j hne).trans hc, rfl⟩
  have hclosed := h.closed_note hh
  have hmem : ∀ {s}, s ∈ m.closed → s ∈ (m.note new).closed := mem_append_left _
  refine ⟨fun idx k hmaps => ?_, fun k c' hc' => ?_, fun k k' c c' hc hc' heq => ?_, ?_,
    fun s hs => ?_, fun s hs => ?_⟩
  · rw [maps, hh.handleMap] at hmaps
    obtain ⟨c, hc, rfl⟩ := h.linked idx k hmaps
    exact hforth hc
  · obtain ⟨c, hc, hother, hself⟩ := hback hc'
    obtain ⟨s, hs, hlt, hiff⟩ := h.known k c hc
    refine ⟨s, hs, hlt, ?_⟩
    rcases eq_or_ne k key with rfl | hne
    · rw [hself rfl, closed_note_self hh hc hs, mem_append, hiff]
      cases lost <;> cases c.closeEventEmitted <;> simp
    · rw [hother hne]
      rcases hclosed with heq | ⟨d, s', hd, hs', -, -, heq⟩
      · rw [heq]
        exact hiff
      · rw [heq, mem_append, mem_singleton, ← hiff]
        refine or_iff_left fun hss => hne ?_
        exact h.distinct k key c d hc hd (hs.trans (hss ▸ hs'.symm))
  · obtain ⟨d, hd, -⟩ := hback hc
    obtain ⟨d', hd', -⟩ := hback hc'
    exact h.distinct k k' d d' hd hd' heq
  · rcases hclosed with heq | ⟨d, s', -, -, -, hnot, heq⟩
    · rw [heq]
      exact h.once
    · rw [heq]
      exact nodup_append.mpr ⟨h.once, nodup_singleton _, fun a ha b hb hab =>
        hnot (mem_singleton.mp hb ▸ hab ▸ ha)⟩
  · rcases hclosed with heq | ⟨d, s', -, -, hlt, -, heq⟩
    · exact h.bound s (heq ▸ hs)
    · rw [heq, mem_append, mem_singleton] at hs
      rcases hs with hs | rfl
      · exact h.bound s hs
      · exact hlt
  · rcases h.ended s hs with hs | ⟨k, c, hc, hwho⟩
    · exact .inl (hmem hs)
    · obtain ⟨c', hc', -⟩ := hforth hc
      exact .inr ⟨k, c', hc', hwho⟩

/-- **A connection is removed** whose end is known. -/
theorem Inv.remove {c : QuicConnection} (hc : e.connections.get? key = some c)
    (hclosed : c.closeEventEmitted = true) : Inv m (e.removeConnection key) := by
  have hother : ∀ {j d}, (e.removeConnection key).connections.get? j = some d →
      j ≠ key ∧ e.connections.get? j = some d := by
    intro j d hd
    rw [get?_removeConnection] at hd
    split at hd
    · cases hd
    · exact ⟨‹_›, hd⟩
  refine ⟨fun idx k hmaps => ?_, fun k d hd => h.known k d (hother hd).2,
    fun k k' d d' hd hd' => h.distinct k k' d d' (hother hd).2 (hother hd').2, h.once, h.bound,
    fun s hs => ?_⟩
  · have hmaps' : e.maps idx k ∧ idx ≠ c.handle := by
      rw [maps, removeConnection, hc] at hmaps
      dsimp only at hmaps
      split at hmaps
      · rw [getElem?_set] at hmaps
        split at hmaps
        · cases hmaps
        · exact ⟨hmaps, Ne.symm ‹_›⟩
      · refine ⟨hmaps, ?_⟩
        rintro rfl
        rw [getElem?_eq_none (Nat.not_lt.mp ‹_›)] at hmaps
        cases hmaps
    obtain ⟨d, hd, hhandle⟩ := h.linked idx k hmaps'.1
    have hne : k ≠ key := by
      rintro rfl
      rw [Option.some.inj (hd.symm.trans hc)] at hhandle
      exact hmaps'.2 hhandle.symm
    exact ⟨d, by rw [get?_removeConnection, if_neg hne, hd], hhandle⟩
  · rcases h.ended s hs with hs | ⟨k, d, hd, hwho⟩
    · exact .inl hs
    · rcases eq_or_ne k key with rfl | hne
      · obtain rfl := Option.some_inj.mp (hd.symm.trans hc)
        obtain ⟨s', hs', -, hiff⟩ := h.known k d hd
        cases (hwho.symm.trans hs')
        exact .inl (hiff.mpr hclosed)
      · exact .inr ⟨k, d, by rw [get?_removeConnection, if_neg hne, hd], hwho⟩

/-- **A connection is stored.** -/
theorem Inv.insert (handle remote : Nat) (has0rtt outbound : Bool) :
    Inv (m.born e.connections.nextKey) (e.insertConnection handle remote has0rtt outbound) := by
  have hnone := e.connections.get?_nextKey
  have hget : ∀ j, (e.insertConnection handle remote has0rtt outbound).connections.get? j =
      if j = e.connections.nextKey then some ⟨handle, [], false, outbound, has0rtt, remote, false⟩
      else e.connections.get? j := Slab.get?_insert _ _
  have hfresh : ∀ {j c}, e.connections.get? j = some c → j ≠ e.connections.nextKey := by
    rintro j c hc rfl
    cases hc.symm.trans hnone
  have hwho : ∀ {j}, j ≠ e.connections.nextKey → (m.born e.connections.nextKey).who j = m.who j :=
    fun hj => Function.update_of_ne hj _ _
  have hself : (m.born e.connections.nextKey).who e.connections.nextKey = some m.count :=
    Function.update_self _ _ _
  -- a connection that was there has a smaller number
  have hlt : ∀ {j c}, e.connections.get? j = some c →
      (m.born e.connections.nextKey).who j ≠ some m.count := by
    intro j c hc heq
    obtain ⟨s, hs, hslt, -⟩ := h.known j c hc
    rw [hwho (hfresh hc), hs, Option.some_inj] at heq
    omega
  refine ⟨fun idx k hmaps => ?_, fun k c hc => ?_, fun k k' c c' hc hc' heq => ?_, h.once,
    fun s hs => Nat.lt_succ_of_lt (h.bound s hs), fun s hs => ?_⟩
  · rw [maps, insertConnection, getElem?_setHandle] at hmaps
    split at hmaps
    · rename_i hidx
      rw [← Option.some.inj hmaps, hget, if_pos rfl, hidx]
      exact ⟨_, rfl, rfl⟩
    · obtain ⟨c, hc, hhandle⟩ := h.linked idx k hmaps
      exact ⟨c, by rw [hget, if_neg (hfresh hc), hc], hhandle⟩
  · rw [hget] at hc
    split at hc
    · rename_i hk
      rw [hk, ← Option.some.inj hc]
      refine ⟨m.count, hself, Nat.lt_succ_self _, ?_⟩
      exact ⟨fun hmem => absurd (h.bound _ hmem) (Nat.lt_irrefl _), nofun⟩
    · obtain ⟨s, hs, hslt, hiff⟩ := h.known k c hc
      exact ⟨s, (hwho ‹_›).trans hs, Nat.lt_succ_of_lt hslt, hiff⟩
  · rw [hget] at hc hc'
    split at hc <;> split at hc'
    · rename_i hk hk'
      exact hk.trans hk'.symm
    · rename_i hk hk'
      rw [hk, hself] at heq
      exact absurd heq.symm (hlt hc')
    · rename_i hk hk'
      rw [hk', hself] at heq
      exact absurd heq (hlt hc)
    · rename_i hk hk'
      rw [hwho hk, hwho hk'] at heq
      exact h.distinct k k' c c' hc hc' heq
  · rcases Nat.lt_succ_iff_lt_or_eq.mp hs with hs | rfl
    · rcases h.ended s hs with hs | ⟨k, c, hc, hk⟩
      · exact .inl hs
      · refine .inr ⟨k, c, by rw [hget, if_neg (hfresh hc), hc], ?_⟩
        rw [hwho (hfresh hc), hk]
    · exact .inr ⟨e.connections.nextKey, _, by rw [hget, if_pos rfl], hself⟩

/-- Only the connections and the map matter. -/
theorem Inv.of_same (hconnections : e'.connections = e.connections)
    (hmap : e'.handleMap = e.handleMap) : Inv m e' := by
  refine ⟨fun idx k hmaps => ?_, ?_, ?_, h.once, h.bound, ?_⟩
  · rw [maps, hmap] at hmaps
    rw [hconnections]
    exact h.linked idx k hmaps
  all_goals rw [hconnections]
  exacts [h.known, h.distinct, h.ended]

/-- **A chain of changes.** -/
theorem Inv.changes {H : Prop} (hH : H) (hc : Changes H e e' new) : Inv (m.note new) e' := by
  induction hc with
  | nil =>
    rw [Memory.note_nil]
    exact h
  | hears _ hh ih =>
    rw [Memory.note_append]
    exact ih.hears hh
  | remove _ hknown ih =>
    obtain ⟨c, hc, hclosed⟩ := hknown hH
    exact ih.remove hc hclosed

/-- **What every call preserves.** -/
theorem Inv.step {i : Input} (hh : e.Honest i) : Inv (record m e i) (e.step i) := by
  obtain ⟨e₀, hbegins, hchanges⟩ := moves e i
  rw [record]
  cases hins : e.inserts i with
  | none =>
    rw [hins] at hbegins
    cases hbegins with
    | same hconnections hmap => exact (h.of_same hconnections hmap).changes hh hchanges
  | some key =>
    rw [hins] at hbegins
    cases hbegins with
    | insert e₀ handle remote has0rtt outbound hconnections hmap =>
      have hinserted := (h.of_same hconnections hmap).insert handle remote has0rtt outbound
      rw [hconnections] at hinserted
      exact hinserted.changes hh hchanges

end

/-! ## What becomes of a connection that is polled -/

/-- What has become of a connection that was polled. -/
structure Outcome (key : Nat) (a : PollAnswers) (e : QuicEndpoint) : Prop where
  removed : e.connections.get? key = none ↔ a.drained = true ∧ a.lost = false
  closed : a.lost = true → ∀ c, e.connections.get? key = some c → c.closeEventEmitted = true

/-- **When polling removes a connection.** -/
theorem outcome_pollConnection (a : PollAnswers) (hkey : e.connections.contains key = true) :
    Outcome key a (e.pollConnection key a) := by
  obtain ⟨e₁, new, hhears, heq⟩ := polled e key a
  obtain ⟨c, hc⟩ := Slab.contains_iff.mp hkey
  obtain ⟨c', hc', hheard⟩ := hhears.self c hc
  rw [heq]
  cases hlost : a.lost with
  | true =>
    rw [Bool.not_true, Bool.and_false, if_neg Bool.false_ne_true]
    refine ⟨⟨fun hnone => ?_, fun h => ?_⟩, fun _ d hd => ?_⟩
    · cases hc'.symm.trans hnone
    · cases hlost.symm.trans h.2
    · cases (hc'.symm.trans hd)
      rw [hheard.closeEventEmitted, hlost, Bool.true_or]
  | false =>
    rw [Bool.not_false, Bool.and_true]
    refine ⟨?_, fun h => by cases hlost.symm.trans h⟩
    cases hdrained : a.drained with
    | true => simp [hlost]
    | false => simp [hc']

theorem Outcome.congr {a : PollAnswers} (h : Outcome key a e)
    (hget : e'.connections.get? key = e.connections.get? key) : Outcome key a e' :=
  ⟨hget ▸ h.removed, hget ▸ h.closed⟩

variable {expired : Nat → Option TimerAnswers}

theorem outcome_tick {a : TimerAnswers} (hkey : e.connections.contains key = true)
    (ha : expired key = some a) : Outcome key a.poll (tick expired e key) := by
  rw [tick, if_pos hkey, ha]
  exact outcome_pollConnection a.poll ((hears_timeout e key a.transmits).contains.trans hkey)

/-- Each connection has its own turn. -/
theorem outcome_ticks {a : TimerAnswers} {keys : List Nat} (hnodup : keys.Nodup)
    (hmem : key ∈ keys) (hkey : e.connections.contains key = true) (ha : expired key = some a) :
    Outcome key a.poll (keys.foldl (tick expired) e) := by
  induction keys generalizing e with
  | nil => exact absurd hmem not_mem_nil
  | cons k keys ih =>
    rw [nodup_cons] at hnodup
    rw [foldl_cons]
    rcases eq_or_ne key k with rfl | hne
    · exact (outcome_tick hkey ha).congr (get?_ticks_of_notMem hnodup.1)
    · refine ih hnodup.2 ((mem_cons.mp hmem).resolve_left hne) ?_
      rw [Slab.contains, get?_tick_of_ne hne]
      exact hkey

end

/-- The run of an endpoint, with what an observer knows. -/
def watch (clientConfig : Bool) (capacity : Nat) (inputs : List Input) : Memory × QuicEndpoint :=
  Machine.run (Machine.withHistory step record) (.start, new clientConfig capacity) inputs

/-- Quinn keeps its promise in every call of a run. -/
def HonestRun (clientConfig : Bool) (capacity : Nat) (inputs : List Input) : Prop :=
  ∀ x ∈ Machine.trace step (new clientConfig capacity) inputs, x.1.Honest x.2

theorem inv_watch {clientConfig : Bool} {capacity : Nat} {inputs : List Input}
    (h : HonestRun clientConfig capacity inputs) :
    Inv (watch clientConfig capacity inputs).1 (watch clientConfig capacity inputs).2 := by
  have hstart : Inv .start (new clientConfig capacity) :=
    ⟨nofun, nofun, nofun, nodup_nil, nofun, nofun⟩
  rw [watch]
  refine Machine.run_invariant (P := fun p : Memory × QuicEndpoint => Inv p.1 p.2) hstart ?_
  rintro ⟨⟨m, e⟩, i⟩ hx hinv
  exact hinv.step (h _ (Machine.mem_trace_of_withHistory hx))

variable {m : Memory} {e : QuicEndpoint} {i : Input}

/-- What is closed stays closed. -/
theorem mem_closed_record (i : Input) {s : Nat}
    (hs : s ∈ m.closed) : s ∈ (record m e i).closed := by
  rw [record]
  split <;> exact mem_append_left _ hs

/-- Every poll of a call comes to its outcome, and the observer knows the connection. -/
theorem Inv.outcome (h : Inv m e) {x : Nat × PollAnswers} (hx : x ∈ e.polls i) :
    Outcome x.1 x.2 (e.step i) ∧ ∃ s, (record m e i).who x.1 = some s ∧
      ∀ c, e.connections.get? x.1 = some c → m.who x.1 = some s := by
  cases i with
  | handleDatagram d =>
    obtain ⟨peer, bytes, event⟩ := d
    rcases event with _ | ⟨handle, a⟩ | ⟨written, result⟩ | t
    · exact absurd hx not_mem_nil
    · obtain ⟨k, hk, rfl⟩ := mem_map.mp hx
      have hkey : e.handleMap[handle]?.join = some k := Option.mem_toList.mp hk
      obtain ⟨c, hc, -⟩ := h.linked handle k hkey
      obtain ⟨s, hs, -⟩ := h.known k c hc
      refine ⟨?_, s, hs, fun _ _ => hs⟩
      rw [QuicEndpoint.step, handleDatagram]
      dsimp only
      rw [hkey]
      refine outcome_pollConnection a ?_
      rw [(hears_call k _ _).contains]
      exact Slab.contains_iff.mpr ⟨c, hc⟩
    · rcases result with ⟨handle, remote, has0rtt, transmits, a⟩ | t
      · obtain rfl := mem_singleton.mp hx
        refine ⟨?_, m.count, Function.update_self _ _ _, fun c hc => ?_⟩
        · refine outcome_pollConnection a ?_
          rw [(hears_drainTransmits e.connections.nextKey _ transmits).contains]
          exact Slab.contains_iff.mpr ⟨_, Slab.get?_insert_self _ _⟩
        · cases hc.symm.trans e.connections.get?_nextKey
      · exact absurd hx not_mem_nil
    · exact absurd hx not_mem_nil
  | driveTimers expired =>
    obtain ⟨k, hk, hx⟩ := mem_filterMap.mp hx
    obtain ⟨a, ha, rfl⟩ := Option.map_eq_some_iff.mp hx
    obtain ⟨c, hc⟩ := Slab.contains_iff.mp (Slab.mem_keys_iff.mp hk)
    obtain ⟨s, hs, -⟩ := h.known k c hc
    refine ⟨?_, s, hs, fun _ _ => hs⟩
    exact outcome_ticks e.connections.nodup_keys hk (Slab.mem_keys_iff.mp hk) ha
  | _ => exact absurd hx not_mem_nil

/-- **What becomes of a connection that ends.**  In every run, `ConnectionClosed` is emitted at most
once for a connection, and exactly once unless it is in the slab and has not ended.  Where a call
polls a connection that is drained, the event has been emitted for it, and it is gone from the slab
and from the handle map if and only if it was not reported lost in this poll. -/
theorem drained_removed_iff {clientConfig : Bool} {capacity : Nat} {inputs : List Input}
    (hhonest : HonestRun clientConfig capacity inputs) {m : Memory} {e : QuicEndpoint}
    (hrun : watch clientConfig capacity inputs = (m, e)) :
    (∀ s, m.closed.count s ≤ 1) ∧
      (∀ s < m.count, m.closed.count s = 1 ∨ ∃ key c, e.connections.get? key = some c ∧
        m.who key = some s ∧ c.closeEventEmitted = false) ∧
      ∀ i, e.Honest i → ∀ x ∈ e.polls i, x.2.drained = true →
        (∃ s, (record m e i).who x.1 = some s ∧ (record m e i).closed.count s = 1) ∧
        (((e.step i).connections.get? x.1 = none ∧ ∀ idx, ¬(e.step i).maps idx x.1) ↔
          x.2.lost = false) := by
  have hinv : Inv m e := by
    have := inv_watch hhonest
    rw [hrun] at this
    exact this
  refine ⟨fun s => nodup_iff_count_le_one.mp hinv.once s, fun s hs => ?_,
    fun i hi x hx hdrained => ?_⟩
  · rcases hinv.ended s hs with hclosed | ⟨key, c, hc, hwho⟩
    · exact .inl (count_eq_one_of_mem hinv.once hclosed)
    · obtain ⟨s', hs', -, hiff⟩ := hinv.known key c hc
      cases (hwho.symm.trans hs')
      cases hemitted : c.closeEventEmitted with
      | true => exact .inl (count_eq_one_of_mem hinv.once (hiff.mpr hemitted))
      | false => exact .inr ⟨key, c, hc, hwho, hemitted⟩
  · have hnext := hinv.step hi
    obtain ⟨hout, s, hs, hsame⟩ := hinv.outcome hx
    constructor
    · refine ⟨s, hs, count_eq_one_of_mem hnext.once ?_⟩
      rcases hi x hx hdrained with hlost | ⟨c, hc, hemitted⟩
      · -- it is still there, and its end is known
        cases hc : (e.step i).connections.get? x.1 with
        | none => cases hlost.symm.trans (hout.removed.mp hc).2
        | some c =>
          obtain ⟨s', hs', -, hiff⟩ := hnext.known x.1 c hc
          cases (hs.symm.trans hs')
          exact hiff.mpr (hout.closed hlost c hc)
      · obtain ⟨s', hs', -, hiff⟩ := hinv.known x.1 c hc
        cases ((hsame c hc).symm.trans hs')
        exact mem_closed_record i (hiff.mpr hemitted)
    · constructor
      · rintro ⟨hnone, -⟩
        exact (hout.removed.mp hnone).2
      · intro hlost
        have hnone := hout.removed.mpr ⟨hdrained, hlost⟩
        refine ⟨hnone, fun idx hmaps => ?_⟩
        obtain ⟨c, hc, -⟩ := hnext.linked idx x.1 hmaps
        cases hc.symm.trans hnone

/-- The timer of connection 0 expires, and quinn reports these events and that it is drained. -/
def drained (events : List Event) : Input :=
  .driveTimers fun key => if key = 0 then some ⟨[], [], [], events, [], 1, true⟩ else none

theorem honest_of_polls_nil (h : e.polls i = []) : e.Honest i :=
  fun _ hx => absurd (h ▸ hx) not_mem_nil

/-- A client that closes its connection, which is drained later. -/
def closing : List Input := [.connect (.ok (0, 1, false)) [], .close 0 0 [] []]

theorem honestRun_closing : HonestRun true 8 closing := by
  rintro x (_ | ⟨_, _ | ⟨_, hx⟩⟩)
  · exact honest_of_polls_nil rfl
  · exact honest_of_polls_nil rfl
  · cases hx

theorem drained_removed_iff_closing :
    ((watch true 8 closing).2.step (drained [])).connections.get? 0 = none := by
  have hpolls : (watch true 8 closing).2.polls (drained []) = [(0, ⟨[], [], [], [], 1, true⟩)] :=
    rfl
  have hhonest : (watch true 8 closing).2.Honest (drained []) := by
    intro x hx _
    rw [hpolls] at hx
    obtain rfl := mem_singleton.mp hx
    exact .inr ⟨_, rfl, rfl⟩
  have h := (drained_removed_iff honestRun_closing rfl).2.2 (drained []) hhonest
    (0, ⟨[], [], [], [], 1, true⟩) (hpolls ▸ mem_singleton_self _) rfl
  exact (h.2.mpr rfl).1

/-- A connection times out: quinn reports that it is lost, and it is drained.  It stays in the slab
and in the handle map. -/
theorem timed_out_connection_stays :
    let e := (new true 8).step (.connect (.ok (0, 1, false)) [])
    let i := drained [.connectionLost .timedOut]
    e.Honest i ∧ (0, ⟨[], [], [.connectionLost .timedOut], [], 1, true⟩) ∈ e.polls i ∧
      closes (e.step i).events = [0] ∧ ((e.step i).connections.get? 0).isSome = true ∧
      (e.step i).maps 0 0 := by
  intro e i
  have hpolls : e.polls i = [(0, ⟨[], [], [.connectionLost .timedOut], [], 1, true⟩)] := rfl
  refine ⟨fun _ hx _ => .inl ?_, hpolls ▸ mem_singleton_self _, rfl, rfl, rfl⟩
  rw [hpolls] at hx
  obtain rfl := mem_singleton.mp hx
  rfl

end QuicEndpoint
end Ringline.Quic
