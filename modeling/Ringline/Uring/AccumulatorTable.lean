import Ringline.Base.Run
import Ringline.Uring.RecvAccumulator

/-!
# The table of receive accumulators

`AccumulatorTable` has an accumulator for each connection, and to its connection an accumulator is a
queue of bytes: what arrives goes behind, and what is consumed, taken or put back is in front
(`Queue`).

The function to be careful with is `consume`.  It looks at one of the two parts only, so with data
behind a frozen part it stops where the frozen part ends (`consume_stops_at_frozen`).  The callers ask
for `data` first, which merges the parts.
-/

set_option autoImplicit false

namespace Ringline.Uring

open Machine

inductive AccumulatorCall where
  | append (data : Bytes)
  | prepend (data : Bytes)
  | consume (n : Nat)
  | takeFrozen
  | putBack (data : Bytes)
  | reserve (additional : Nat)
  | data
  | reset

/-- An accumulator of the table, with the size it was told to expect. -/
structure Slot where
  acc : RecvAccumulator
  reserveTarget : Nat

namespace Slot

def newWithMax (maxSize : Nat) : Slot := ⟨.newWithMax maxSize, 0⟩

variable (s : Slot)

def consume (n : Nat) : Slot :=
  let acc := s.acc.consume n
  ⟨acc, if n ≠ 0 ∧ acc.totalLen = 0 then 0 else s.reserveTarget⟩

def reserve (additional : Nat) : Slot :=
  { s with reserveTarget := max s.reserveTarget (min (s.acc.totalLen + additional) s.acc.maxSize) }

def reset : Slot := newWithMax s.acc.maxSize

def step : AccumulatorCall → Slot
  | .append data => { s with acc := (s.acc.append data).1 }
  | .prepend data => { s with acc := s.acc.prepend data }
  | .consume n => s.consume n
  | .takeFrozen => { s with acc := s.acc.takeFrozen.1 }
  | .putBack data => { s with acc := s.acc.putBack data }
  | .reserve additional => s.reserve additional
  | .data => { s with acc := s.acc.data.1 }
  | .reset => s.reset

end Slot

/-! ## The queue -/

/-- A queue of bytes, and what was taken from it last and not put back. -/
structure Queue where
  bytes : Bytes := []
  taken : Option Bytes := none

namespace Queue

def step (maxSize : Nat) (q : Queue) : AccumulatorCall → Queue
  | .append data =>
    if maxSize < q.bytes.length + data.length then q else { q with bytes := q.bytes ++ data }
  | .prepend data => { q with bytes := data ++ q.bytes }
  | .consume n => { q with bytes := q.bytes.drop n }
  | .takeFrozen => ⟨[], some q.bytes⟩
  | .putBack data => ⟨data ++ q.bytes, none⟩
  | .reserve _ => q
  | .data => q
  | .reset => { q with bytes := [] }

/-- What is put back is the end of what was taken, and a call that consumes stays within the frozen
part, unless there is nothing behind it. -/
def Lawful (q : Queue) (s : Slot) : AccumulatorCall → Prop
  | .consume n => s.acc.buf = [] ∨ ∀ f, s.acc.frozen = some f → n ≤ f.length
  | .putBack data => ∃ bytes, q.taken = some bytes ∧ data <:+ bytes
  | _ => True

/-- All calls are lawful where they are made. -/
def LawfulCalls (maxSize : Nat) : Queue → Slot → List AccumulatorCall → Prop
  | _, _, [] => True
  | q, s, call :: rest => q.Lawful s call ∧ LawfulCalls maxSize (q.step maxSize call) (s.step call) rest

/-- The accumulator holds the bytes of the queue.  While something is taken there is no frozen part,
so that putting back does not overwrite one. -/
structure Sound (maxSize : Nat) (q : Queue) (s : Slot) : Prop where
  contents : s.acc.contents = q.bytes
  maxSize : s.acc.maxSize = maxSize
  taken : q.taken.isSome → s.acc.frozen = none

variable {maxSize : Nat} {q : Queue} {s : Slot}

theorem Sound.append_eq_false (h : Sound maxSize q s) (data : Bytes) :
    (s.acc.append data).2 = false ↔ maxSize < q.bytes.length + data.length := by
  rw [RecvAccumulator.append, s.acc.totalLen_eq, h.contents, h.maxSize]
  split <;> simp_all

theorem Sound.step (h : Sound maxSize q s) {call : AccumulatorCall} (hcall : q.Lawful s call) :
    Sound maxSize (q.step maxSize call) (s.step call) := by
  obtain ⟨hcontents, hmax, htaken⟩ := h
  cases call with
  | append data =>
    rw [Queue.step, Slot.step, RecvAccumulator.append, s.acc.totalLen_eq, hcontents, hmax]
    split
    · exact ⟨hcontents, hmax, htaken⟩
    · exact ⟨by simp [← hcontents, RecvAccumulator.contents], rfl, htaken⟩
  | prepend data =>
    exact ⟨by simp [Slot.step, Queue.step, hcontents], by simpa [Slot.step] using hmax,
      fun ht => s.acc.prepend_frozen data (htaken ht)⟩
  | consume n =>
    refine ⟨?_, by simpa [Slot.step, Slot.consume] using hmax, fun ht => ?_⟩
    · exact (s.acc.contents_consume hcall).trans (by rw [hcontents, Queue.step])
    · simp [Slot.step, Slot.consume, RecvAccumulator.consume, htaken ht]
  | takeFrozen =>
    exact ⟨by simp [Slot.step, Queue.step], by simpa [Slot.step] using hmax,
      fun _ => s.acc.takeFrozen_spec.2.2.1⟩
  | putBack data =>
    obtain ⟨bytes, hbytes, -⟩ := hcall
    refine ⟨?_, by simpa [Slot.step] using hmax, fun ht => by cases ht⟩
    exact (s.acc.contents_putBack data (htaken (by simp [hbytes]))).trans (by rw [hcontents, Queue.step])
  | reserve additional => exact ⟨hcontents, hmax, htaken⟩
  | data =>
    refine ⟨by simpa [Slot.step, Queue.step] using hcontents, by simpa [Slot.step] using hmax, ?_⟩
    intro ht
    simp [Slot.step, RecvAccumulator.data, htaken ht]
  | reset => exact ⟨rfl, hmax, fun _ => rfl⟩

theorem Sound.run (h : Sound maxSize q s) {calls : List AccumulatorCall}
    (hcalls : LawfulCalls maxSize q s calls) :
    Sound maxSize (run (Queue.step maxSize) q calls) (run Slot.step s calls) := by
  induction calls generalizing q s with
  | nil => exact h
  | cons call rest ih => exact ih (h.step hcalls.1) hcalls.2

end Queue

/-! ## The table -/

abbrev AccumulatorTable := List Slot

namespace AccumulatorTable

def newWithMax (count maxSize : Nat) : AccumulatorTable := List.replicate count (.newWithMax maxSize)

/-- A call is made with the index of a connection. -/
def step (t : AccumulatorTable) (call : Nat × AccumulatorCall) : AccumulatorTable :=
  t.modify call.1 (·.step call.2)

/-- The calls for one connection. -/
def callsFor (i : Nat) (calls : List (Nat × AccumulatorCall)) : List AccumulatorCall :=
  (calls.filter (·.1 = i)).map (·.2)

/-- An accumulator is not affected by calls for other connections. -/
theorem step_of_ne (t : AccumulatorTable) {i : Nat} {call : Nat × AccumulatorCall} (h : call.1 ≠ i) :
    (t.step call)[i]? = t[i]? := by
  simp [step, h]

theorem run_getElem? (t : AccumulatorTable) (calls : List (Nat × AccumulatorCall)) (i : Nat) :
    (run step t calls)[i]? = t[i]?.map (run Slot.step · (callsFor i calls)) := by
  induction calls generalizing t with
  | nil => simp [run, callsFor]
  | cons call rest ih =>
    rw [run_cons, ih, callsFor]
    by_cases hi : call.1 = i
    · simp [step, hi, Function.comp_def, callsFor]
    · simp [t.step_of_ne hi, hi, callsFor]

/-- **An accumulator is a queue of bytes.**  What it shows, takes and says about being empty is
what the queue has, an append is refused exactly if it would exceed the maximum, and calls for other
connections make no difference. -/
theorem accumulators_are_queues {count maxSize i : Nat} (hi : i < count)
    (calls : List (Nat × AccumulatorCall))
    (hcalls : Queue.LawfulCalls maxSize {} (.newWithMax maxSize) (callsFor i calls)) :
    let t := run step (newWithMax count maxSize) calls
    let bytes := (run (Queue.step maxSize) {} (callsFor i calls)).bytes
    ∃ s, t[i]? = some s ∧ s.acc.data.2 = bytes ∧ s.acc.takeFrozen.2 = bytes ∧
      (s.acc.isEmpty = true ↔ bytes = []) ∧
      (∀ data, (s.acc.append data).2 = false ↔ maxSize < bytes.length + data.length) ∧
      (∀ data, (s.acc.append data).2 = false → (s.acc.append data).1 = s.acc) ∧
      ∀ j call, j ≠ i → (t.step (j, call))[i]? = some s := by
  intro t bytes
  have hsound : Queue.Sound maxSize {} (.newWithMax maxSize) := ⟨rfl, rfl, nofun⟩
  have hrun := hsound.run hcalls
  have ht : t[i]? = some (run Slot.step (.newWithMax maxSize) (callsFor i calls)) := by
    simp [t, run_getElem?, newWithMax, hi]
  refine ⟨_, ht, by simp [hrun.contents, bytes], by simp [hrun.contents, bytes], ?_,
    hrun.append_eq_false, fun data => ?_, fun j call hj => (t.step_of_ne hj).trans ht⟩
  · rw [RecvAccumulator.isEmpty_iff, hrun.contents]
  · rw [RecvAccumulator.append]
    split <;> simp

/-- A remainder is put back, more arrives, and all of it is consumed. -/
theorem accumulators_are_queues_two :
    let calls := [(0, .append [1, 2]), (1, .append [7]), (0, .takeFrozen), (0, .putBack [2]),
      (0, .append [3]), (0, .data), (0, .consume 2), (0, .prepend [4])]
    ∃ s, (run step (newWithMax 2 16) calls)[0]? = some s ∧ s.acc.data.2 = [4] := by
  intro calls
  have hcalls : Queue.LawfulCalls 16 {} (.newWithMax 16) (callsFor 0 calls) := by
    refine ⟨trivial, trivial, ⟨_, rfl, [1], rfl⟩, trivial, trivial, .inr nofun, trivial, trivial⟩
  obtain ⟨s, hs, hdata, -⟩ := accumulators_are_queues (by decide : 0 < 2) calls hcalls
  exact ⟨s, hs, hdata⟩

/-- Of the two bytes there are, one is frozen and the other arrived behind it.  Without a call of
`data`, `consume` takes the first only. -/
theorem consume_stops_at_frozen :
    let calls := [.append [1, 2], .takeFrozen, .putBack [2], .append [3], .consume 2]
    (run Slot.step (.newWithMax 16) calls).acc.data.2 = [3] ∧
      (run (Queue.step 16) {} calls).bytes = [] := by
  decide

end AccumulatorTable
end Ringline.Uring
