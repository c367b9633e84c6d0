import Mathlib.Algebra.Group.Nat.Defs
import Ringline.Base.Run
import Ringline.Base.SwapRemove
import Mathlib.Data.List.Pairwise
import Mathlib.Data.List.Nodup
import Mathlib.Data.List.Range
import Mathlib.Logic.Function.Basic

/-!
# The admission queue for bounded sends

`ringline/src/runtime/send_capacity.rs`: a send that waits for slots of the copy pool stands in one
queue for the worker, and only its head may reserve slots.  What was admitted is kept until its
result has been taken by the future that asked for it.  The queue does not wake tasks; it returns
the numbers of those that its caller is to wake.

The code looks for an entry and works at the position it finds.  As no two entries have the same
number, a call treats every entry by itself (`step_shape`), in one of the ways of the life cycle
that stands in the header of the source file: `keep`, `move` and `settle` say what becomes of a
waiting entry and of a submitted one.  All that is known about runs comes from there.

What `Correct` lists holds in every state that is reached (`queue_correct`).  The future of a send
may be dropped while the driver still has the send, and then a mark remains until the driver
reports or the connection is torn down (`dropped_send_leaves_mark`).
-/

set_option autoImplicit false

namespace Ringline.Runtime.SendCapacity

open List

/-- The kinds of `io::Error` that the runtime gives to the queue. -/
inductive ErrorKind where
  | connectionAborted | brokenPipe | other
deriving DecidableEq

/-- `io::Error`. -/
structure IoError where
  kind : ErrorKind
  message : String
deriving DecidableEq

/-- `io::Result<u32>`. -/
abbrev IoResult := Except IoError Nat

/-- A bounded send that has not been admitted yet. -/
structure Waiter where
  id : Nat
  connIndex : Nat
  generation : Nat
  requiredSlots : Nat
  taskId : Nat
deriving DecidableEq

/-- Where an admitted operation stands. -/
inductive Completion where
  | inFlight
  | done (result : IoResult)
  | aborted (err : IoError)
  | abandoned

/-- The result that `take_result` gives for an entry. -/
def Completion.result : Completion → Option IoResult
  | .done result => some result
  | .aborted err => some (.error err)
  | .inFlight | .abandoned => none

/-- A bounded send that has been admitted and submitted. -/
structure Submitted where
  id : Nat
  connIndex : Nat
  taskId : Nat
  state : Completion

structure SendCapacityQueue where
  waiting : List Waiter
  submitted : List Submitted
  nextId : Nat

/-- `STANDALONE_BIT`. -/
def standaloneBit : Nat := 2 ^ 31

/-- `connection_aborted`. -/
def connectionAborted : IoError := ⟨.connectionAborted, "connection closed"⟩

/-- `dead_owner` in `remove_connection`. -/
def deadOwner (connIndex wConn taskId : Nat) : Bool :=
  wConn = connIndex || (taskId &&& standaloneBit = 0 && taskId = connIndex)

namespace SendCapacityQueue

def new : SendCapacityQueue := ⟨[], [], 0⟩

variable (q : SendCapacityQueue)

/-- `enqueue`.  There is no answer if the numbers are exhausted and the worker panics. -/
def enqueue (connIndex generation requiredSlots taskId : Nat) : Option (SendCapacityQueue × Nat) :=
  if q.nextId + 1 < 2 ^ 64 then
    let w : Waiter := ⟨q.nextId, connIndex, generation, requiredSlots, taskId⟩
    some ({ q with nextId := q.nextId + 1, waiting := q.waiting ++ [w] }, q.nextId)
  else none

def setOwner (id taskId : Nat) : SendCapacityQueue :=
  match q.waiting.findIdx? (·.id = id) with
  | some pos => { q with waiting := q.waiting.modify pos fun w => { w with taskId } }
  | none =>
    match q.submitted.findIdx? (·.id = id) with
    | some pos => { q with submitted := q.submitted.modify pos fun s => { s with taskId } }
    | none => q

def turn (id freeSlots : Nat) : Bool :=
  q.waiting.head?.any fun head => head.id = id ∧ head.requiredSlots ≤ freeSlots

/-- The task of the head. -/
def headTask : Option Nat := q.waiting.head?.map (·.taskId)

def markSubmitted (id : Nat) : SendCapacityQueue × Option Nat :=
  match q.waiting.findIdx? (·.id = id) with
  | none => (q, none)
  | some pos =>
    match q.waiting[pos]? with
    | none => (q, none)
    | some w =>
      let q' := { q with
        waiting := q.waiting.eraseIdx pos
        submitted := q.submitted ++ [⟨w.id, w.connIndex, w.taskId, .inFlight⟩] }
      (q', if pos = 0 then q'.headTask else none)

def complete (id : Nat) (result : IoResult) : SendCapacityQueue × Option Nat :=
  match q.submitted.findIdx? (·.id = id) with
  | none => (q, none)
  | some pos =>
    match q.submitted[pos]? with
    | none => (q, none)
    | some s =>
      match s.state with
      | .inFlight | .aborted _ =>
        ({ q with submitted := q.submitted.modify pos fun s => { s with state := .done result } },
          some s.taskId)
      | .abandoned => ({ q with submitted := swapRemove q.submitted pos }, none)
      | .done _ => (q, none)

def takeResult (id : Nat) : SendCapacityQueue × Option IoResult :=
  match q.submitted.findIdx? fun s => s.id = id && s.state.result.isSome with
  | none => (q, none)
  | some pos =>
    ({ q with submitted := swapRemove q.submitted pos }, q.submitted[pos]?.bind (·.state.result))

def cancel (id : Nat) : SendCapacityQueue × Option Nat :=
  match q.waiting.findIdx? (·.id = id) with
  | some pos =>
    let q' := { q with waiting := q.waiting.eraseIdx pos }
    (q', if pos = 0 then q'.headTask else none)
  | none =>
    match q.submitted.findIdx? (·.id = id) with
    | none => (q, none)
    | some pos =>
      match q.submitted[pos]? with
      | none => (q, none)
      | some s =>
        match s.state with
        | .inFlight =>
          ({ q with submitted := q.submitted.modify pos fun s => { s with state := .abandoned } },
            none)
        | .done _ | .aborted _ => ({ q with submitted := swapRemove q.submitted pos }, none)
        | .abandoned => (q, none)

def headReady (freeSlots : Nat) : Option Nat :=
  (q.waiting.head?.filter fun head => head.requiredSlots ≤ freeSlots).map (·.taskId)

/-- The new head is woken if the old one was among those that left. -/
def promote (q q' : SendCapacityQueue) (left : Waiter → Bool) : List Nat :=
  if q.waiting.head?.any left then q'.headTask.toList else []

/-- What `remove_connection` leaves of a submitted entry. -/
def removeSubmitted (connIndex : Nat) (s : Submitted) : Option Submitted :=
  if deadOwner connIndex s.connIndex s.taskId then
    match s.state with
    | .inFlight => some { s with
        state := if s.taskId = connIndex then .abandoned else .aborted connectionAborted }
    | .done _ | .aborted _ => if s.taskId = connIndex then none else some s
    | .abandoned => none
  else some s

/-- The task that `remove_connection` wakes for a submitted entry. -/
def removeSubmittedWake (connIndex : Nat) (s : Submitted) : Option Nat :=
  match s.state with
  | .inFlight =>
    if deadOwner connIndex s.connIndex s.taskId ∧ s.taskId ≠ connIndex then some s.taskId else none
  | _ => none

def removeConnection (connIndex : Nat) : SendCapacityQueue × List Nat :=
  let dead := fun w : Waiter => deadOwner connIndex w.connIndex w.taskId
  let gone := q.waiting.filter fun w => dead w && w.taskId ≠ connIndex
  let submitted := q.submitted ++
    gone.map fun w => ⟨w.id, w.connIndex, w.taskId, .aborted connectionAborted⟩
  let q' := { q with
    waiting := q.waiting.filter fun w => !dead w
    submitted := submitted.filterMap (removeSubmitted connIndex) }
  (q', gone.map (·.taskId) ++ submitted.filterMap (removeSubmittedWake connIndex) ++
    promote q q' dead)

def failWaiting (connIndex generation : Nat) (kind : ErrorKind) (msg : String) :
    SendCapacityQueue × List Nat :=
  let failed := fun w : Waiter => (w.connIndex = connIndex && w.generation = generation : Bool)
  let gone := q.waiting.filter failed
  let q' := { q with
    waiting := q.waiting.filter fun w => !failed w
    submitted := q.submitted ++
      gone.map fun w => ⟨w.id, w.connIndex, w.taskId, .done (.error ⟨kind, msg⟩)⟩ }
  (q', gone.map (·.taskId) ++ promote q q' failed)

end SendCapacityQueue

/-! ## Runs -/

/-- A call of the queue. -/
inductive Event where
  | enqueue (connIndex generation requiredSlots taskId : Nat)
  | setOwner (id taskId : Nat)
  | turn (id freeSlots : Nat)
  | markSubmitted (id : Nat)
  | complete (id : Nat) (result : IoResult)
  | takeResult (id : Nat)
  | cancel (id : Nat)
  | headReady (freeSlots : Nat)
  | removeConnection (connIndex : Nat)
  | failWaiting (connIndex generation : Nat) (kind : ErrorKind) (msg : String)

namespace SendCapacityQueue

variable (q : SendCapacityQueue)

/-- The queue after a call. -/
def step : Event → SendCapacityQueue
  | .enqueue c g n t => ((q.enqueue c g n t).map Prod.fst).getD q
  | .setOwner id t => q.setOwner id t
  | .turn _ _ | .headReady _ => q
  | .markSubmitted id => (q.markSubmitted id).1
  | .complete id r => (q.complete id r).1
  | .takeResult id => (q.takeResult id).1
  | .cancel id => (q.cancel id).1
  | .removeConnection c => (q.removeConnection c).1
  | .failWaiting c g kind msg => (q.failWaiting c g kind msg).1

/-- The tasks that a call wants to be woken. -/
def wakes : Event → List Nat
  | .enqueue _ _ _ _ | .setOwner _ _ | .turn _ _ | .takeResult _ => []
  | .headReady n => (q.headReady n).toList
  | .markSubmitted id => (q.markSubmitted id).2.toList
  | .complete id r => (q.complete id r).2.toList
  | .cancel id => (q.cancel id).2.toList
  | .removeConnection c => (q.removeConnection c).2
  | .failWaiting c g kind msg => (q.failWaiting c g kind msg).2

/-- The numbers of the entries. -/
def ids : List Nat := q.waiting.map (·.id) ++ q.submitted.map (·.id)

end SendCapacityQueue

/-! ## The life of one entry -/

/-- What a call leaves of a waiting entry in the queue. -/
def keep : Event → Waiter → Option Waiter
  | .setOwner id taskId, w => some (if w.id = id then { w with taskId } else w)
  | .markSubmitted id, w | .cancel id, w => if w.id = id then none else some w
  | .removeConnection c, w => if deadOwner c w.connIndex w.taskId then none else some w
  | .failWaiting c g _ _, w => if w.connIndex = c ∧ w.generation = g then none else some w
  | _, w => some w

/-- What a waiting entry becomes when it leaves the queue and its future is still there. -/
def move : Event → Waiter → Option Submitted
  | .markSubmitted id, w =>
    if w.id = id then some ⟨w.id, w.connIndex, w.taskId, .inFlight⟩ else none
  | .removeConnection c, w =>
    if deadOwner c w.connIndex w.taskId ∧ w.taskId ≠ c then
      some ⟨w.id, w.connIndex, w.taskId, .aborted connectionAborted⟩
    else none
  | .failWaiting c g kind msg, w =>
    if w.connIndex = c ∧ w.generation = g then
      some ⟨w.id, w.connIndex, w.taskId, .done (.error ⟨kind, msg⟩)⟩
    else none
  | _, _ => none

/-- What a call leaves of a submitted entry. -/
def settle : Event → Submitted → Option Submitted
  | .setOwner id taskId, s => some (if s.id = id then { s with taskId } else s)
  | .complete id r, s =>
    if s.id = id then
      match s.state with
      | .inFlight | .aborted _ => some { s with state := .done r }
      | .abandoned => none
      | .done _ => some s
    else some s
  | .takeResult id, s => if s.id = id ∧ s.state.result.isSome then none else some s
  | .cancel id, s =>
    if s.id = id then
      match s.state with
      | .inFlight => some { s with state := .abandoned }
      | .done _ | .aborted _ => none
      | .abandoned => some s
    else some s
  | .removeConnection c, s => SendCapacityQueue.removeSubmitted c s
  | _, s => some s

/-- `enqueue` is the only call that adds an entry. -/
def Event.isEnqueue : Event → Bool
  | .enqueue _ _ _ _ => true
  | _ => false

variable {e : Event} {s s' : Submitted} {w w' : Waiter} {C : Completion → Prop}

theorem id_of_keep (h : keep e w = some w') : w'.id = w.id := by
  cases e <;> simp only [keep, Option.some.injEq, Option.ite_none_left_eq_some] at h
  case setOwner => rw [← h]; split <;> rfl
  all_goals first
    | rw [← h]
    | rw [← h.2]

theorem id_of_move (h : move e w = some s) : s.id = w.id := by
  cases e <;> simp only [move, Option.ite_none_right_eq_some, Option.some.injEq, reduceCtorEq] at h
  all_goals rw [← h.2]

/-- A step in the life of a submitted entry that stays. -/
inductive Grows (e : Event) (s s' : Submitted) : Prop where
  | same (h : s'.state = s.state)
  | done (r : IoResult) (he : e = .complete s.id r) (h : s'.state = .done r)
      (hs : s.state = .inFlight ∨ ∃ err, s.state = .aborted err)
  | abandoned (hs : s.state = .inFlight) (h : s'.state = .abandoned)
  | aborted (hs : s.state = .inFlight) (h : s'.state = .aborted connectionAborted)

theorem grows_of_removeSubmitted {c : Nat} (h : SendCapacityQueue.removeSubmitted c s = some s') :
    s'.id = s.id ∧ Grows e s s' := by
  rw [SendCapacityQueue.removeSubmitted] at h
  split at h
  · split at h
    case h_1 hstate =>
      cases h
      by_cases howner : s.taskId = c
      · exact ⟨rfl, .abandoned hstate (if_pos howner)⟩
      · exact ⟨rfl, .aborted hstate (if_neg howner)⟩
    case h_4 => cases h
    all_goals
      cases (Option.ite_none_left_eq_some.mp h).2
      exact ⟨rfl, .same rfl⟩
  · cases h
    exact ⟨rfl, .same rfl⟩

section

variable (h : settle e s = some s')

include h

/-- **The life cycle of a submitted entry.** -/
theorem grows_of_settle : s'.id = s.id ∧ Grows e s s' := by
  cases e with
  | setOwner id taskId =>
    cases h
    split <;> exact ⟨rfl, .same rfl⟩
  | complete id r =>
    rw [settle] at h
    split at h
    · rename_i hid
      subst hid
      split at h <;> cases h
      case h_1 hstate => exact ⟨rfl, .done r rfl rfl (.inl hstate)⟩
      case h_2 err hstate => exact ⟨rfl, .done r rfl rfl (.inr ⟨err, hstate⟩)⟩
      case h_4 => exact ⟨rfl, .same rfl⟩
    · cases h
      exact ⟨rfl, .same rfl⟩
  | takeResult id =>
    cases (Option.ite_none_left_eq_some.mp h).2
    exact ⟨rfl, .same rfl⟩
  | cancel id =>
    rw [settle] at h
    split at h
    · split at h <;> cases h
      case h_1 hstate => exact ⟨rfl, .abandoned hstate rfl⟩
      case h_4 => exact ⟨rfl, .same rfl⟩
    · cases h
      exact ⟨rfl, .same rfl⟩
  | removeConnection c => exact grows_of_removeSubmitted h
  | enqueue | turn | markSubmitted | headReady | failWaiting =>
    cases h
    exact ⟨rfl, .same rfl⟩

theorem id_of_settle : s'.id = s.id := (grows_of_settle h).1

/-- What the driver reported stays, and so does the mark of an abandoned entry. -/
theorem settle_final (hs : s.state ≠ .inFlight) (hs' : ∀ err, s.state ≠ .aborted err) :
    s'.state = s.state := by
  rcases (grows_of_settle h).2 with heq | ⟨_, _, _, hold | ⟨err, hold⟩⟩ | ⟨hold, _⟩ | ⟨hold, _⟩
  · exact heq
  · exact absurd hold hs
  · exact absurd hold (hs' err)
  · exact absurd hold hs
  · exact absurd hold hs

/-- Only what is in flight becomes an abandoned mark. -/
theorem of_settle (hs : s'.state = .inFlight ∨ s'.state = .abandoned) :
    s.state = .inFlight ∨ s.state = .abandoned := by
  rcases (grows_of_settle h).2 with heq | ⟨_, _, hnew, _⟩ | ⟨hold, _⟩ | ⟨hold, _⟩
  · rwa [heq] at hs
  · rw [hnew] at hs
    exact hs.elim nofun nofun
  · exact .inl hold
  · exact .inl hold

end

/-- An entry that stays in the queue is not moved. -/
theorem move_eq_none_of_keep (h : keep e w = some w') : move e w = none := by
  cases e
  case markSubmitted => exact if_neg (Option.ite_none_left_eq_some.mp h).1
  case removeConnection =>
    exact if_neg fun hdead => (Option.ite_none_left_eq_some.mp h).1 hdead.1
  case failWaiting => exact if_neg (Option.ite_none_left_eq_some.mp h).1
  all_goals rfl

namespace SendCapacityQueue

/-- What the entries are like in every state that is reached. -/
structure Sound (q : SendCapacityQueue) : Prop where
  sorted : (q.waiting.map (·.id)).Pairwise (· < ·)
  nodup : q.ids.Nodup
  fresh : ∀ id ∈ q.ids, id < q.nextId

/-- What a call does to a queue, entry by entry. -/
structure Shape (e : Event) (q q' : SendCapacityQueue) : Prop where
  waiting : q'.waiting = q.waiting.filterMap (keep e)
  submitted : q'.submitted.Perm
    (q.submitted.filterMap (settle e) ++ q.waiting.filterMap (move e))
  nextId : q'.nextId = q.nextId

section

variable {q : SendCapacityQueue} {id : Nat}

theorem Sound.nodup_waiting (h : Sound q) : (q.waiting.map (·.id)).Nodup :=
  (nodup_append.mp h.nodup).1

theorem Sound.nodup_submitted (h : Sound q) : (q.submitted.map (·.id)).Nodup :=
  (nodup_append.mp h.nodup).2.1

theorem Sound.id_ne (h : Sound q) (hw : w ∈ q.waiting)
    (hs : s ∈ q.submitted) : w.id ≠ s.id :=
  (nodup_append.mp h.nodup).2.2 _ (mem_map_of_mem hw) _ (mem_map_of_mem hs)

/-- A number that is not found. -/
theorem id_ne_of_findIdx?_eq_none {α : Type} {l : List α} {key : α → Nat}
    (h : l.findIdx? (fun x => decide (key x = id)) = none) {x : α} (hx : x ∈ l) : key x ≠ id :=
  of_decide_eq_false (findIdx?_eq_none_iff.mp h x hx)

variable {pos : Nat}

/-- And one that is. -/
theorem id_eq_of_findIdx? {α : Type} {l : List α} {key : α → Nat}
    (h : l.findIdx? (fun x => decide (key x = id)) = some pos) : ∃ x, l[pos]? = some x ∧ key x = id := by
  obtain ⟨x, hx, hid⟩ := getElem?_of_findIdx? h
  exact ⟨x, hx, of_decide_eq_true hid⟩

/-- A call that changes the submitted entries only. -/
theorem Shape.of_submitted {l : List Submitted} (hkeep : ∀ w ∈ q.waiting, keep e w = some w)
    (hmove : ∀ w ∈ q.waiting, move e w = none) (hl : l.Perm (q.submitted.filterMap (settle e))) :
    Shape e q { q with submitted := l } where
  waiting := (filterMap_eq_self hkeep).symm
  submitted := by
    rw [filterMap_eq_nil_iff.mpr hmove, append_nil]
    exact hl
  nextId := rfl

theorem Shape.rfl_of (hkeep : ∀ w ∈ q.waiting, keep e w = some w)
    (hmove : ∀ w ∈ q.waiting, move e w = none)
    (hsettle : ∀ s ∈ q.submitted, settle e s = some s) : Shape e q q :=
  .of_submitted hkeep hmove (.of_eq (filterMap_eq_self hsettle).symm)

/-- A call that works at the position of a submitted entry. -/
structure Spot (e : Event) (q : SendCapacityQueue) (pos : Nat) (s : Submitted) : Prop where
  sound : Sound q
  found : q.submitted[pos]? = some s
  keep : ∀ w ∈ q.waiting, keep e w = some w
  move : ∀ w ∈ q.waiting, move e w = none
  other : ∀ y, y.id ≠ s.id → settle e y = some y

theorem Spot.modified (h : Spot e q pos s) {f : Submitted → Submitted}
    (hs : settle e s = some (f s)) : Shape e q { q with submitted := q.submitted.modify pos f } :=
  .of_submitted h.keep h.move
    (.of_eq (modify_eq_filterMap (·.id) h.sound.nodup_submitted h.found hs h.other))

theorem Spot.removed (h : Spot e q pos s) (hs : settle e s = none) :
    Shape e q { q with submitted := swapRemove q.submitted pos } :=
  .of_submitted h.keep h.move
    (swapRemove_perm_filterMap (·.id) h.sound.nodup_submitted h.found hs h.other)

theorem Spot.unchanged (h : Spot e q pos s) (hs : settle e s = some s) : Shape e q q := by
  refine .rfl_of h.keep h.move fun y hy => ?_
  by_cases hyid : y.id = s.id
  · rwa [inj_on_of_nodup_map h.sound.nodup_submitted hy (mem_of_getElem? h.found) hyid]
  · exact h.other y hyid

/-- A call that changes one waiting entry or takes it out. -/
theorem Shape.of_waiting {l : List Waiter}
    (hl : l = q.waiting.filterMap (keep e)) (hmove : ∀ w ∈ q.waiting, move e w = none)
    (hsettle : ∀ s ∈ q.submitted, settle e s = some s) : Shape e q { q with waiting := l } where
  waiting := hl
  submitted := by
    rw [filterMap_eq_self hsettle, filterMap_eq_nil_iff.mpr hmove, append_nil]
  nextId := rfl

section

variable (h : Sound q)

include h

theorem shape_setOwner (id taskId : Nat) :
    Shape (.setOwner id taskId) q (q.setOwner id taskId) := by
  rw [setOwner]
  cases hw : q.waiting.findIdx? (fun w => decide (w.id = id)) with
  | some pos =>
    obtain ⟨w, hpos, rfl⟩ := id_eq_of_findIdx? hw
    refine .of_waiting (modify_eq_filterMap (·.id) h.nodup_waiting hpos ?_ fun y hy => ?_)
      (fun _ _ => rfl) fun s hs => ?_
    · rw [keep, if_pos rfl]
    · rw [keep, if_neg hy]
    · rw [settle, if_neg (h.id_ne (mem_of_getElem? hpos) hs).symm]
  | none =>
    have hne : ∀ w ∈ q.waiting, keep (.setOwner id taskId) w = some w := by
      intro w hmem
      rw [keep, if_neg (id_ne_of_findIdx?_eq_none hw hmem)]
    cases hs : q.submitted.findIdx? (fun s => decide (s.id = id)) with
    | some pos =>
      obtain ⟨s, hpos, rfl⟩ := id_eq_of_findIdx? hs
      have hspot : Spot (.setOwner s.id taskId) q pos s :=
        ⟨h, hpos, hne, fun _ _ => rfl, fun y hy => by rw [settle, if_neg hy]⟩
      exact hspot.modified (by rw [settle, if_pos rfl])
    | none =>
      refine .rfl_of hne (fun _ _ => rfl) fun s hmem => ?_
      rw [settle, if_neg (id_ne_of_findIdx?_eq_none hs hmem)]

theorem shape_markSubmitted (id : Nat) : Shape (.markSubmitted id) q (q.markSubmitted id).1 := by
  rw [markSubmitted]
  cases hw : q.waiting.findIdx? (fun w => decide (w.id = id)) with
  | none =>
    have hne := fun w (hmem : w ∈ q.waiting) => id_ne_of_findIdx?_eq_none hw hmem
    exact .rfl_of (fun w hmem => if_neg (hne w hmem)) (fun w hmem => if_neg (hne w hmem))
      fun _ _ => rfl
  | some pos =>
    obtain ⟨w, hpos, hid⟩ := id_eq_of_findIdx? hw
    have hmove : q.waiting.filterMap (move (.markSubmitted id)) =
        [⟨w.id, w.connIndex, w.taskId, .inFlight⟩] :=
      filterMap_eq_singleton (·.id) h.nodup_waiting hpos (if_pos hid) fun y hy => if_neg (hid ▸ hy)
    simp only [hpos]
    refine ⟨eraseIdx_eq_filterMap (·.id) h.nodup_waiting hpos (if_pos hid)
      fun y hy => if_neg (hid ▸ hy), ?_, rfl⟩
    rw [hmove, filterMap_eq_self (f := settle _) fun _ _ => rfl]

theorem shape_complete (id : Nat) (r : IoResult) :
    Shape (.complete id r) q (q.complete id r).1 := by
  rw [complete]
  cases hs : q.submitted.findIdx? (fun s => decide (s.id = id)) with
  | none =>
    exact .rfl_of (fun _ _ => rfl) (fun _ _ => rfl) fun s hmem =>
      if_neg (id_ne_of_findIdx?_eq_none hs hmem)
  | some pos =>
    obtain ⟨s, hpos, rfl⟩ := id_eq_of_findIdx? hs
    have hspot : Spot (.complete s.id r) q pos s :=
      ⟨h, hpos, fun _ _ => rfl, fun _ _ => rfl, fun y hy => if_neg hy⟩
    simp only [hpos]
    cases hstate : s.state with
    | inFlight | aborted => exact hspot.modified (by simp [settle, hstate])
    | abandoned => exact hspot.removed (by simp [settle, hstate])
    | done => exact hspot.unchanged (by simp [settle, hstate])

theorem shape_takeResult (id : Nat) : Shape (.takeResult id) q (q.takeResult id).1 := by
  rw [takeResult]
  cases hs : q.submitted.findIdx? (fun s => s.id = id && s.state.result.isSome) with
  | none =>
    refine .rfl_of (fun _ _ => rfl) (fun _ _ => rfl) fun s hmem => if_neg ?_
    simpa using findIdx?_eq_none_iff.mp hs s hmem
  | some pos =>
    obtain ⟨s, hpos, hfound⟩ := getElem?_of_findIdx? hs
    rw [Bool.and_eq_true, decide_eq_true_iff] at hfound
    obtain ⟨rfl, hresult⟩ := hfound
    have hspot : Spot (.takeResult s.id) q pos s :=
      ⟨h, hpos, fun _ _ => rfl, fun _ _ => rfl, fun y hy => if_neg fun hy' => hy hy'.1⟩
    exact hspot.removed (if_pos ⟨rfl, hresult⟩)

theorem shape_cancel (id : Nat) : Shape (.cancel id) q (q.cancel id).1 := by
  rw [cancel]
  cases hw : q.waiting.findIdx? (fun w => decide (w.id = id)) with
  | some pos =>
    obtain ⟨w, hpos, hid⟩ := id_eq_of_findIdx? hw
    exact .of_waiting (eraseIdx_eq_filterMap (·.id) h.nodup_waiting hpos (if_pos hid)
      fun y hy => if_neg (hid ▸ hy)) (fun _ _ => rfl) fun s hs =>
        if_neg (hid ▸ (h.id_ne (mem_of_getElem? hpos) hs).symm)
  | none =>
    have hne : ∀ w ∈ q.waiting, keep (.cancel id) w = some w :=
      fun w hmem => if_neg (id_ne_of_findIdx?_eq_none hw hmem)
    cases hs : q.submitted.findIdx? (fun s => decide (s.id = id)) with
    | none =>
      exact .rfl_of hne (fun _ _ => rfl) fun s hmem => if_neg (id_ne_of_findIdx?_eq_none hs hmem)
    | some pos =>
      obtain ⟨s, hpos, rfl⟩ := id_eq_of_findIdx? hs
      have hspot : Spot (.cancel s.id) q pos s :=
        ⟨h, hpos, hne, fun _ _ => rfl, fun y hy => if_neg hy⟩
      simp only [hpos]
      cases hstate : s.state with
      | inFlight => exact hspot.modified (by simp [settle, hstate])
      | aborted | done => exact hspot.removed (by simp [settle, hstate])
      | abandoned => exact hspot.unchanged (by simp [settle, hstate])

end

theorem shape_removeConnection (q : SendCapacityQueue) (c : Nat) :
    Shape (.removeConnection c) q (q.removeConnection c).1 := by
  have hmove : ((q.waiting.filter fun w => deadOwner c w.connIndex w.taskId && w.taskId ≠ c).map
        fun w => (⟨w.id, w.connIndex, w.taskId, .aborted connectionAborted⟩ : Submitted)) =
      q.waiting.filterMap (move (.removeConnection c)) :=
    map_filter_eq_filterMap (fun w => by simp [move]) _
  refine ⟨?_, .of_eq ?_, rfl⟩
  · rw [removeConnection, ← map_id (q.waiting.filter _)]
    refine map_filter_eq_filterMap (fun w => ?_) _
    cases hw : deadOwner c w.connIndex w.taskId <;> simp [keep, hw]
  · simp only [removeConnection, hmove, filterMap_append]
    congr 1
    refine filterMap_eq_self fun s hs => ?_
    obtain ⟨w, -, hw⟩ := mem_filterMap.mp hs
    obtain ⟨hdead, hs⟩ := Option.ite_none_right_eq_some.mp hw
    cases hs
    simp [removeSubmitted, hdead]

theorem shape_failWaiting (q : SendCapacityQueue) (c g : Nat) (kind : ErrorKind) (msg : String) :
    Shape (.failWaiting c g kind msg) q (q.failWaiting c g kind msg).1 := by
  refine ⟨?_, .of_eq ?_, rfl⟩
  · rw [failWaiting, ← map_id (q.waiting.filter _)]
    refine map_filter_eq_filterMap (fun w => ?_) _
    by_cases hw : w.connIndex = c ∧ w.generation = g <;> simp [keep, hw]
  · rw [filterMap_eq_self (f := settle _) fun _ _ => rfl]
    refine congrArg (q.submitted ++ ·) (map_filter_eq_filterMap (fun w => ?_) _)
    simp [move]

end

/-- **A call treats every entry by itself.** -/
theorem step_shape {q : SendCapacityQueue} (h : Sound q) (he : e.isEnqueue = false) :
    Shape e q (q.step e) := by
  cases e with
  | enqueue => cases he
  | setOwner id taskId => exact shape_setOwner h id taskId
  | turn | headReady => exact .rfl_of (fun _ _ => rfl) (fun _ _ => rfl) fun _ _ => rfl
  | markSubmitted id => exact shape_markSubmitted h id
  | complete id r => exact shape_complete h id r
  | takeResult id => exact shape_takeResult h id
  | cancel id => exact shape_cancel h id
  | removeConnection c => exact shape_removeConnection q c
  | failWaiting c g kind msg => exact shape_failWaiting q c g kind msg

/-! ## What every call preserves -/

section

variable {q q' : SendCapacityQueue}

theorem Shape.mem_waiting (h : Shape e q q') :
    w' ∈ q'.waiting ↔ ∃ w ∈ q.waiting, keep e w = some w' := by
  rw [h.waiting, mem_filterMap]

theorem Shape.mem_submitted (h : Shape e q q') :
    s' ∈ q'.submitted ↔
      (∃ s ∈ q.submitted, settle e s = some s') ∨ ∃ w ∈ q.waiting, move e w = some s' := by
  rw [h.submitted.mem_iff, mem_append, mem_filterMap, mem_filterMap]

/-- A function that keeps the numbers keeps their order. -/
theorem sublist_ids {α β : Type} {f : α → Option β} {key : α → Nat} {key' : β → Nat}
    (h : ∀ x y, f x = some y → key' y = key x) (l : List α) :
    ((l.filterMap f).map key').Sublist (l.map key) := by
  induction l with
  | nil => exact .slnil
  | cons x l ih =>
    cases hx : f x with
    | none =>
      rw [filterMap_cons_none hx]
      exact ih.cons _
    | some y =>
      rw [filterMap_cons_some hx, map_cons, map_cons, h x y hx]
      exact ih.cons_cons _

theorem Shape.sound (hs : Shape e q q') (h : Sound q) : Sound q' := by
  have hwaiting : (q'.waiting.map (·.id)).Sublist (q.waiting.map (·.id)) := by
    rw [hs.waiting]
    exact sublist_ids (fun _ _ => id_of_keep) _
  refine ⟨h.sorted.sublist hwaiting, ?_, fun id hid => ?_⟩
  · rw [ids, ((hs.submitted.map (·.id)).append_left _).nodup_iff, map_append,
      nodup_append, nodup_append]
    refine ⟨h.nodup_waiting.sublist hwaiting,
      ⟨h.nodup_submitted.sublist (sublist_ids (fun _ _ => id_of_settle) _),
        h.nodup_waiting.sublist (sublist_ids (fun _ _ => id_of_move) _), ?_⟩, ?_⟩
    · -- what was waiting has another number than what was submitted
      simp only [mem_map, mem_filterMap]
      rintro _ ⟨s', ⟨s, hs, hsettle⟩, rfl⟩ _ ⟨t', ⟨w, hw, hmove⟩, rfl⟩
      rw [id_of_settle hsettle, id_of_move hmove]
      exact (h.id_ne hw hs).symm
    · simp only [mem_append, mem_map, mem_filterMap, hs.mem_waiting]
      rintro _ ⟨w', ⟨w, hw, hkeep⟩, rfl⟩ _ (⟨s', ⟨s, hs, hsettle⟩, rfl⟩ | ⟨s', ⟨v, hv, hmove⟩, rfl⟩)
      · rw [id_of_keep hkeep, id_of_settle hsettle]
        exact h.id_ne hw hs
      · -- an entry is kept or moved, and not both
        rw [id_of_keep hkeep, id_of_move hmove]
        intro heq
        obtain rfl := inj_on_of_nodup_map h.nodup_waiting hw hv heq
        cases (move_eq_none_of_keep hkeep).symm.trans hmove
  · rw [hs.nextId]
    refine h.fresh id ?_
    simp only [ids, mem_append, mem_map, hs.mem_waiting, hs.mem_submitted] at hid ⊢
    rcases hid with ⟨w', ⟨w, hw, hkeep⟩, rfl⟩ | ⟨s', ⟨s, hs, hsettle⟩ | ⟨w, hw, hmove⟩, rfl⟩
    · exact .inl ⟨w, hw, (id_of_keep hkeep).symm⟩
    · exact .inr ⟨s, hs, (id_of_settle hsettle).symm⟩
    · exact .inl ⟨w, hw, (id_of_move hmove).symm⟩

/-- The queue after `enqueue`. -/
theorem step_enqueue (q : SendCapacityQueue) (c g n t : Nat) :
    q.step (.enqueue c g n t) = q ∧ ¬q.nextId + 1 < 2 ^ 64 ∨
      q.nextId + 1 < 2 ^ 64 ∧ q.step (.enqueue c g n t) =
        { q with waiting := q.waiting ++ [⟨q.nextId, c, g, n, t⟩], nextId := q.nextId + 1 } := by
  by_cases hlt : q.nextId + 1 < 2 ^ 64
  · exact .inr ⟨hlt, by simp only [step, enqueue, if_pos hlt, Option.map_some, Option.getD_some]⟩
  · exact .inl ⟨by simp only [step, enqueue, if_neg hlt, Option.map_none, Option.getD_none], hlt⟩

/-- The operation is not waiting, and if it is there at all, then in a state of a kind. -/
structure Settled (q : SendCapacityQueue) (C : Completion → Prop) (id : Nat) : Prop where
  issued : id < q.nextId
  waiting : ∀ w ∈ q.waiting, w.id ≠ id
  submitted : ∀ s ∈ q.submitted, s.id = id → C s.state

section

variable (h : Sound q)

include h

theorem Sound.lt_of_waiting (hw : w ∈ q.waiting) : w.id < q.nextId :=
  h.fresh _ (mem_append_left _ (mem_map_of_mem hw))

theorem Sound.lt_of_submitted (hs : s ∈ q.submitted) : s.id < q.nextId :=
  h.fresh _ (mem_append_right _ (mem_map_of_mem hs))

/-- A call treats every entry by itself, and only `enqueue` adds one. -/
theorem step_cases (e : Event) : Shape e q (q.step e) ∨
    ∃ c g n t, e = .enqueue c g n t ∧ q.step e =
      { q with waiting := q.waiting ++ [⟨q.nextId, c, g, n, t⟩], nextId := q.nextId + 1 } := by
  cases e with
  | enqueue c g n t =>
    rcases step_enqueue q c g n t with ⟨heq, -⟩ | ⟨-, heq⟩
    · rw [heq]
      exact .inl (.rfl_of (fun _ _ => rfl) (fun _ _ => rfl) fun _ _ => rfl)
    · exact .inr ⟨c, g, n, t, rfl, heq⟩
  | _ => exact .inl (step_shape h rfl)

/-- Where a waiting entry comes from. -/
theorem waiting_step (hw' : w' ∈ (q.step e).waiting) :
    (∃ w ∈ q.waiting, keep e w = some w') ∨ w'.id = q.nextId := by
  rcases step_cases h e with hs | ⟨c, g, n, t, rfl, heq⟩
  · exact .inl (hs.mem_waiting.mp hw')
  · rw [heq] at hw'
    rcases mem_append.mp hw' with hw' | hw'
    · exact .inl ⟨w', hw', rfl⟩
    · exact .inr (by rw [mem_singleton.mp hw'])

/-- And where a submitted one does. -/
theorem submitted_step (hs' : s' ∈ (q.step e).submitted) :
    (∃ s ∈ q.submitted, settle e s = some s') ∨ ∃ w ∈ q.waiting, move e w = some s' := by
  rcases step_cases h e with hs | ⟨c, g, n, t, rfl, heq⟩
  · exact hs.mem_submitted.mp hs'
  · rw [heq] at hs'
    exact .inl ⟨s', hs', rfl⟩

theorem nextId_le_step (e : Event) : q.nextId ≤ (q.step e).nextId := by
  rcases step_cases h e with hs | ⟨c, g, n, t, rfl, heq⟩
  · exact hs.nextId.ge
  · simp [heq]

theorem Sound.step (e : Event) : Sound (q.step e) := by
  rcases step_cases h e with hs | ⟨c, g, n, t, rfl, heq⟩
  · exact hs.sound h
  · rw [heq]
    have hids : SendCapacityQueue.ids { q with
        waiting := q.waiting ++ [⟨q.nextId, c, g, n, t⟩]
        nextId := q.nextId + 1 } =
        q.waiting.map (·.id) ++ q.nextId :: q.submitted.map (·.id) := by
      simp [ids]
    have hfresh : q.nextId ∉ q.ids := fun hmem => Nat.lt_irrefl _ (h.fresh _ hmem)
    refine ⟨?_, ?_, fun id hid => ?_⟩
    · rw [map_append, pairwise_append]
      refine ⟨h.sorted, pairwise_singleton _ _, fun a ha b hb => ?_⟩
      rw [map_singleton, mem_singleton] at hb
      rw [hb]
      exact h.fresh a (mem_append_left _ ha)
    · rw [hids, perm_middle.nodup_iff, nodup_cons]
      exact ⟨hfresh, h.nodup⟩
    · rw [hids, perm_middle.mem_iff, mem_cons] at hid
      rcases hid with rfl | hid
      · exact Nat.lt_succ_self _
      · exact Nat.lt_succ_of_lt (h.fresh id hid)

/-- What a call does with the entry of an operation decides where the operation stands. -/
theorem settled_step {id : Nat} (hlt : id < q.nextId)
    (hkeep : ∀ w ∈ q.waiting, w.id = id → keep e w = none)
    (hmove : ∀ w ∈ q.waiting, w.id = id → ∀ s, move e w = some s → C s.state)
    (hsettle : ∀ s ∈ q.submitted, s.id = id → ∀ s', settle e s = some s' → C s'.state) :
    Settled (q.step e) C id := by
  refine ⟨hlt.trans_le (nextId_le_step h e), fun w' hw' heq => ?_, fun s' hs' heq => ?_⟩
  · rcases waiting_step h hw' with ⟨w, hw, hw'⟩ | hnew
    · cases (hkeep w hw (id_of_keep hw' ▸ heq)).symm.trans hw'
    · exact hlt.ne (heq.symm.trans hnew)
  · rcases submitted_step h hs' with ⟨s, hs, hs'⟩ | ⟨w, hw, hs'⟩
    · exact hsettle s hs (id_of_settle hs' ▸ heq) s' hs'
    · exact hmove w hw (id_of_move hs' ▸ heq) s' hs'

/-- An operation does not come back to the queue. -/
theorem Settled.step {id : Nat} (hid : Settled q C id)
    (hC : ∀ s s', settle e s = some s' → C s.state → C s'.state) : Settled (q.step e) C id :=
  settled_step h hid.issued (fun w hw heq => absurd heq (hid.waiting w hw))
    (fun w hw heq => absurd heq (hid.waiting w hw)) fun s hs heq s' hsettle =>
      hC s s' hsettle (hid.submitted s hs heq)

end

theorem of_ite_eq_none {α : Type} {p : Prop} [Decidable p] {a : α}
    (h : (if p then none else some a) = none) : p := by
  by_contra hp
  rw [if_neg hp] at h
  cases h

theorem mem_promote {rest : List Waiter} {left : Waiter → Bool} {t : Nat}
    (hw : q.waiting = w :: rest) (hleft : left w = true) (ht : t ∈ q'.headTask.toList) :
    t ∈ promote q q' left := by
  rw [promote, hw, head?_cons, Option.any_some, if_pos hleft]
  exact ht

/-- A call that takes the head out of the queue names the task of the new head. -/
theorem wakes_of_keep_eq_none {rest : List Waiter} (hw : q.waiting = w :: rest)
    (hkeep : keep e w = none) (hhead : (q.step e).waiting.head? = some w') :
    w'.taskId ∈ q.wakes e := by
  have htask : w'.taskId ∈ (q.step e).headTask.toList := by
    rw [headTask, hhead]
    exact mem_singleton_self _
  have hfind : ∀ id, w.id = id → q.waiting.findIdx? (fun w => decide (w.id = id)) = some 0 := by
    intro id hid
    rw [hw, findIdx?_cons, if_pos (decide_eq_true hid)]
  cases e with
  | enqueue | setOwner | turn | complete | takeResult | headReady => cases hkeep
  | markSubmitted id =>
    have hfirst : q.waiting[0]? = some w := by rw [hw, getElem?_cons_zero]
    rw [step, markSubmitted, hfind id (of_ite_eq_none hkeep)] at htask
    rw [wakes, markSubmitted, hfind id (of_ite_eq_none hkeep)]
    dsimp only at htask ⊢
    rw [hfirst] at htask ⊢
    exact htask
  | cancel id =>
    rw [step, cancel, hfind id (of_ite_eq_none hkeep)] at htask
    rw [wakes, cancel, hfind id (of_ite_eq_none hkeep)]
    exact htask
  | removeConnection c =>
    exact mem_append_right _ (mem_promote hw (of_ite_eq_none hkeep) htask)
  | failWaiting c g kind msg =>
    have hfailed := of_ite_eq_none hkeep
    exact mem_append_right _ (mem_promote hw (by simp [hfailed]) htask)

/-- **The new head is woken**, or it is the first in the queue and its task is being polled. -/
theorem promoted (h : Sound q) (hhead : (q.step e).waiting.head? = some w')
    (hnew : ∀ w, q.waiting.head? = some w → w.id ≠ w'.id) :
    w'.taskId ∈ q.wakes e ∨ q.waiting = [] ∧ ∃ c g n, e = .enqueue c g n w'.taskId := by
  rcases step_cases h e with hs | ⟨c, g, n, t, rfl, heq⟩
  · cases hw : q.waiting with
    | nil =>
      rw [hs.waiting, hw] at hhead
      cases hhead
    | cons w rest =>
      cases hkeep : keep e w with
      | none => exact .inl (wakes_of_keep_eq_none hw hkeep hhead)
      | some v =>
        rw [hs.waiting, hw, filterMap_cons_some hkeep, head?_cons] at hhead
        cases hhead
        exact absurd (id_of_keep hkeep).symm (hnew w (by rw [hw, head?_cons]))
  · rw [heq] at hhead
    cases hw : q.waiting with
    | nil =>
      simp only [hw, nil_append, head?_cons] at hhead
      cases hhead
      exact .inr ⟨rfl, c, g, n, rfl⟩
    | cons w rest =>
      simp only [hw, cons_append, head?_cons] at hhead
      cases hhead
      exact absurd rfl (hnew w' (by rw [hw, head?_cons]))

end

/-! ## The history of a run -/

/-- The operation is submitted and no driver result has been recorded for it. -/
def awaits (q : SendCapacityQueue) (id : Nat) : Bool :=
  q.submitted.any fun s => s.id = id &&
    match s.state with
    | .inFlight | .aborted _ => true
    | .done _ | .abandoned => false

end SendCapacityQueue

/-- What an observer has seen: the numbers that were issued, the turns that were granted, what was
submitted, the first result the driver gave for an operation, the results that were taken, and the
operations whose futures are gone. -/
structure Memory where
  issued : List Nat
  granted : List Nat
  admitted : List Nat
  answer : Nat → Option IoResult
  taken : List (Nat × IoResult)
  gone : List Nat

namespace Memory

def start : Memory := ⟨[], [], [], fun _ => none, [], []⟩

/-- The entry belongs to the task of the connection, which is dropped with the connection. -/
def own (connIndex taskId : Nat) : Bool := taskId = connIndex && taskId &&& standaloneBit = 0

/-- What the observer has seen after a call.  A future is gone when it has its result, when it was
cancelled, and when the task it lives in is dropped with its connection. -/
def record (m : Memory) (q : SendCapacityQueue) : Event → Memory
  | .enqueue c g n t =>
    match q.enqueue c g n t with
    | some (_, id) => { m with issued := m.issued ++ [id] }
    | none => m
  | .turn id n => if q.turn id n then { m with granted := m.granted ++ [id] } else m
  | .markSubmitted id =>
    if q.waiting.any (·.id = id) then { m with admitted := id :: m.admitted } else m
  | .complete id r =>
    if q.awaits id then { m with answer := Function.update m.answer id (some r) } else m
  | .takeResult id =>
    match (q.takeResult id).2 with
    | some r => { m with taken := (id, r) :: m.taken, gone := id :: m.gone }
    | none => m
  | .cancel id => if id < q.nextId then { m with gone := id :: m.gone } else m
  | .removeConnection c => { m with gone :=
      (q.waiting.filter fun w => own c w.taskId).map (·.id) ++
        ((q.submitted.filter fun s => own c s.taskId).map (·.id) ++ m.gone) }
  | .setOwner _ _ | .headReady _ | .failWaiting _ _ _ _ => m

end Memory

namespace SendCapacityQueue

/-- What holds along every run. -/
structure Inv (m : Memory) (q : SendCapacityQueue) : Prop where
  sound : Sound q
  issued : m.issued = range q.nextId
  ordered : m.granted.Pairwise (· ≤ ·)
  granted : ∀ id ∈ m.granted, id < q.nextId ∧ ∀ w ∈ q.waiting, id ≤ w.id
  admitted : ∀ s ∈ q.submitted, s.state = .inFlight ∨ s.state = .abandoned → s.id ∈ m.admitted
  answer : ∀ id r, m.answer id = some r → Settled q (· = .done r) id
  takenOnce : (m.taken.map Prod.fst).Nodup
  taken : ∀ x ∈ m.taken, Settled q (fun _ => False) x.1 ∧ ∀ r, m.answer x.1 = some r → x.2 = r
  gone : ∀ id ∈ m.gone, Settled q (· = .abandoned) id

section

variable {m : Memory} {q : SendCapacityQueue}

/-- What is in flight was submitted, and so was what is abandoned. -/
theorem admitted_step (h : Inv m q) (hs' : s' ∈ (q.step e).submitted)
    (hstate : s'.state = .inFlight ∨ s'.state = .abandoned) :
    s'.id ∈ m.admitted ∨ e = .markSubmitted s'.id ∧ ∃ w ∈ q.waiting, w.id = s'.id := by
  rcases submitted_step h.sound hs' with ⟨s, hs, hsettle⟩ | ⟨w, hw, hmove⟩
  · rw [id_of_settle hsettle]
    exact .inl (h.admitted s hs (of_settle hsettle hstate))
  · cases e with
    | markSubmitted id =>
      obtain ⟨rfl, heq⟩ := Option.ite_none_right_eq_some.mp hmove
      cases heq
      exact .inr ⟨rfl, w, hw, rfl⟩
    | removeConnection | failWaiting =>
      cases (Option.ite_none_right_eq_some.mp hmove).2
      exact hstate.elim nofun nofun
    | _ => cases hmove

section

variable (h : Sound q)

include h

/-- The turns that were granted were all before what is waiting now. -/
theorem granted_step {ids : List Nat}
    (hids : ∀ id ∈ ids, id < q.nextId ∧ ∀ w ∈ q.waiting, id ≤ w.id) (e : Event) :
    ∀ id ∈ ids, id < (q.step e).nextId ∧ ∀ w ∈ (q.step e).waiting, id ≤ w.id := by
  intro id hid
  obtain ⟨hlt, hle⟩ := hids id hid
  refine ⟨hlt.trans_le (nextId_le_step h e), fun w' hw' => ?_⟩
  rcases waiting_step h hw' with ⟨w, hw, hkeep⟩ | hnew
  · rw [id_of_keep hkeep]
    exact hle w hw
  · rw [hnew]
    exact hlt.le

theorem turn_le {id n : Nat} (ht : q.turn id n = true) :
    (∃ w ∈ q.waiting, w.id = id) ∧ ∀ w ∈ q.waiting, id ≤ w.id := by
  rw [turn] at ht
  cases hw : q.waiting with
  | nil => rw [hw] at ht; cases ht
  | cons head rest =>
    rw [hw, head?_cons, Option.any_some, decide_eq_true_iff] at ht
    have hsorted := h.sorted
    rw [hw, map_cons, pairwise_cons] at hsorted
    refine ⟨⟨head, mem_cons_self, ht.1⟩, fun w hmem => ?_⟩
    rcases mem_cons.mp hmem with rfl | hmem
    · exact ht.1.ge
    · rw [← ht.1]
      exact (hsorted.1 w.id (mem_map_of_mem hmem)).le

theorem eq_of_id_submitted (hs : s ∈ q.submitted) (hs' : s' ∈ q.submitted) (hid : s.id = s'.id) :
    s = s' :=
  inj_on_of_nodup_map h.nodup_submitted hs hs' hid

theorem eq_of_id_waiting (hw : w ∈ q.waiting) (hw' : w' ∈ q.waiting) (hid : w.id = w'.id) :
    w = w' :=
  inj_on_of_nodup_map h.nodup_waiting hw hw' hid

/-- What a call leaves of a submitted entry decides where its operation stands. -/
theorem settled_of_submitted (hs : s ∈ q.submitted) (hC : ∀ s', settle e s = some s' → C s'.state) :
    Settled (q.step e) C s.id := by
  refine settled_step h (h.lt_of_submitted hs) (fun w hw heq => absurd heq (h.id_ne hw hs))
    (fun w hw heq => absurd heq (h.id_ne hw hs)) fun t ht heq => ?_
  rwa [eq_of_id_submitted h ht hs heq]

/-- And so does what it leaves of a waiting one. -/
theorem settled_of_waiting (hw : w ∈ q.waiting) (hkeep : keep e w = none)
    (hmove : ∀ s, move e w = some s → C s.state) : Settled (q.step e) C w.id := by
  refine settled_step h (h.lt_of_waiting hw) (fun v hv heq => ?_) (fun v hv heq => ?_)
    fun s hs heq => absurd heq.symm (h.id_ne hw hs)
  · rwa [eq_of_id_waiting h hv hw heq]
  · rwa [eq_of_id_waiting h hv hw heq]

end

/-- A call keeps what was known before it. -/
theorem Inv.carry (h : Inv m q) {issued admitted : List Nat}
    (hissued : issued = range (q.step e).nextId)
    (hadmitted : ∀ s ∈ (q.step e).submitted, s.state = .inFlight ∨ s.state = .abandoned →
      s.id ∈ admitted) :
    Inv { m with issued, admitted } (q.step e) where
  sound := h.sound.step e
  issued := hissued
  ordered := h.ordered
  granted := granted_step h.sound h.granted e
  admitted := hadmitted
  answer id r hid := (h.answer id r hid).step h.sound fun _ _ hsettle hs => by
    rw [settle_final hsettle (hs ▸ nofun) (hs ▸ nofun), hs]
  takenOnce := h.takenOnce
  taken x hx := ⟨(h.taken x hx).1.step h.sound fun _ _ _ => id, (h.taken x hx).2⟩
  gone id hid := (h.gone id hid).step h.sound fun _ _ hsettle hs => by
    rw [settle_final hsettle (hs ▸ nofun) (hs ▸ nofun), hs]

/-- A call that neither adds an entry nor submits one. -/
theorem Inv.carry_of_quiet (h : Inv m q) (he : e.isEnqueue = false)
    (hmark : ∀ id, e ≠ .markSubmitted id) : Inv m (q.step e) := by
  refine h.carry (e := e) ?_ fun s hs hstate => ?_
  · rw [h.issued, (step_shape h.sound he).nextId]
  · exact (admitted_step h hs hstate).resolve_right fun hsub => hmark _ hsub.1

theorem awaits_iff {id : Nat} : q.awaits id = true ↔ ∃ s ∈ q.submitted, s.id = id ∧
    (s.state = .inFlight ∨ ∃ err, s.state = .aborted err) := by
  rw [awaits, any_eq_true]
  refine exists_congr fun s => and_congr_right fun _ => ?_
  cases s.state <;> simp

theorem Inv.complete (h : Inv m q) (id : Nat) (r : IoResult) :
    Inv (m.record q (.complete id r)) (q.step (.complete id r)) := by
  have hbase : Inv m (q.step (.complete id r)) := h.carry_of_quiet rfl nofun
  rw [Memory.record]
  split
  · rename_i hawaits
    obtain ⟨s, hs, rfl, hstate⟩ := awaits_iff.mp hawaits
    have hnew : Settled (q.step (.complete s.id r)) (· = .done r) s.id := by
      refine settled_of_submitted h.sound hs fun s' hsettle => ?_
      rcases hstate with hstate | ⟨err, hstate⟩ <;>
        · simp only [settle, if_pos, hstate] at hsettle
          cases hsettle
          rfl
    refine { hbase with
      answer := fun j r' hj => ?_
      taken := fun x hx => ⟨(hbase.taken x hx).1, fun r' hr' => ?_⟩ }
    · dsimp only at hj
      rcases eq_or_ne j s.id with rfl | hne
      · rw [Function.update_self, Option.some_inj] at hj
        exact hj ▸ hnew
      · rw [Function.update_of_ne hne] at hj
        exact hbase.answer j r' hj
    · -- a result that was taken has no entry any more
      dsimp only at hr'
      have hne : x.1 ≠ s.id := fun heq => (h.taken x hx).1.submitted s hs heq.symm
      rw [Function.update_of_ne hne] at hr'
      exact (hbase.taken x hx).2 r' hr'
  · exact hbase

theorem takeResult_eq_some {id : Nat} {r : IoResult} (h : (q.takeResult id).2 = some r) :
    ∃ s ∈ q.submitted, s.id = id ∧ s.state.result = some r := by
  rw [takeResult] at h
  split at h
  · cases h
  · rename_i pos hs
    obtain ⟨s, hpos, hfound⟩ := getElem?_of_findIdx? hs
    rw [Bool.and_eq_true, decide_eq_true_iff] at hfound
    simp only [hpos, Option.bind_some] at h
    exact ⟨s, mem_of_getElem? hpos, hfound.1, h⟩

section

variable (h : Inv m q)

include h

theorem Inv.takeResult (id : Nat) :
    Inv (m.record q (.takeResult id)) (q.step (.takeResult id)) := by
  have hbase : Inv m (q.step (.takeResult id)) := h.carry_of_quiet rfl nofun
  rw [Memory.record]
  cases hr : (q.takeResult id).2 with
  | none => exact hbase
  | some r =>
    obtain ⟨s, hs, rfl, hresult⟩ := takeResult_eq_some hr
    have hnone : settle (.takeResult s.id) s = none := if_pos ⟨rfl, by rw [hresult]; rfl⟩
    have hgone : ∀ C, Settled (q.step (.takeResult s.id)) C s.id := fun C =>
      settled_of_submitted h.sound hs fun s' hsettle => by cases hnone.symm.trans hsettle
    have hfirst : ∀ x ∈ m.taken, x.1 ≠ s.id := fun x hx heq =>
      (h.taken x hx).1.submitted s hs heq.symm
    refine { hbase with takenOnce := ?_, taken := fun x hx => ?_, gone := fun j hj => ?_ }
    · exact nodup_cons.mpr ⟨by simpa using fun r' hx => hfirst (s.id, r') hx rfl, h.takenOnce⟩
    · rcases mem_cons.mp hx with rfl | hx
      · refine ⟨hgone _, fun r' hr' => ?_⟩
        rw [(h.answer _ r' hr').submitted s hs rfl] at hresult
        exact (Option.some_inj.mp hresult).symm
      · exact hbase.taken x hx
    · rcases mem_cons.mp hj with rfl | hj
      · exact hgone _
      · exact hbase.gone j hj

theorem Inv.cancel (id : Nat) : Inv (m.record q (.cancel id)) (q.step (.cancel id)) := by
  have hbase : Inv m (q.step (.cancel id)) := h.carry_of_quiet rfl nofun
  rw [Memory.record]
  split
  · rename_i hlt
    refine { hbase with gone := fun j hj => ?_ }
    rcases mem_cons.mp hj with rfl | hj
    · refine settled_step h.sound hlt (fun w _ heq => if_pos heq) (fun _ _ _ _ hmove => by cases hmove)
        fun s _ heq s' hsettle => ?_
      rw [settle, if_pos heq] at hsettle
      split at hsettle <;> cases hsettle
      · rfl
      · assumption
    · exact hbase.gone j hj
  · exact hbase

theorem Inv.removeConnection (c : Nat) :
    Inv (m.record q (.removeConnection c)) (q.step (.removeConnection c)) := by
  have hbase : Inv m (q.step (.removeConnection c)) := h.carry_of_quiet rfl nofun
  have hown : ∀ conn {task}, Memory.own c task = true →
      task = c ∧ deadOwner c conn task = true := by
    intro conn task hown
    simp only [Memory.own, Bool.and_eq_true, decide_eq_true_iff] at hown
    simp [deadOwner, ← hown.1, hown.2]
  refine { hbase with gone := fun id hid => ?_ }
  rcases mem_append.mp hid with hid | hid
  · obtain ⟨w, hw, rfl⟩ := mem_map.mp hid
    obtain ⟨hw, htask⟩ := mem_filter.mp hw
    obtain ⟨htask, hdead⟩ := hown w.connIndex htask
    refine settled_of_waiting h.sound hw (if_pos hdead) fun s hmove => ?_
    exact absurd htask (Option.ite_none_right_eq_some.mp hmove).1.2
  rcases mem_append.mp hid with hid | hid
  · obtain ⟨s, hs, rfl⟩ := mem_map.mp hid
    obtain ⟨hs, htask⟩ := mem_filter.mp hs
    obtain ⟨htask, hdead⟩ := hown s.connIndex htask
    refine settled_of_submitted h.sound hs fun s' hsettle => ?_
    rw [settle, removeSubmitted, if_pos hdead] at hsettle
    cases hstate : s.state <;> simp only [hstate, htask, if_pos, reduceCtorEq] at hsettle
    cases hsettle
    rfl
  · exact hbase.gone id hid

theorem Inv.enqueue (c g n t : Nat) :
    Inv (m.record q (.enqueue c g n t)) (q.step (.enqueue c g n t)) := by
  have hadmitted : ∀ s ∈ (q.step (.enqueue c g n t)).submitted,
      s.state = .inFlight ∨ s.state = .abandoned → s.id ∈ m.admitted :=
    fun s hs hstate => (admitted_step h hs hstate).resolve_right nofun
  rw [Memory.record, SendCapacityQueue.enqueue]
  rcases step_enqueue q c g n t with ⟨heq, hlt⟩ | ⟨hlt, heq⟩
  · rw [if_neg hlt, heq]
    exact h
  · rw [if_pos hlt]
    refine h.carry (e := .enqueue c g n t) ?_ hadmitted
    rw [heq, h.issued, range_succ]

theorem Inv.turn (id n : Nat) : Inv (m.record q (.turn id n)) (q.step (.turn id n)) := by
  rw [Memory.record]
  split
  · rename_i hturn
    obtain ⟨⟨w, hw, rfl⟩, hle⟩ := turn_le h.sound hturn
    refine { h with ordered := ?_, granted := fun id hid => ?_ }
    · refine pairwise_append.mpr ⟨h.ordered, pairwise_singleton _ _, fun a ha b hb => ?_⟩
      rw [mem_singleton.mp hb]
      exact (h.granted a ha).2 w hw
    · rcases mem_append.mp hid with hid | hid
      · exact h.granted id hid
      · rw [mem_singleton.mp hid]
        exact ⟨h.sound.lt_of_waiting hw, hle⟩
  · exact h

theorem Inv.markSubmitted (id : Nat) :
    Inv (m.record q (.markSubmitted id)) (q.step (.markSubmitted id)) := by
  have hissued : m.issued = range (q.step (.markSubmitted id)).nextId := by
    rw [h.issued, (step_shape h.sound rfl).nextId]
  rw [Memory.record]
  split
  · refine h.carry (e := .markSubmitted id) hissued fun s hs hstate => ?_
    rcases admitted_step h hs hstate with hmem | ⟨heq, -⟩
    · exact mem_cons_of_mem _ hmem
    · cases heq
      exact mem_cons_self
  · rename_i hnone
    refine h.carry (e := .markSubmitted id) hissued fun s hs hstate => ?_
    refine (admitted_step h hs hstate).resolve_right fun hsub => hnone ?_
    obtain ⟨heq, w, hw, hid⟩ := hsub
    cases heq
    exact any_eq_true.mpr ⟨w, hw, decide_eq_true hid⟩

theorem Inv.step (e : Event) : Inv (m.record q e) (q.step e) := by
  cases e with
  | enqueue c g n t => exact h.enqueue c g n t
  | setOwner id t => exact h.carry_of_quiet rfl nofun
  | turn id n => exact h.turn id n
  | markSubmitted id => exact h.markSubmitted id
  | complete id r => exact h.complete id r
  | takeResult id => exact h.takeResult id
  | cancel id => exact h.cancel id
  | headReady n => exact h
  | removeConnection c => exact h.removeConnection c
  | failWaiting c g kind msg => exact h.carry_of_quiet rfl nofun

end

end

/-! ## The queue in a run -/

variable (events : List Event)

/-- The calls of a worker, from an empty queue. -/
def watch : Memory × SendCapacityQueue :=
  Machine.run (Machine.withHistory step Memory.record) (.start, .new) events

theorem inv_watch : Inv (watch events).1 (watch events).2 := by
  have hstart : Inv .start .new :=
    { sound := ⟨.nil, nodup_nil, nofun⟩
      issued := rfl
      ordered := .nil
      granted := nofun
      admitted := nofun
      answer := nofun
      takenOnce := nodup_nil
      taken := nofun
      gone := nofun }
  rw [watch]
  exact Machine.run_invariant (P := fun p : Memory × SendCapacityQueue => Inv p.1 p.2) hstart
    fun x _ h => h.step x.2

/-- What the queue guarantees, given what an observer has seen so far. -/
structure Correct (m : Memory) (q : SendCapacityQueue) : Prop where
  /-- No number is used twice, and numbers are given in the order of the calls. -/
  idsOnce : m.issued.Nodup ∧ m.issued.Pairwise (· < ·)
  /-- Turns are granted in the order of the numbers, and only to the oldest that waits. -/
  turns : m.granted.Pairwise (· ≤ ·) ∧ ∀ id n, q.turn id n = true →
    (∃ w ∈ q.waiting, w.id = id) ∧ (∀ w ∈ q.waiting, id ≤ w.id) ∧ id ∉ m.gone
  /-- Whatever call comes next, a new head is woken, or it has just come to an empty queue. -/
  heads : ∀ e w, (q.step e).waiting.head? = some w →
    (∀ v, q.waiting.head? = some v → v.id ≠ w.id) →
    w.taskId ∈ q.wakes e ∨ q.waiting = [] ∧ ∃ c g n, e = .enqueue c g n w.taskId
  /-- No result is taken twice. -/
  takenOnce : (m.taken.map Prod.fst).Nodup
  /-- What the driver reported is what is taken, even if the send had been aborted before. -/
  overrides : (∀ x ∈ m.taken, ∀ r, m.answer x.1 = some r → x.2 = r) ∧
    ∀ s ∈ q.submitted, ∀ err, s.state = .aborted err → ∀ r,
      ((q.complete s.id r).1.takeResult s.id).2 = some r
  /-- A report comes too late for a result that was taken. -/
  late : ∀ x ∈ m.taken, ∀ r, q.complete x.1 r = (q, none)
  /-- Of an operation without a future there is at most the mark that it was abandoned. -/
  gone : ∀ id ∈ m.gone, (∀ w ∈ q.waiting, w.id ≠ id) ∧
    ∀ s ∈ q.submitted, s.id = id → s.state = .abandoned
  /-- Such a mark stands for an operation that the driver has and has not reported, and goes with
  the report or with the connection. -/
  marks : ∀ s ∈ q.submitted, s.state = .abandoned → s.id ∈ m.admitted ∧ m.answer s.id = none ∧
    (∀ r, s.id ∉ (q.complete s.id r).1.ids) ∧ s.id ∉ (q.removeConnection s.connIndex).1.ids

variable {q : SendCapacityQueue}

/-- An operation that is settled, and not in any state, has no entry. -/
theorem Settled.not_mem_ids {id : Nat} (h : Settled q (fun _ => False) id) : id ∉ q.ids := by
  intro hid
  rcases mem_append.mp hid with hid | hid
  · obtain ⟨w, hw, rfl⟩ := mem_map.mp hid
    exact h.waiting w hw rfl
  · obtain ⟨s, hs, rfl⟩ := mem_map.mp hid
    exact h.submitted s hs rfl

theorem complete_of_settled {id : Nat} (h : Settled q (fun _ => False) id) (r : IoResult) :
    q.complete id r = (q, none) := by
  have hnone : q.submitted.findIdx? (fun s => decide (s.id = id)) = none :=
    findIdx?_eq_none_iff.mpr fun s hs => decide_eq_false fun heq => h.submitted s hs heq
  rw [complete, hnone]

/-- A result that is there is taken. -/
theorem takeResult_of_mem (h : Sound q) {r : IoResult} (hs : s ∈ q.submitted)
    (hr : s.state.result = some r) : (q.takeResult s.id).2 = some r := by
  rw [takeResult]
  cases hpos : q.submitted.findIdx? (fun t => t.id = s.id && t.state.result.isSome) with
  | none =>
    have := findIdx?_eq_none_iff.mp hpos s hs
    rw [decide_eq_true rfl, hr] at this
    cases this
  | some pos =>
    obtain ⟨t, ht, hfound⟩ := getElem?_of_findIdx? hpos
    rw [Bool.and_eq_true, decide_eq_true_iff] at hfound
    dsimp only
    rw [ht, eq_of_id_submitted h (mem_of_getElem? ht) hs hfound.1]
    exact hr

theorem takeResult_complete (h : Sound q) {err : IoError} (hs : s ∈ q.submitted)
    (hstate : s.state = .aborted err) (r : IoResult) :
    ((q.complete s.id r).1.takeResult s.id).2 = some r := by
  have hshape := shape_complete h s.id r
  have hdone : settle (.complete s.id r) s = some { s with state := .done r } := by
    rw [settle, if_pos rfl, hstate]
  exact takeResult_of_mem (hshape.sound h) (s := { s with state := .done r })
    (hshape.mem_submitted.mpr (.inl ⟨s, hs, hdone⟩)) rfl

/-- **The admission queue.**  In every run, whatever the order of the calls. -/
theorem queue_correct : Correct (watch events).1 (watch events).2 := by
  have h := inv_watch events
  generalize (watch events).1 = m at h ⊢
  generalize (watch events).2 = q at h ⊢
  refine
    { idsOnce := ?_
      turns := ⟨h.ordered, fun id n hturn => ?_⟩
      heads := fun e w hhead hnew => promoted h.sound hhead hnew
      takenOnce := h.takenOnce
      overrides := ⟨fun x hx => (h.taken x hx).2, fun s hs err hstate r =>
        takeResult_complete h.sound hs hstate r⟩
      late := fun x hx r => complete_of_settled (h.taken x hx).1 r
      gone := fun id hid => ⟨(h.gone id hid).waiting, (h.gone id hid).submitted⟩
      marks := fun s hs hstate => ⟨h.admitted s hs (.inr hstate), ?_, fun r => ?_, ?_⟩ }
  · rw [h.issued]
    exact ⟨nodup_range, pairwise_lt_range⟩
  · obtain ⟨⟨w, hw, rfl⟩, hle⟩ := turn_le h.sound hturn
    exact ⟨⟨w, hw, rfl⟩, hle, fun hgone => (h.gone w.id hgone).waiting w hw rfl⟩
  · cases hanswer : m.answer s.id with
    | none => rfl
    | some r =>
      have := (h.answer s.id r hanswer).submitted s hs rfl
      rw [hstate] at this
      cases this
  · refine (settled_of_submitted h.sound (e := .complete s.id r) hs ?_).not_mem_ids
    intro s' hsettle
    rw [settle, if_pos rfl, hstate] at hsettle
    cases hsettle
  · refine (settled_of_submitted h.sound (e := .removeConnection s.connIndex) hs ?_).not_mem_ids
    intro s' hsettle
    have hdead : deadOwner s.connIndex s.connIndex s.taskId = true := by
      rw [deadOwner, decide_eq_true rfl, Bool.true_or]
    rw [settle, removeSubmitted, if_pos hdead, hstate] at hsettle
    cases hsettle

/-- A send is submitted and its future is dropped: an entry remains. -/
theorem dropped_send_leaves_mark :
    (watch [.enqueue 1 0 1 7, .markSubmitted 0, .cancel 0]).1.gone = [0] ∧
      (watch [.enqueue 1 0 1 7, .markSubmitted 0, .cancel 0]).2.ids = [0] := by
  decide

end SendCapacityQueue
end Ringline.Runtime.SendCapacity
