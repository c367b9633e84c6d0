import Ringline.Runtime.Tasks

/-!
# The tasks of the mio event loop

The executor of a worker has two kinds of tasks: one for each connection that was accepted, in a
slab that is indexed by the connection, and standalone tasks in a slab with a free list.  Both kinds
share one ready queue, where the bit `STANDALONE_BIT` of an entry tells them apart.

A task is woken in two ways.  Whoever has the executor calls `wake_task`, which makes a parked task
ready and appends it to the ready queue, or sets a flag if the task is just being polled.  A `Waker`
has no access to the executor.  It appends the task to a thread-local queue, and `collect_wakeups`
calls `wake_task` for each entry once the pass is over.

A pass of `poll_ready_tasks` walks through the ready queue, which grows meanwhile.  A poll is two
steps here, `pollNext` and `finish`, with anything between them that a future can do.  What
`remove_connection` wakes are steps of their own after it.  Futures are numbered as they are made.
-/

set_option autoImplicit false

namespace Ringline.Mio

open Ringline.Runtime (TaskSlot StandaloneTaskSlab Pass Outcome)

/-- An entry of the ready queue. -/
inductive RawId where
  | conn (index : Nat)
  | standalone (index : Nat)
deriving DecidableEq

/-! ## The slabs -/

/-- `TaskSlab`. -/
structure TaskSlab (F : Type) where
  tasks : List (TaskSlot F)

namespace TaskSlab

variable {F : Type}

def new (maxConnections : Nat) : TaskSlab F := ⟨List.replicate maxConnections .empty⟩

variable (s : TaskSlab F)

/-- `TaskSlab::spawn`. -/
def spawn (conn : Nat) (future : F) : TaskSlab F :=
  ⟨s.tasks.set conn (.ready future)⟩

/-- `TaskSlab::take_ready`. -/
def takeReady (conn : Nat) : Option (TaskSlab F × F) :=
  match s.tasks[conn]? with
  | some (.ready future) => some (⟨s.tasks.set conn .polling⟩, future)
  | _ => none

/-- `TaskSlab::park`. -/
def park (conn : Nat) (future : F) : TaskSlab F :=
  ⟨s.tasks.set conn (.parked future)⟩

/-- `TaskSlab::wake`. -/
def wake (conn : Nat) : TaskSlab F × Bool :=
  match s.tasks[conn]? with
  | some (.parked future) => (⟨s.tasks.set conn (.ready future)⟩, true)
  | _ => (s, false)

/-- `TaskSlab::remove`. -/
def remove (conn : Nat) : TaskSlab F := ⟨s.tasks.set conn .empty⟩

end TaskSlab

/-- The two slabs of an executor. -/
structure Slabs where
  tasks : TaskSlab Nat
  standalone : StandaloneTaskSlab Nat

namespace Slabs

/-- The slot of a task. -/
def slot (s : Slabs) : RawId → Option (TaskSlot Nat)
  | .conn c => s.tasks.tasks[c]?
  | .standalone idx => s.standalone.tasks[idx]?

def takeReady (s : Slabs) : RawId → Option (Slabs × Nat)
  | .conn c => (s.tasks.takeReady c).map fun p => ({ s with tasks := p.1 }, p.2)
  | .standalone idx => (s.standalone.takeReady idx).map fun p => ({ s with standalone := p.1 }, p.2)

def park (s : Slabs) (id : RawId) (future : Nat) : Slabs :=
  match id with
  | .conn c => { s with tasks := s.tasks.park c future }
  | .standalone idx => { s with standalone := s.standalone.park idx future }

def wake (s : Slabs) : RawId → Slabs × Bool
  | .conn c => ({ s with tasks := (s.tasks.wake c).1 }, (s.tasks.wake c).2)
  | .standalone idx => ({ s with standalone := (s.standalone.wake idx).1 }, (s.standalone.wake idx).2)

def remove (s : Slabs) : RawId → Slabs
  | .conn c => { s with tasks := s.tasks.remove c }
  | .standalone idx => { s with standalone := s.standalone.remove idx }

end Slabs

/-! ## The executor -/

/-- `Executor`, as far as tasks are concerned. -/
structure Executor where
  slabs : Slabs
  readyQueue : List RawId
  /-- The thread-local `READY_QUEUE`, filled by wakers. -/
  wakerQueue : List RawId
  pollDedupConn : List Bool
  pollDedupStandalone : List Bool
  pass : Option Pass
  /-- The future that is polled, with its slot; `currently_polling`. -/
  polling : Option (RawId × Nat)
  wokenWhilePolling : Bool
  /-- The number of futures so far. -/
  spawned : Nat

inductive Event where
  /-- `spawn`, `spawn_with_handle`, or a future of the handler that `run` starts with. -/
  | spawn
  /-- `TaskId::cancel` or `JoinHandle::abort`, which know the slot. -/
  | cancel (idx : Nat)
  /-- `spawn_accept_task`. -/
  | accept (conn : Nat)
  /-- `Executor::remove_connection`, when a connection is torn down. -/
  | removeConnection (conn : Nat)
  /-- `Executor::wake_task`. -/
  | wakeTask (id : RawId)
  /-- `wake_by_ref_fn`. -/
  | wakerWake (id : RawId)
  | collectWakeups
  | beginPass
  | pollNext
  | finish (outcome : Outcome)
  | endPass

namespace Executor

def new (maxConnections capacity : Nat) : Executor where
  slabs := ⟨.new maxConnections, .new capacity⟩
  readyQueue := []
  wakerQueue := []
  pollDedupConn := List.replicate maxConnections false
  pollDedupStandalone := List.replicate capacity false
  pass := none
  polling := none
  wokenWhilePolling := false
  spawned := 0

def spawn (x : Executor) : Executor :=
  match x.slabs.standalone.spawn x.spawned with
  | none => x
  | some (slab, idx) =>
    { x with
      slabs := { x.slabs with standalone := slab }
      readyQueue := x.readyQueue ++ [.standalone idx]
      spawned := x.spawned + 1 }

variable (x : Executor)

/-- `spawn_accept_task`.  Connections are accepted outside of a pass. -/
def accept (conn : Nat) : Executor :=
  match x.pass with
  | some _ => x
  | none =>
    { x with
      slabs := { x.slabs with tasks := x.slabs.tasks.spawn conn x.spawned }
      readyQueue := x.readyQueue ++ [.conn conn]
      spawned := x.spawned + 1 }

/-- The task is taken out of the slab. -/
def remove (x : Executor) (id : RawId) : Executor := { x with slabs := x.slabs.remove id }

/-- `Executor::wake_task`. -/
def wakeTask (id : RawId) : Executor :=
  if x.polling.map Prod.fst = some id then { x with wokenWhilePolling := true }
  else
    match x.slabs.wake id with
    | (slabs, true) => { x with slabs := slabs, readyQueue := x.readyQueue ++ [id] }
    | (slabs, false) => { x with slabs := slabs }

/-- `Executor::collect_wakeups`. -/
def collectWakeups : Executor :=
  x.wakerQueue.foldl wakeTask { x with wakerQueue := [] }

/-- The bit of a task in `poll_dedup_conn` or `poll_dedup_standalone`. -/
def dedup : RawId → Option Bool
  | .conn c => x.pollDedupConn[c]?
  | .standalone idx => x.pollDedupStandalone[idx]?

def setDedup (id : RawId) (bit : Bool) : Executor :=
  match id with
  | .conn c => { x with pollDedupConn := x.pollDedupConn.set c bit }
  | .standalone idx => { x with pollDedupStandalone := x.pollDedupStandalone.set idx bit }

/-- Take the future out of its slot, if it is ready. -/
def startPoll (id : RawId) : Executor :=
  match x.slabs.takeReady id with
  | none => x
  | some (slabs, future) =>
    { x with slabs := slabs, polling := some (id, future), wokenWhilePolling := false }

/-- An iteration of the loop of `poll_ready_tasks`, up to the poll. -/
def pollNext : Executor :=
  match x.pass, x.polling with
  | some p, none =>
    match x.readyQueue[p.cursor]? with
    | none => x
    | some id =>
      let x := { x with pass := some { p with cursor := p.cursor + 1 } }
      if p.cursor < p.initialLen then
        match x.dedup id with
        | some true => x
        | some false => (x.setDedup id true).startPoll id
        | none => x.startPoll id
      else x.startPoll id
  | _, _ => x

/-- The rest of the iteration. -/
def finish (outcome : Outcome) : Executor :=
  match x.polling with
  | none => x
  | some (id, future) =>
    let x := { x with polling := none }
    match outcome with
    | .ready | .panic => x.remove id
    | .pending =>
      let x := { x with slabs := x.slabs.park id future }
      if x.wokenWhilePolling then x.wakeTask id else x

/-- The end of `poll_ready_tasks`. -/
def endPass : Executor :=
  match x.pass, x.polling with
  | some p, none =>
    if x.readyQueue.length ≤ p.cursor then
      let x := (x.readyQueue.take p.initialLen).foldl (fun x id => x.setDedup id false) x
      collectWakeups { x with readyQueue := [], pass := none }
    else x
  | _, _ => x

def step : Event → Executor
  | .spawn => x.spawn
  | .cancel idx => x.remove (.standalone idx)
  | .accept conn => x.accept conn
  | .removeConnection conn =>
    match x.pass with
    | none => x.remove (.conn conn)
    | some _ => x
  | .wakeTask id => x.wakeTask id
  | .wakerWake id => { x with wakerQueue := x.wakerQueue ++ [id] }
  | .collectWakeups =>
    match x.pass with
    | none => x.collectWakeups
    | some _ => x
  | .beginPass =>
    match x.pass with
    | none => { x with pass := some ⟨0, x.readyQueue.length⟩ }
    | some _ => x
  | .pollNext => x.pollNext
  | .finish outcome => x.finish outcome
  | .endPass => x.endPass

end Executor

/-! ## What the slabs do with a slot -/

namespace Slabs

variable {s s' : Slabs} {id j : RawId} {future : Nat}

theorem getElem?_set_eq {α : Type} (l : List α) (i j : Nat) (a : α) :
    (l.set i a)[j]? = if j = i then l[j]?.map fun _ => a else l[j]? := by
  simp only [List.getElem?_set', eq_comm (a := i)]
  rfl

theorem takeReady_eq_none (h : s.takeReady id = none) : s.slot id ≠ some (.ready future) := by
  intro hready
  cases id with
  | conn c =>
    rw [slot] at hready
    rw [takeReady, TaskSlab.takeReady, hready] at h
    cases h
  | standalone idx =>
    rw [slot] at hready
    rw [takeReady, StandaloneTaskSlab.takeReady, hready] at h
    cases h

section

variable (s : Slabs)

/-- A slot of the one slab is set. -/
theorem slot_set_tasks (c : Nat) (a : TaskSlot Nat) (j : RawId) :
    slot { s with tasks := ⟨s.tasks.tasks.set c a⟩ } j =
      if j = .conn c then (s.slot j).map fun _ => a else s.slot j := by
  cases j with
  | conn d => simpa [slot] using getElem?_set_eq s.tasks.tasks c d a
  | standalone idx => rw [if_neg nofun]; rfl

/-- A slot of the other slab is set. -/
theorem slot_set_standalone (idx : Nat) (a : TaskSlot Nat) (free : List Nat) (j : RawId) :
    slot { s with standalone := ⟨s.standalone.tasks.set idx a, free⟩ } j =
      if j = .standalone idx then (s.slot j).map fun _ => a else s.slot j := by
  cases j with
  | conn d => rw [if_neg nofun]; rfl
  | standalone k => simpa [slot] using getElem?_set_eq s.standalone.tasks idx k a

theorem slot_park (id : RawId) (future : Nat) (j : RawId) :
    (s.park id future).slot j = if j = id then (s.slot j).map fun _ => .parked future else s.slot j :=
  match id with
  | .conn c => s.slot_set_tasks c _ j
  | .standalone idx => s.slot_set_standalone idx _ _ j

theorem slot_remove (id : RawId) (j : RawId) :
    (s.remove id).slot j = if j = id then (s.slot j).map fun _ => .empty else s.slot j := by
  cases id with
  | conn c => exact s.slot_set_tasks c _ j
  | standalone idx =>
    rw [remove, StandaloneTaskSlab.remove]
    split
    · rename_i h
      split
      · rename_i hj
        rw [hj, slot, h]
        rfl
      · rfl
    · rename_i h
      split
      · rename_i hj
        rw [hj, slot, h]
        rfl
      · rfl
    · exact s.slot_set_standalone idx _ _ j

/-- What `wake` does: a parked future is ready now, and nothing else happens. -/
theorem wake_cases (id : RawId) :
    (∃ s' f, s.wake id = (s', true) ∧ s.slot id = some (.parked f) ∧
      ∀ j, s'.slot j = if j = id then some (.ready f) else s.slot j) ∨
    (s.wake id = (s, false) ∧ ∀ f, s.slot id ≠ some (.parked f)) := by
  have hmap : ∀ {j f}, s.slot id = some (.parked f) →
      (if j = id then (s.slot j).map fun _ => TaskSlot.ready f else s.slot j) =
        if j = id then some (.ready f) else s.slot j := by
    intro j f hparked
    split
    · rename_i hj
      rw [hj, hparked]
      rfl
    · rfl
  cases id with
  | conn c =>
    rw [wake, TaskSlab.wake]
    split
    · rename_i f hparked
      exact .inl ⟨_, f, rfl, hparked, fun j => (s.slot_set_tasks c _ j).trans (hmap hparked)⟩
    · rename_i hnot
      exact .inr ⟨rfl, fun f hparked => hnot f hparked⟩
  | standalone idx =>
    rw [wake, StandaloneTaskSlab.wake]
    split
    · rename_i f hparked
      exact .inl ⟨_, f, rfl, hparked,
        fun j => (s.slot_set_standalone idx _ _ j).trans (hmap hparked)⟩
    · rename_i hnot
      exact .inr ⟨rfl, fun f hparked => hnot f hparked⟩

end

/-- A future that is taken was ready. -/
theorem takeReady_eq_some (h : s.takeReady id = some (s', future)) :
    s.slot id = some (.ready future) ∧
      ∀ j, s'.slot j = if j = id then some .polling else s.slot j := by
  have hmap : ∀ {j}, s.slot id = some (.ready future) →
      (if j = id then (s.slot j).map fun _ => TaskSlot.polling else s.slot j) =
        if j = id then some .polling else s.slot j := by
    intro j hready
    split
    · rename_i hj
      rw [hj, hready]
      rfl
    · rfl
  cases id with
  | conn c =>
    rw [takeReady, TaskSlab.takeReady] at h
    split at h
    · rename_i f hready
      cases (Option.some_inj.mp h)
      exact ⟨hready, fun j => (s.slot_set_tasks c _ j).trans (hmap hready)⟩
    · cases h
  | standalone idx =>
    rw [takeReady, StandaloneTaskSlab.takeReady] at h
    split at h
    · rename_i f hready
      cases (Option.some_inj.mp h)
      exact ⟨hready, fun j => (s.slot_set_standalone idx _ _ j).trans (hmap hready)⟩
    · cases h

theorem slot_spawn {slab : StandaloneTaskSlab Nat} {idx : Nat}
    (h : s.standalone.spawn future = some (slab, idx)) (j : RawId) :
    slot { s with standalone := slab } j =
      if j = .standalone idx then (s.slot j).map fun _ => .ready future else s.slot j := by
  rw [StandaloneTaskSlab.spawn] at h
  split at h
  · cases h
  · cases (Option.some_inj.mp h)
    exact s.slot_set_standalone _ _ _ j

end Slabs
end Ringline.Mio
