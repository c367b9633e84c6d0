import Ringline.Base.FreeStack
import Ringline.Base.Run

/-!
# Standalone tasks

`spawn` puts a future into a slab of fixed capacity and returns the index of its slot.  The executor
keeps a queue of indices that may be ready.  A pass of `poll_ready_tasks` walks through the queue,
takes the future out of each slot that is ready, polls it, and then parks it again or frees the slot.

While a future is polled, it can do anything a task can do: spawn and cancel tasks, also itself, and
wake them.  So a poll is two steps here, `pollNext` and `finish`, with any other steps between them.
Connection tasks and the callbacks of the handler can do the same, at any time when no standalone
task is polled.  Their own entries in the queue do not touch the slab and are left out.

Futures are numbered in the order in which they were spawned.  `ids` are the indices that `spawn` has
returned, which is all that a `TaskId` or a `JoinHandle` contains; `cancel k` is `TaskId::cancel` or
`JoinHandle::abort` with the one that belongs to future `k`.
-/

set_option autoImplicit false

namespace Ringline.Runtime

/-! ## The slab -/

/-- `TaskSlot`. -/
inductive TaskSlot (F : Type) where
  | empty
  /-- The future is out of the slab, being polled. -/
  | polling
  | parked (future : F)
  | ready (future : F)
deriving DecidableEq

/-- `StandaloneTaskSlab`, with the top of the free list first. -/
structure StandaloneTaskSlab (F : Type) where
  tasks : List (TaskSlot F)
  freeList : List Nat

namespace StandaloneTaskSlab

variable {F : Type}

/-- `StandaloneTaskSlab::new`. -/
def new (capacity : Nat) : StandaloneTaskSlab F where
  tasks := List.replicate capacity .empty
  freeList := (List.range capacity).reverse

variable (s : StandaloneTaskSlab F)

/-- `StandaloneTaskSlab::spawn`. -/
def spawn (future : F) : Option (StandaloneTaskSlab F × Nat) :=
  match s.freeList with
  | [] => none
  | idx :: rest => some (⟨s.tasks.set idx (.ready future), rest⟩, idx)

/-- `StandaloneTaskSlab::take_ready`. -/
def takeReady (idx : Nat) : Option (StandaloneTaskSlab F × F) :=
  match s.tasks[idx]? with
  | some (.ready future) => some ({ s with tasks := s.tasks.set idx .polling }, future)
  | _ => none

/-- `StandaloneTaskSlab::park`. -/
def park (idx : Nat) (future : F) : StandaloneTaskSlab F :=
  { s with tasks := s.tasks.set idx (.parked future) }

/-- `StandaloneTaskSlab::wake`. -/
def wake (idx : Nat) : StandaloneTaskSlab F × Bool :=
  match s.tasks[idx]? with
  | some (.parked future) => ({ s with tasks := s.tasks.set idx (.ready future) }, true)
  | _ => (s, false)

/-- `StandaloneTaskSlab::remove`. -/
def remove (idx : Nat) : StandaloneTaskSlab F :=
  match s.tasks[idx]? with
  | none | some .empty => s
  | some _ => ⟨s.tasks.set idx .empty, idx :: s.freeList⟩

end StandaloneTaskSlab

/-! ## The executor -/

/-- A pass of `poll_ready_tasks`: the next entry of the queue, and how many were there at the
start. -/
structure Pass where
  cursor : Nat
  initialLen : Nat

/-- The executor, as far as standalone tasks are concerned. -/
structure Executor where
  standaloneSlab : StandaloneTaskSlab Nat
  readyQueue : List Nat
  /-- The thread-local `READY_QUEUE`, filled by wakers. -/
  wakerQueue : List Nat
  pollDedupStandalone : List Bool
  pass : Option Pass
  /-- The future that is polled, with its slot; `currently_polling`. -/
  polling : Option (Nat × Nat)
  wokenWhilePolling : Bool
  /-- The indices that `spawn` has returned. -/
  ids : List Nat

/-- How a poll ends. -/
inductive Outcome where
  | ready
  | pending
  | panic

inductive Event where
  /-- `spawn`, or `spawn_with_handle`. -/
  | spawn
  /-- `TaskId::cancel`, or `JoinHandle::abort`. -/
  | cancel (k : Nat)
  /-- `Executor::wake_task` on a standalone task. -/
  | wakeTask (idx : Nat)
  /-- A `Waker` of a standalone task. -/
  | wakerWake (idx : Nat)
  | collectWakeups
  | beginPass
  | pollNext
  | finish (outcome : Outcome)
  | endPass

namespace Executor

def new (capacity : Nat) : Executor where
  standaloneSlab := .new capacity
  readyQueue := []
  wakerQueue := []
  pollDedupStandalone := List.replicate capacity false
  pass := none
  polling := none
  wokenWhilePolling := false
  ids := []

/-- `spawn`: the future with the next number. -/
def spawn (x : Executor) : Executor :=
  match x.standaloneSlab.spawn x.ids.length with
  | none => x
  | some (slab, idx) =>
    { x with
      standaloneSlab := slab
      readyQueue := x.readyQueue ++ [idx]
      ids := x.ids ++ [idx] }

variable (x : Executor)

/-- `TaskId::cancel`. -/
def cancel (k : Nat) : Executor :=
  match x.ids[k]? with
  | none => x
  | some idx => { x with standaloneSlab := x.standaloneSlab.remove idx }

/-- `Executor::wake_task`. -/
def wakeTask (idx : Nat) : Executor :=
  if x.polling.map Prod.fst = some idx then { x with wokenWhilePolling := true }
  else
    match x.standaloneSlab.wake idx with
    | (slab, true) => { x with standaloneSlab := slab, readyQueue := x.readyQueue ++ [idx] }
    | (slab, false) => { x with standaloneSlab := slab }

/-- `Executor::collect_wakeups`. -/
def collectWakeups : Executor :=
  x.wakerQueue.foldl wakeTask { x with wakerQueue := [] }

/-- Take the future out of its slot, if it is ready. -/
def startPoll (idx : Nat) : Executor :=
  match x.standaloneSlab.takeReady idx with
  | none => x
  | some (slab, future) =>
    { x with standaloneSlab := slab, polling := some (idx, future), wokenWhilePolling := false }

/-- An iteration of the loop of `poll_ready_tasks`, up to the poll. -/
def pollNext : Executor :=
  match x.pass, x.polling with
  | some p, none =>
    match x.readyQueue[p.cursor]? with
    | none => x
    | some idx =>
      let x := { x with pass := some { p with cursor := p.cursor + 1 } }
      if p.cursor < p.initialLen ∧ idx < x.pollDedupStandalone.length then
        if x.pollDedupStandalone[idx]? = some true then x
        else { x with pollDedupStandalone := x.pollDedupStandalone.set idx true }.startPoll idx
      else x.startPoll idx
  | _, _ => x

/-- The rest of the iteration. -/
def finish (outcome : Outcome) : Executor :=
  match x.polling with
  | none => x
  | some (idx, future) =>
    let x := { x with polling := none }
    match outcome with
    | .ready | .panic => { x with standaloneSlab := x.standaloneSlab.remove idx }
    | .pending =>
      let x := { x with standaloneSlab := x.standaloneSlab.park idx future }
      if x.wokenWhilePolling then x.wakeTask idx else x

/-- The end of `poll_ready_tasks`. -/
def endPass : Executor :=
  match x.pass, x.polling with
  | some p, none =>
    if x.readyQueue.length ≤ p.cursor then
      collectWakeups { x with
        pollDedupStandalone := (x.readyQueue.take p.initialLen).foldl (·.set · false)
          x.pollDedupStandalone
        readyQueue := []
        pass := none }
    else x
  | _, _ => x

def step : Event → Executor
  | .spawn => x.spawn
  | .cancel k => x.cancel k
  | .wakeTask idx => x.wakeTask idx
  | .wakerWake idx => { x with wakerQueue := x.wakerQueue ++ [idx] }
  | .collectWakeups => x.collectWakeups
  | .beginPass =>
    match x.pass with
    | none => { x with pass := some ⟨0, x.readyQueue.length⟩ }
    | some _ => x
  | .pollNext => x.pollNext
  | .finish outcome => x.finish outcome
  | .endPass => x.endPass

end Executor
end Ringline.Runtime
