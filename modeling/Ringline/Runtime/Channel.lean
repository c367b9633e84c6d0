import Ringline.Base.Run
import Ringline.Base.Table

/-!
# The bounded channel

`ringline/src/runtime/channel.rs`, module `mpsc`: a queue of fixed capacity with several senders and one
receiver, all on one thread.  A `SendFuture` that finds the queue full puts the number of its task
behind the others in `send_waiters` and returns `Pending`.  Whoever takes a value out of the queue takes
the first task off that list and wakes it.

A sender is *parked* from the poll that returned `Pending` until it is polled to the end or dropped.
What is wanted is that no parked sender sleeps while there is room (`Prompt`).  The number of parked
senders that have been woken is to be at least the number of free places, as long as there are others
to wake (`Covered`).

* A sender that was woken and finds the queue full again does not go back to the list, because it
  remembers that it is registered.  Nobody will wake it any more (`overtaken_sender_sleeps`).
* A sender that takes a place before it is woken leaves its task on the list, and the wake-up that is
  meant for somebody else goes to it.

In runs without these two, and in which a task waits with one future at a time, the channel is prompt
(`parked_sender_woken`).  The values themselves are never lost or reordered (`received_in_order`).
-/

set_option autoImplicit false

namespace Ringline.Runtime.Mpsc

open List Function Machine Table

/-- `TrySendError`. -/
inductive TrySendError (T : Type) where
  | full (value : T)
  | disconnected (value : T)
deriving DecidableEq

/-- `TryRecvError`. -/
inductive TryRecvError where
  | empty
  | disconnected
deriving DecidableEq

/-- `SendError`. -/
structure SendError (T : Type) where
  value : T
deriving DecidableEq

/-- `Poll`. -/
inductive Poll (α : Type) where
  | ready (a : α)
  | pending
deriving DecidableEq

/-- `State`, with the count of the `Rc` that holds it. -/
structure State (T : Type) where
  queue : List T
  capacity : Nat
  recvWaiter : Option Nat
  sendWaiters : List Nat
  senderCount : Nat
  strongCount : Nat

/-- `SendFuture`. -/
structure SendFuture (T : Type) where
  value : Option T
  registered : Option Nat

/-- A channel, the futures that senders have made, and the tasks that it has woken. -/
structure Channel (T : Type) where
  state : State T
  futures : Table Nat (SendFuture T)
  wakes : List Nat

namespace Channel

variable {T : Type}

/-- `channel`. -/
def new (capacity : Nat) : Channel T where
  state :=
    { queue := []
      capacity := capacity
      recvWaiter := none
      sendWaiters := []
      senderCount := 1
      strongCount := 2 }
  futures := .empty
  wakes := []

variable (c : Channel T)

/-- `wake_waiter`. -/
def wakeWaiter (waiter : Option Nat) : Channel T :=
  { c with wakes := c.wakes ++ waiter.toList }

/-- The receiver has been dropped, as the senders see it. -/
def Disconnected : Prop := c.state.strongCount ≤ c.state.senderCount

instance (c : Channel T) : Decidable c.Disconnected :=
  inferInstanceAs (Decidable (c.state.strongCount ≤ c.state.senderCount))

/-- A value goes into the queue, and the receiver is woken. -/
def push (value : T) : Channel T :=
  { c with state := { c.state with
      queue := c.state.queue ++ [value]
      recvWaiter := none } }.wakeWaiter c.state.recvWaiter

/-- The first of the waiting senders is taken off the list and woken. -/
def popWaiter : Channel T :=
  { c with state := { c.state with
      sendWaiters := c.state.sendWaiters.tail } }.wakeWaiter c.state.sendWaiters.head?

/-- `Sender::try_send`. -/
def trySend (value : T) : Channel T × Except (TrySendError T) Unit :=
  if c.Disconnected then (c, .error (.disconnected value))
  else if c.state.capacity ≤ c.state.queue.length then (c, .error (.full value))
  else (c.push value, .ok ())

/-- `Sender::send`. -/
def send (k : Nat) (value : T) : Channel T :=
  { c with futures := c.futures.insert k ⟨some value, none⟩ }

/-- `SendFuture::poll`.  A future that has resolved is not polled again. -/
def pollSend (k task : Nat) : Channel T × Poll (Except (SendError T) Unit) :=
  match c.futures.get? k with
  | none | some ⟨none, _⟩ => (c, .pending)
  | some ⟨some value, registered⟩ =>
    if c.Disconnected then
      ({ c with futures := c.futures.insert k ⟨none, registered⟩ }, .ready (.error ⟨value⟩))
    else if c.state.queue.length < c.state.capacity then
      ({ c with futures := c.futures.insert k ⟨none, none⟩ }.push value, .ready (.ok ()))
    else if registered = some task then (c, .pending)
    else
      ({ c with
          state := { c.state with sendWaiters := c.state.sendWaiters ++ [task] }
          futures := c.futures.insert k ⟨some value, some task⟩ }, .pending)

/-- `SendFuture::drop`. -/
def dropSend (k : Nat) : Channel T :=
  match c.futures.get? k with
  | none => c
  | some f =>
    let c := { c with futures := c.futures.erase k }
    match f.registered with
    | none => c
    | some id =>
      if id ∈ c.state.sendWaiters then
        { c with state := { c.state with sendWaiters := c.state.sendWaiters.erase id } }
      else c.popWaiter

/-- A value is taken out of the queue. -/
def takeValue (rest : List T) : Channel T :=
  { c with state := { c.state with queue := rest } }.popWaiter

/-- `Receiver::try_recv`. -/
def tryRecv : Channel T × Except TryRecvError T :=
  match c.state.queue with
  | value :: rest => (c.takeValue rest, .ok value)
  | [] => if c.state.senderCount = 0 then (c, .error .disconnected) else (c, .error .empty)

/-- `RecvFuture::poll`. -/
def pollRecv (task : Nat) : Channel T × Poll (Option T) :=
  match c.state.queue with
  | value :: rest => (c.takeValue rest, .ready (some value))
  | [] =>
    if c.state.senderCount = 0 then (c, .ready none)
    else ({ c with state := { c.state with recvWaiter := some task } }, .pending)

/-- `Sender::clone`. -/
def cloneSender : Channel T :=
  { c with state := { c.state with
      senderCount := c.state.senderCount + 1
      strongCount := c.state.strongCount + 1 } }

/-- `Sender::drop`, of a sender that is there. -/
def dropSender : Channel T :=
  let left := { c with state := { c.state with
    senderCount := c.state.senderCount - 1
    strongCount := c.state.strongCount - 1 } }
  if left.state.senderCount = 0 then
    { left with state := { left.state with recvWaiter := none } }.wakeWaiter c.state.recvWaiter
  else left

/-- `Receiver::drop`. -/
def dropReceiver : Channel T where
  state := { c.state with sendWaiters := [], strongCount := c.state.strongCount - 1 }
  futures := c.futures
  wakes := c.wakes ++ c.state.sendWaiters

end Channel

/-! ## Runs -/

/-- What can happen to a channel. -/
inductive Event (T : Type) where
  | cloneSender
  | dropSender
  | dropReceiver
  | trySend (value : T)
  /-- `send` makes the future `k`. -/
  | send (k : Nat) (value : T)
  /-- Future `k` is polled by a task. -/
  | pollSend (k task : Nat)
  | dropSend (k : Nat)
  | tryRecv
  | pollRecv (task : Nat)

namespace Channel

variable {T : Type} (c : Channel T)

/-- A step.  What is not there cannot be dropped or used, and the number of a future is used once. -/
def step : Event T → Channel T
  | .cloneSender => if c.state.senderCount = 0 then c else c.cloneSender
  | .dropSender => if c.state.senderCount = 0 then c else c.dropSender
  | .dropReceiver => if c.Disconnected then c else c.dropReceiver
  | .trySend value => if c.state.senderCount = 0 then c else (c.trySend value).1
  | .send k value => if (c.futures.get? k).isSome then c else c.send k value
  | .pollSend k task => (c.pollSend k task).1
  | .dropSend k => c.dropSend k
  | .tryRecv => if c.Disconnected then c else c.tryRecv.1
  | .pollRecv task => if c.Disconnected then c else (c.pollRecv task).1

/-- The parked senders: the task by which a sender was polled last, and how many wake-ups there had been
at that time. -/
abbrev Parking := Nat → Option (Nat × Nat)

/-- Who is parked after a step. -/
def park (h : Parking) (c : Channel T) : Event T → Parking
  | .pollSend k task =>
    match c.futures.get? k with
    | none | some ⟨none, _⟩ => h
    | some ⟨some _, _⟩ =>
      match (c.pollSend k task).2 with
      | .pending => update h k (some (task, c.wakes.length))
      | .ready _ => update h k none
  | .dropSend k => update h k none
  | _ => h

/-- The sender is parked, and its task has been woken since. -/
def Woken (h : Parking) (c : Channel T) (k : Nat) : Prop :=
  ∃ t n, h k = some (t, n) ∧ t ∈ c.wakes.drop n

/-- Where there is room, or nobody to receive, one of the parked senders has been woken. -/
def Prompt (h : Parking) (c : Channel T) : Prop :=
  (c.state.queue.length < c.state.capacity ∨ c.Disconnected) → (∃ k, h k ≠ none) →
    ∃ k, Woken h c k

/-- A poll of a sender is *polite* if a sender that finds the queue full is new to it, with a task that
waits for nothing else in this channel, or still on the list, and a sender that finds room is not on
the list any more. -/
def Polite : Event T → Prop
  | .pollSend k task => ∀ value registered, c.futures.get? k = some ⟨some value, registered⟩ →
      ¬ c.Disconnected →
    (c.state.capacity ≤ c.state.queue.length →
      (registered = none ∧ ∀ j f, c.futures.get? j = some f → f.registered ≠ some task) ∨
        (registered = some task ∧ task ∈ c.state.sendWaiters)) ∧
    (c.state.queue.length < c.state.capacity →
      ∀ t, registered = some t → t ∉ c.state.sendWaiters)
  | _ => True

/-! ## The two lists -/

/-- The parked senders with their tasks: those in `ws` wait on the list, in this order, and those in `us`
have been woken. -/
structure Placed (h : Parking) (ws us : List (Nat × Nat)) (c : Channel T) : Prop where
  tasks : ((ws ++ us).map Prod.snd).Nodup
  parked : ∀ k t, (∃ n, h k = some (t, n)) ↔ (k, t) ∈ ws ++ us
  waiters : c.state.sendWaiters = ws.map Prod.snd
  woken : ∀ x ∈ us, Woken h c x.1
  since : ∀ k t n, h k = some (t, n) → n ≤ c.wakes.length
  future : ∀ k t n, h k = some (t, n) → ∃ v, c.futures.get? k = some ⟨some v, some t⟩
  idle : ∀ k f, c.futures.get? k = some f → h k = none → f.registered = none ∨ c.Disconnected
  gone : c.Disconnected → ws = []

/-- As long as there is somebody to wake, as many have been woken as there are free places. -/
def Covered (ws us : List (Nat × Nat)) (c : Channel T) : Prop :=
  ws ≠ [] → c.state.capacity ≤ c.state.queue.length + us.length

section

variable {h : Parking} {ws us : List (Nat × Nat)} {c c' : Channel T} {k n t task : Nat}

variable {more : List Nat}

theorem Woken.mono (hw : Woken h c k) (hmore : c'.wakes = c.wakes ++ more) : Woken h c' k := by
  obtain ⟨t, n, hk, ht⟩ := hw
  refine ⟨t, n, hk, ?_⟩
  rw [hmore, drop_append]
  exact mem_append_left _ ht

/-- A sender whose task is woken. -/
theorem woken_of_mem (hk : h k = some (t, n)) (hn : n ≤ c.wakes.length)
    (hmore : c'.wakes = c.wakes ++ more) (ht : t ∈ more) : Woken h c' k := by
  refine ⟨t, n, hk, ?_⟩
  rw [hmore, drop_append_of_le_length hn]
  exact mem_append_right _ ht

theorem Placed.prompt (hp : Placed h ws us c) (hc : Covered ws us c) : Prompt h c := by
  rintro hroom ⟨k, hk⟩
  obtain ⟨⟨t, n⟩, hk⟩ := Option.ne_none_iff_exists'.mp hk
  rcases us with _ | ⟨x, us⟩
  · have hmem : (k, t) ∈ ws := by simpa using (hp.parked k t).mp ⟨n, hk⟩
    have hws := ne_nil_of_mem hmem
    have hfull := hc hws
    rw [length_nil, Nat.add_zero] at hfull
    rcases hroom with hroom | hgone
    · omega
    · exact absurd (hp.gone hgone) hws
  · exact ⟨x.1, hp.woken x mem_cons_self⟩

/-- Nothing changes for the senders. -/
theorem Placed.congr (hp : Placed h ws us c) (hwaiters : c'.state.sendWaiters = c.state.sendWaiters)
    (hfutures : c'.futures = c.futures) (hmore : c'.wakes = c.wakes ++ more)
    (hgone : c'.Disconnected ↔ c.Disconnected) : Placed h ws us c' where
  tasks := hp.tasks
  parked := hp.parked
  waiters := hwaiters.trans hp.waiters
  woken x hx := (hp.woken x hx).mono hmore
  since k t n hk := by
    have hn := hp.since k t n hk
    rw [hmore, length_append]
    omega
  future k t n hk := hfutures ▸ hp.future k t n hk
  idle k f hf hk := (hp.idle k f (hfutures ▸ hf) hk).imp_right hgone.mpr
  gone hd := hp.gone (hgone.mp hd)

theorem Placed.push (hp : Placed h ws us c) (value : T) : Placed h ws us (c.push value) :=
  hp.congr rfl rfl rfl Iff.rfl

/-- The first of the waiting senders is woken. -/
theorem Placed.popWaiter {x : Nat × Nat} (hp : Placed h (x :: ws) us c) :
    Placed h ws (us ++ [x]) c.popWaiter := by
  have hperm : (ws ++ (us ++ [x])).Perm (x :: ws ++ us) := by
    rw [← append_assoc]
    exact perm_append_singleton x (ws ++ us)
  have hhead : c.state.sendWaiters.head? = some x.2 := by rw [hp.waiters]; rfl
  have hwakes : c.popWaiter.wakes = c.wakes ++ [x.2] := by
    rw [Channel.popWaiter, wakeWaiter, hhead]
    rfl
  obtain ⟨n, hx⟩ := (hp.parked x.1 x.2).mpr mem_cons_self
  refine ⟨(hperm.map Prod.snd).nodup_iff.mpr hp.tasks, fun k t => ?_, ?_, ?_, fun k t n hk => ?_,
    hp.future, hp.idle, fun hd => by cases hp.gone hd⟩
  · rw [hp.parked k t, hperm.mem_iff]
  · rw [Channel.popWaiter, wakeWaiter]
    rw [hp.waiters]
    rfl
  · refine forall_mem_append.mpr ⟨fun y hy => (hp.woken y hy).mono hwakes, ?_⟩
    exact forall_mem_singleton.mpr
      (woken_of_mem hx (hp.since x.1 x.2 n hx) hwakes (mem_singleton_self _))
  · have hn := hp.since k t n hk
    rw [hwakes, length_append]
    omega

theorem popWaiter_of_nil (hnil : c.state.sendWaiters = []) : c.popWaiter = c := by
  rw [Channel.popWaiter, wakeWaiter, hnil]
  dsimp only [tail, head?, Option.toList]
  rw [append_nil, ← hnil]

/-! ## Senders that come and go -/

section

variable (hp : Placed h ws us c)

include hp

theorem Placed.nodup : (ws ++ us).Nodup := hp.tasks.of_map _

theorem Placed.key_unique {x y : Nat × Nat} (hx : x ∈ ws ++ us) (hy : y ∈ ws ++ us)
    (hxy : x.1 = y.1) : x = y := by
  obtain ⟨n, hn⟩ := (hp.parked x.1 x.2).mpr hx
  obtain ⟨m, hm⟩ := (hp.parked y.1 y.2).mpr hy
  rw [hxy, hm] at hn
  exact Prod.ext hxy (Prod.mk.inj (Option.some.inj hn)).1.symm

theorem Placed.not_mem (hk : h k = none) : ∀ x ∈ ws ++ us, x.1 ≠ k := by
  rintro x hx rfl
  obtain ⟨n, hn⟩ := (hp.parked x.1 x.2).mpr hx
  cases hk.symm.trans hn

/-- A sender that has no task is not parked. -/
theorem Placed.not_parked (hf : ∀ v t, c.futures.get? k ≠ some ⟨some v, some t⟩) : h k = none := by
  by_contra hk
  obtain ⟨⟨t, n⟩, hk⟩ := Option.ne_none_iff_exists'.mp hk
  obtain ⟨v, hv⟩ := hp.future k t n hk
  exact hf v t hv

/-- A parked sender waits if its task is on the list. -/
theorem Placed.waits (hk : h k = some (t, n)) (ht : t ∈ c.state.sendWaiters) : (k, t) ∈ ws := by
  rw [hp.waiters] at ht
  obtain ⟨⟨j, t⟩, hx, rfl⟩ := mem_map.mp ht
  have hmem := (hp.parked k _).mp ⟨n, hk⟩
  exact inj_on_of_nodup_map hp.tasks (mem_append_left _ hx) hmem rfl ▸ hx

/-- A sender that waits has not been woken. -/
theorem Placed.not_woken (hk : (k, t) ∈ ws) : ∀ x ∈ us, x.1 ≠ k := by
  intro x hx hxk
  have hx' := hp.key_unique (mem_append_right _ hx) (mem_append_left _ hk) hxk
  rw [hx'] at hx
  exact disjoint_of_nodup_append hp.nodup hk hx

/-- A sender is on one of the lists only, and once. -/
theorem Placed.length_others (k : Nat) : us.length ≤ (us.filter (·.1 ≠ k)).length + 1 := by
  have hself : (us.filter (·.1 = k)).length ≤ 1 := by
    have hnodup : (us.filter (·.1 = k)).Nodup := (nodup_append.mp hp.nodup).2.1.filter _
    have hkey : ∀ x ∈ us.filter (·.1 = k), x ∈ us ∧ x.1 = k := by
      intro x hx
      simpa using hx
    rcases hfilter : us.filter (·.1 = k) with _ | ⟨x, _ | ⟨y, rest⟩⟩
    · simp [hfilter]
    · simp [hfilter]
    · rw [hfilter] at hnodup hkey
      obtain ⟨hx, hxk⟩ := hkey x (by simp)
      obtain ⟨hy, hyk⟩ := hkey y (by simp)
      have hxy := hp.key_unique (mem_append_right ws hx) (mem_append_right ws hy)
        (hxk.trans hyk.symm)
      simp [hxy] at hnodup
  have hsum := length_eq_length_filter_add (l := us) (fun x => decide (x.1 = k))
  have hnot : us.filter (fun x => !decide (x.1 = k)) = us.filter (·.1 ≠ k) := by simp
  rw [hnot] at hsum
  omega

/-- The sender `k` is not parked any more. -/
theorem Placed.leave (c' : Channel T) (k : Nat)
    (hwaiters : c'.state.sendWaiters = (ws.filter (·.1 ≠ k)).map Prod.snd)
    (hwakes : c'.wakes = c.wakes) (hfutures : ∀ j, j ≠ k → c'.futures.get? j = c.futures.get? j)
    (hself : ∀ f, c'.futures.get? k = some f → f.registered = none ∨ c'.Disconnected)
    (hgone : c'.Disconnected ↔ c.Disconnected) :
    Placed (update h k none) (ws.filter (·.1 ≠ k)) (us.filter (·.1 ≠ k)) c' := by
  have hmore : c'.wakes = c.wakes ++ [] := by rw [hwakes, append_nil]
  have hsome : ∀ {j t n}, update h k none j = some (t, n) → j ≠ k ∧ h j = some (t, n) := by
    intro j t n hj
    rw [update_apply] at hj
    split at hj
    · cases hj
    · exact ⟨‹_›, hj⟩
  refine ⟨?_, fun j t => ?_, hwaiters, fun x hx => ?_, fun j t n hj => ?_, fun j t n hj => ?_,
    fun j f hf hj => ?_, fun hd => ?_⟩
  · rw [← filter_append]
    exact hp.tasks.sublist (filter_sublist.map Prod.snd)
  · rw [← filter_append, mem_filter, ← hp.parked j t]
    constructor
    · rintro ⟨n, hn⟩
      obtain ⟨hjk, hn⟩ := hsome hn
      exact ⟨⟨n, hn⟩, by simpa using hjk⟩
    · rintro ⟨⟨n, hn⟩, hjk⟩
      refine ⟨n, ?_⟩
      rw [update_of_ne (by simpa using hjk), hn]
  · obtain ⟨hx, hxk⟩ := mem_filter.mp hx
    obtain ⟨t, n, hn, ht⟩ := (hp.woken x hx).mono hmore
    refine ⟨t, n, ?_, ht⟩
    rw [update_of_ne (by simpa using hxk), hn]
  · rw [hwakes]
    exact hp.since j t n (hsome hj).2
  · obtain ⟨hjk, hj⟩ := hsome hj
    rw [hfutures j hjk]
    exact hp.future j t n hj
  · by_cases hjk : j = k
    · exact hself f (hjk ▸ hf)
    · rw [hfutures j hjk] at hf
      rw [update_of_ne hjk] at hj
      exact (hp.idle j f hf hj).imp_right hgone.mpr
  · rw [hp.gone (hgone.mp hd)]
    rfl

/-- The sender `k` goes to the end of the list. -/
theorem Placed.enter {value : T} (hk : h k = none)
    (htask : ∀ j f, c.futures.get? j = some f → f.registered ≠ some task)
    (hlive : ¬ c.Disconnected) :
    Placed (update h k (some (task, c.wakes.length))) (ws ++ [(k, task)]) us
      { c with
        state := { c.state with sendWaiters := c.state.sendWaiters ++ [task] }
        futures := c.futures.insert k ⟨some value, some task⟩ } := by
  have hperm : (ws ++ [(k, task)] ++ us).Perm ((k, task) :: (ws ++ us)) := by
    rw [append_assoc]
    exact perm_middle
  have hother := hp.not_mem hk
  refine ⟨?_, fun j t => ?_, ?_, fun x hx => ?_, fun j t n hj => ?_, fun j t n hj => ?_,
    fun j f hf hj => ?_, fun hd => absurd hd hlive⟩
  · refine (hperm.map Prod.snd).nodup_iff.mpr (nodup_cons.mpr ⟨fun hmem => ?_, hp.tasks⟩)
    obtain ⟨⟨j, t⟩, hx, rfl⟩ := mem_map.mp hmem
    obtain ⟨n, hn⟩ := (hp.parked j t).mpr hx
    obtain ⟨v, hv⟩ := hp.future j t n hn
    exact htask j _ hv rfl
  · rw [hperm.mem_iff, mem_cons, ← hp.parked j t]
    by_cases hjk : j = k
    · subst hjk
      rw [update_self, hk]
      simp [eq_comm]
    · rw [update_of_ne hjk]
      simp [hjk]
  · rw [map_append, ← hp.waiters]
    rfl
  · obtain ⟨t, n, hn, ht⟩ := hp.woken x hx
    refine ⟨t, n, ?_, ht⟩
    rw [update_of_ne (hother x (mem_append_right _ hx)), hn]
  · rw [update_apply] at hj
    split at hj
    · rw [← (Prod.mk.inj (Option.some.inj hj)).2]
    · exact hp.since j t n hj
  · rw [update_apply] at hj
    rw [get?_insert]
    split at hj
    · rename_i hjk
      rw [if_pos hjk, (Prod.mk.inj (Option.some.inj hj)).1]
      exact ⟨value, rfl⟩
    · rename_i hjk
      rw [if_neg hjk]
      exact hp.future j t n hj
  · rw [update_apply] at hj
    rw [get?_insert] at hf
    split at hj
    · cases hj
    · rename_i hjk
      rw [if_neg hjk] at hf
      exact hp.idle j f hf hj

/-- The sender `k` is polled while it waits. -/
theorem Placed.again (hk : (k, task) ∈ ws) :
    Placed (update h k (some (task, c.wakes.length))) ws us c := by
  obtain ⟨m, hm⟩ := (hp.parked k task).mpr (mem_append_left _ hk)
  refine ⟨hp.tasks, fun j t => ?_, hp.waiters, fun x hx => ?_, fun j t n hj => ?_, fun j t n hj => ?_,
    fun j f hf hj => ?_, hp.gone⟩
  · rw [← hp.parked j t]
    by_cases hjk : j = k
    · subst hjk
      rw [update_self, hm]
      simp
    · rw [update_of_ne hjk]
  · obtain ⟨t, n, hn, ht⟩ := hp.woken x hx
    refine ⟨t, n, ?_, ht⟩
    rw [update_of_ne (hp.not_woken hk x hx), hn]
  · rw [update_apply] at hj
    split at hj
    · rw [← (Prod.mk.inj (Option.some.inj hj)).2]
    · exact hp.since j t n hj
  · rw [update_apply] at hj
    split at hj
    · rename_i hjk
      obtain ⟨rfl, -⟩ := Prod.mk.inj (Option.some.inj hj)
      exact hp.future j task m (hjk ▸ hm)
    · exact hp.future j t n hj
  · rw [update_apply] at hj
    split at hj
    · cases hj
    · exact hp.idle j f hf hj

end

/-! ## Steps -/

/-- The parked senders are in order. -/
def Sound (h : Parking) (c : Channel T) : Prop := ∃ ws us, Placed h ws us c ∧ Covered ws us c

theorem sound_new (capacity : Nat) : Sound (fun _ => none) (new capacity : Channel T) := by
  refine ⟨[], [], ⟨nodup_nil, fun k t => ?_, rfl, ?_, nofun, nofun, ?_, fun _ => rfl⟩,
    fun hne => absurd rfl hne⟩
  · simp
  · simp
  · intro k f hf
    simp [new] at hf

/-- A free place is given to the first of the waiting senders. -/
theorem Placed.sound_popWaiter (hp : Placed h ws us c)
    (hc : ws ≠ [] → c.state.capacity ≤ c.state.queue.length + us.length + 1) :
    Sound h c.popWaiter := by
  cases ws with
  | nil =>
    rw [popWaiter_of_nil hp.waiters]
    exact ⟨[], us, hp, fun hne => absurd rfl hne⟩
  | cons x ws =>
    refine ⟨ws, us ++ [x], hp.popWaiter, fun _ => ?_⟩
    have hroom := hc (cons_ne_nil x ws)
    rw [length_append]
    exact hroom

/-- A sender that is not on the list leaves it as it is. -/
theorem filter_of_not_waiting (hk : ∀ x ∈ ws, x.1 ≠ k) : ws.filter (·.1 ≠ k) = ws :=
  filter_eq_self.mpr fun x hx => by simpa using hk x hx

theorem Placed.erase_waiter (hp : Placed h ws us c) (hk : (k, t) ∈ ws) :
    c.state.sendWaiters.erase t = (ws.filter (·.1 ≠ k)).map Prod.snd := by
  have hnodup : (ws.map Prod.snd).Nodup := by
    have htasks := hp.tasks
    rw [map_append] at htasks
    exact (nodup_append.mp htasks).1
  rw [hp.waiters, hnodup.erase_eq_filter, filter_map]
  refine congrArg _ (filter_congr fun x hx => ?_)
  by_cases hxk : x.1 = k
  · have hxt := hp.key_unique (mem_append_left _ hx) (mem_append_left _ hk) hxk
    simp [hxt]
  · have hxt : x.2 ≠ t := fun hxt => hxk (by rw [inj_on_of_nodup_map hnodup hx hk hxt])
    simp [hxk, hxt]

/-- A sender that has been woken is not on the list. -/
theorem Placed.not_waiting (hp : Placed h ws us c) (hk : h k = some (t, n))
    (ht : t ∉ c.state.sendWaiters) : ∀ x ∈ ws, x.1 ≠ k := by
  rintro x hx rfl
  have hmem := (hp.parked x.1 t).mp ⟨n, hk⟩
  have hxt := hp.key_unique (mem_append_left _ hx) hmem rfl
  rw [hp.waiters] at ht
  exact ht (mem_map.mpr ⟨x, hx, by rw [hxt]⟩)

section

variable (hs : Sound h c)

include hs

/-- Nothing changes for the senders, and there is not more room. -/
theorem Sound.congr (hwaiters : c'.state.sendWaiters = c.state.sendWaiters)
    (hfutures : c'.futures = c.futures) (hmore : c'.wakes = c.wakes ++ more)
    (hgone : c'.Disconnected ↔ c.Disconnected) (hcapacity : c'.state.capacity = c.state.capacity)
    (hqueue : c.state.queue.length ≤ c'.state.queue.length) : Sound h c' := by
  obtain ⟨ws, us, hp, hc⟩ := hs
  refine ⟨ws, us, hp.congr hwaiters hfutures hmore hgone, fun hne => ?_⟩
  have hroom := hc hne
  omega

theorem Sound.push (value : T) : Sound h (c.push value) :=
  hs.congr rfl rfl rfl Iff.rfl rfl (by simp [Channel.push, wakeWaiter])

theorem Sound.takeValue {value : T} {rest : List T} (hqueue : c.state.queue = value :: rest) :
    Sound h (c.takeValue rest) := by
  obtain ⟨ws, us, hp, hc⟩ := hs
  have htaken : Placed h ws us { c with state := { c.state with queue := rest } } :=
    hp.congr rfl rfl (append_nil _).symm Iff.rfl
  refine htaken.sound_popWaiter fun hne => ?_
  have hroom := hc hne
  rw [hqueue, length_cons] at hroom
  dsimp only
  omega

theorem Sound.send (hk : c.futures.get? k = none) (value : T) : Sound h (c.send k value) := by
  obtain ⟨ws, us, hp, hc⟩ := hs
  have hfutures : ∀ j f, c.futures.get? j = some f → (c.send k value).futures.get? j = some f := by
    intro j f hj
    rw [Channel.send]
    rw [get?_insert, if_neg, hj]
    rintro rfl
    cases hk.symm.trans hj
  refine ⟨ws, us, ⟨hp.tasks, hp.parked, hp.waiters, hp.woken, hp.since, fun j t n hj => ?_,
    fun j f hf hj => ?_, hp.gone⟩, hc⟩
  · obtain ⟨v, hv⟩ := hp.future j t n hj
    exact ⟨v, hfutures j _ hv⟩
  · rw [Channel.send] at hf
    rw [get?_insert] at hf
    split at hf
    · rw [← Option.some.inj hf]
      exact .inl rfl
    · exact hp.idle j f hf hj

theorem Sound.dropReceiver (hlive : ¬ c.Disconnected) : Sound h c.dropReceiver := by
  obtain ⟨ws, us, hp, -⟩ := hs
  have hperm : (us ++ ws).Perm (ws ++ us) := perm_append_comm
  have hwakes : c.dropReceiver.wakes = c.wakes ++ c.state.sendWaiters := rfl
  refine ⟨[], us ++ ws, ⟨(hperm.map Prod.snd).nodup_iff.mpr hp.tasks, fun k t => ?_, rfl, ?_,
    fun k t n hk => ?_, hp.future, fun k f hf hk => ?_, fun _ => rfl⟩, fun hne => absurd rfl hne⟩
  · rw [hp.parked k t, nil_append, hperm.mem_iff]
  · refine forall_mem_append.mpr ⟨fun x hx => (hp.woken x hx).mono hwakes, fun x hx => ?_⟩
    obtain ⟨n, hn⟩ := (hp.parked x.1 x.2).mpr (mem_append_left _ hx)
    refine woken_of_mem hn (hp.since _ _ n hn) hwakes ?_
    rw [hp.waiters]
    exact mem_map_of_mem hx
  · have hn := hp.since k t n hk
    rw [hwakes, length_append]
    omega
  · exact .inl ((hp.idle k f hf hk).resolve_right hlive)

theorem Sound.dropSend (k : Nat) : Sound (update h k none) (c.dropSend k) := by
  obtain ⟨ws, us, hp, hc⟩ := hs
  have herase : ∀ j, j ≠ k → (c.futures.erase k).get? j = c.futures.get? j := by
    intro j hjk
    rw [get?_erase, if_neg hjk]
  have hnone : ∀ f, (c.futures.erase k).get? k = some f →
      f.registered = none ∨ Disconnected { c with futures := c.futures.erase k } := by
    intro f hf
    rw [get?_erase, if_pos rfl] at hf
    cases hf
  have hlength := hp.length_others k
  -- what is left when the sender has gone, if it was not on the list
  have hgoes : (∀ x ∈ ws, x.1 ≠ k) →
      Placed (update h k none) ws (us.filter (·.1 ≠ k))
        { c with futures := c.futures.erase k } := by
    intro hws
    have hleave := hp.leave { c with futures := c.futures.erase k } k
      (by rw [filter_of_not_waiting hws]; exact hp.waiters) rfl herase hnone Iff.rfl
    rw [filter_of_not_waiting hws] at hleave
    exact hleave
  rw [Channel.dropSend]
  rcases hf : c.futures.get? k with _ | f
  · -- there is no such sender
    have hk : h k = none := hp.not_parked (by simp [hf])
    rw [update_eq_self_iff.mpr hk.symm]
    exact ⟨ws, us, hp, hc⟩
  · dsimp only
    rcases hk : h k with _ | ⟨t, n⟩
    · -- the sender is not parked
      have hothers := hp.not_mem hk
      have hgone := hgoes fun x hx => hothers x (mem_append_left _ hx)
      rw [filter_of_not_waiting fun x hx => hothers x (mem_append_right _ hx)] at hgone
      rcases hr : f.registered with _ | id
      · exact ⟨ws, us, hgone, hc⟩
      · have hd : c.Disconnected := by
          rcases hp.idle k f hf hk with hnot | hd
          · cases hr.symm.trans hnot
          · exact hd
        have hnil : c.state.sendWaiters = [] := by
          rw [hp.waiters, hp.gone hd]
          rfl
        dsimp only
        rw [hnil, if_neg not_mem_nil]
        exact hgone.sound_popWaiter fun hne => absurd (hp.gone hd) hne
    · obtain ⟨v, hv⟩ := hp.future k t n hk
      cases (hf.symm.trans hv)
      dsimp only
      split
      · -- it waits
        rename_i ht
        have hwaits := hp.waits hk ht
        refine ⟨_, _, hp.leave _ _ (hp.erase_waiter hwaits) rfl herase hnone Iff.rfl, fun hne => ?_⟩
        have hroom := hc fun hws => hne (by rw [hws]; rfl)
        rw [filter_of_not_waiting (hp.not_woken hwaits)]
        exact hroom
      · -- it has been woken, and passes that on
        rename_i ht
        refine (hgoes (hp.not_waiting hk ht)).sound_popWaiter fun hne => ?_
        have hroom := hc hne
        dsimp only
        omega

theorem Sound.pollSend (hpolite : c.Polite (.pollSend k task)) :
    Sound (park h c (.pollSend k task)) (c.pollSend k task).1 := by
  rw [park, Channel.pollSend]
  rcases hf : c.futures.get? k with _ | ⟨_ | value, registered⟩
  · exact hs
  · exact hs
  · obtain ⟨ws, us, hp, hc⟩ := hs
    have hinsert : ∀ (f : SendFuture T) j, j ≠ k →
        (c.futures.insert k f).get? j = c.futures.get? j := by
      intro f j hjk
      rw [get?_insert, if_neg hjk]
    have hlength := hp.length_others k
    dsimp only
    by_cases hd : c.Disconnected
    · -- nobody will receive
      rw [if_pos hd]
      have hws := hp.gone hd
      refine ⟨_, _, hp.leave _ _ ?_ rfl (hinsert _) (fun f _ => .inr hd) Iff.rfl, fun hne => ?_⟩
      · simpa [hws] using hp.waiters
      · exact absurd (by rw [hws]; rfl) hne
    · obtain ⟨hfull, hroom⟩ := hpolite value registered hf hd
      rw [if_neg hd]
      by_cases hlt : c.state.queue.length < c.state.capacity
      · -- there is room
        rw [if_pos hlt]
        have hws : ∀ x ∈ ws, x.1 ≠ k := by
          rcases hk : h k with _ | ⟨t, n⟩
          · exact fun x hx => hp.not_mem hk x (mem_append_left _ hx)
          · obtain ⟨v, hv⟩ := hp.future k t n hk
            obtain ⟨-, hr⟩ := SendFuture.mk.inj (Option.some.inj (hf.symm.trans hv))
            exact hp.not_waiting hk (hroom hlt t hr)
        have hleave := hp.leave { c with futures := c.futures.insert k ⟨none, none⟩ } k
          (by rw [filter_of_not_waiting hws]; exact hp.waiters) rfl (hinsert _)
          (fun f hf' => .inl ?_) Iff.rfl
        · refine ⟨_, _, hleave.push value, fun hne => ?_⟩
          rw [filter_of_not_waiting hws] at hne
          have hcover := hc hne
          rw [Channel.push, wakeWaiter, length_append, length_singleton]
          dsimp only
          omega
        · rw [get?_insert, if_pos rfl] at hf'
          rw [← Option.some.inj hf']
      · rw [if_neg hlt]
        rcases hfull (Nat.le_of_not_lt hlt) with ⟨rfl, htask⟩ | ⟨rfl, ht⟩
        · -- the sender is new
          have hk : h k = none := hp.not_parked (by simp [hf])
          rw [if_neg (fun h => by cases h)]
          refine ⟨_, _, hp.enter hk htask hd, fun _ => ?_⟩
          dsimp only
          omega
        · -- the sender waits
          rw [if_pos rfl]
          refine ⟨ws, us, hp.again ?_, hc⟩
          rcases hk : h k with _ | ⟨t', n⟩
          · rcases hp.idle k _ hf hk with hnone | hgone
            · cases hnone
            · exact absurd hgone hd
          · obtain ⟨v, hv⟩ := hp.future k t' n hk
            obtain ⟨-, hr⟩ := SendFuture.mk.inj (Option.some.inj (hf.symm.trans hv))
            cases hr
            exact hp.waits hk ht

/-- **A step keeps the parked senders in order.** -/
theorem Sound.step {e : Event T} (hpolite : c.Polite e) : Sound (park h c e) (c.step e) := by
  cases e with
  | cloneSender =>
    rw [Channel.step]
    split
    · exact hs
    · exact hs.congr rfl rfl (append_nil _).symm (by simp [Disconnected, cloneSender]) rfl le_rfl
  | dropSender =>
    rw [Channel.step]
    split
    · exact hs
    · have hgone : c.state.strongCount - 1 ≤ c.state.senderCount - 1 ↔
          c.state.strongCount ≤ c.state.senderCount := by omega
      rw [dropSender]
      split
      · exact hs.congr rfl rfl rfl hgone rfl le_rfl
      · exact hs.congr rfl rfl (append_nil _).symm hgone rfl le_rfl
  | dropReceiver =>
    rw [Channel.step]
    split
    · exact hs
    · exact hs.dropReceiver ‹_›
  | trySend value =>
    rw [Channel.step, trySend]
    split
    · exact hs
    · split
      · exact hs
      · split
        · exact hs
        · exact hs.push value
  | send k value =>
    rw [Channel.step]
    split
    · exact hs
    · rename_i hnone
      exact hs.send (by simpa using hnone) value
  | pollSend k task => exact hs.pollSend hpolite
  | dropSend k => exact hs.dropSend k
  | tryRecv =>
    rw [Channel.step, tryRecv]
    split
    · exact hs
    · rcases hqueue : c.state.queue with _ | ⟨value, rest⟩
      · dsimp only
        split
        · exact hs
        · exact hs
      · exact hs.takeValue hqueue
  | pollRecv task =>
    rw [Channel.step, pollRecv]
    split
    · exact hs
    · rcases hqueue : c.state.queue with _ | ⟨value, rest⟩
      · dsimp only
        split
        · exact hs
        · exact hs.congr rfl rfl (append_nil _).symm Iff.rfl rfl le_rfl
      · exact hs.takeValue hqueue

/-- A sender that was woken, and is dropped, is not the only one. -/
theorem Sound.passes_on (hk : h k = some (t, n)) (ht : t ∉ c.state.sendWaiters) {j : Nat}
    (hjk : j ≠ k) (hj : h j ≠ none) : ∃ i, i ≠ k ∧ Woken h (c.dropSend k) i := by
  obtain ⟨ws, us, hp, -⟩ := hs
  obtain ⟨v, hv⟩ := hp.future k t n hk
  have hws := hp.not_waiting hk ht
  have hdrop : c.dropSend k = popWaiter { c with futures := c.futures.erase k } := by
    rw [Channel.dropSend, hv]
    dsimp only
    rw [if_neg ht]
  rw [hdrop]
  cases ws with
  | nil =>
    obtain ⟨⟨t', n'⟩, hj⟩ := Option.ne_none_iff_exists'.mp hj
    have hmem : (j, t') ∈ us := by simpa using (hp.parked j t').mp ⟨n', hj⟩
    exact ⟨j, hjk, (hp.woken _ hmem).mono rfl⟩
  | cons x ws =>
    obtain ⟨m, hm⟩ := (hp.parked x.1 x.2).mpr mem_cons_self
    have hhead : c.state.sendWaiters.head?.toList = [x.2] := by
      rw [hp.waiters]
      rfl
    refine ⟨x.1, hws x mem_cons_self, woken_of_mem hm (hp.since _ _ m hm) rfl ?_⟩
    rw [hhead]
    exact mem_singleton_self _

end

end

/-- **No parked sender sleeps while there is room**, in runs in which all polls are polite: one of them
has been woken since it returned `Pending`, and one that is dropped after it was woken passes this on to
another one. -/
theorem parked_sender_woken (capacity : Nat) (events : List (Event T))
    (hpolite : ∀ x ∈ trace step (new capacity) events, x.1.Polite x.2) :
    let p := run (withHistory step park) (fun _ => none, new capacity) events
    Prompt p.1 p.2 ∧
      ∀ k t n, p.1 k = some (t, n) → t ∉ p.2.state.sendWaiters → (∃ j, j ≠ k ∧ p.1 j ≠ none) →
        ∃ j, j ≠ k ∧ Woken p.1 (p.2.dropSend k) j := by
  intro p
  have hrun : Sound p.1 p.2 :=
    run_invariant (P := fun p : Parking × Channel T => Sound p.1 p.2) (sound_new capacity)
      fun x hx hs => hs.step (hpolite (x.1.2, x.2) (mem_trace_of_withHistory hx))
  refine ⟨?_, fun k t n hk ht ⟨j, hjk, hj⟩ => hrun.passes_on hk ht hjk hj⟩
  obtain ⟨ws, us, hp, hc⟩ := hrun
  exact hp.prompt hc

/-- A sender finds the queue full, and a value is taken out of it. -/
def oneWaits : List (Event Unit) := [.trySend (), .send 0 (), .pollSend 0 7, .tryRecv]

/-- A sender that waited is woken. -/
theorem parked_sender_woken_oneWaits :
    ∃ k, Woken (run (withHistory step park) (fun _ => none, new 1) oneWaits).1
      (run (withHistory step park) (fun _ => none, new 1) oneWaits).2 k := by
  have hpolite : ∀ x ∈ trace step (new 1) oneWaits, x.1.Polite x.2 := by
    simp only [oneWaits, trace, forall_mem_cons]
    refine ⟨trivial, trivial, ?_, trivial, by simp⟩
    intro value registered hf _
    obtain ⟨-, rfl⟩ := SendFuture.mk.inj (Option.some.inj hf)
    refine ⟨fun _ => .inl ⟨rfl, fun j f hj => ?_⟩, fun hroom => absurd hroom (by decide)⟩
    have hget : (empty.insert 0 (⟨some (), none⟩ : SendFuture Unit)).get? j = some f := hj
    rw [get?_insert, get?_empty] at hget
    split at hget
    · rw [← Option.some.inj hget]
      simp
    · cases hget
  exact (parked_sender_woken 1 oneWaits hpolite).1 (.inl (by decide)) ⟨0, by decide⟩

/-- **A sender that was overtaken is not woken again.**  It waits, it is woken, somebody else takes the
place, and it is polled and returns `Pending`.  When the queue is empty again, it still sleeps. -/
theorem overtaken_sender_sleeps :
    let p := run (withHistory step park) (fun _ => none, new 1)
      (oneWaits ++ [.trySend (), .pollSend 0 7, .tryRecv])
    p.2.state.queue = [] ∧ p.1 0 = some (7, 1) ∧ p.2.wakes = [7] ∧ ¬ Prompt p.1 p.2 := by
  intro p
  have hparked : p.1 = update
      (update (fun _ => none : Parking) 0 (some (7, 0))) 0 (some (7, 1)) := rfl
  have hwakes : p.2.wakes = [7] := rfl
  refine ⟨rfl, rfl, hwakes, fun hprompt => ?_⟩
  obtain ⟨k, t, n, hk, ht⟩ := hprompt (.inl (by decide)) ⟨0, by decide⟩
  rw [hparked, update_idem, update_apply] at hk
  split at hk
  · cases (Option.some_inj.mp hk)
    rw [hwakes] at ht
    exact absurd ht not_mem_nil
  · cases hk

/-! ## Values -/

/-- The value that a step puts into the queue. -/
def accepts : Event T → Option T
  | .trySend value =>
    if c.state.senderCount = 0 then none else (c.trySend value).2.toOption.map fun _ => value
  | .pollSend k task =>
    match (c.pollSend k task).2 with
    | .ready (.ok ()) => (c.futures.get? k).bind SendFuture.value
    | _ => none
  | _ => none

/-- What the receiver is told. -/
inductive Told (T : Type) where
  | value (v : T)
  | empty
  | closed

/-- The receiver asks, with `try_recv` or as a task that polls `recv`. -/
def ask : Option Nat → Channel T × Told T
  | none =>
    (c.tryRecv.1, match c.tryRecv.2 with
      | .ok v => .value v
      | .error .empty => .empty
      | .error .disconnected => .closed)
  | some task =>
    ((c.pollRecv task).1, match (c.pollRecv task).2 with
      | .ready (some v) => .value v
      | .ready none => .closed
      | .pending => .empty)

/-- The value that a step takes out of the queue. -/
def receives : Event T → Option T
  | .tryRecv => if c.Disconnected then none else c.tryRecv.2.toOption
  | .pollRecv task =>
    if c.Disconnected then none
    else
      match (c.pollRecv task).2 with
      | .ready v => v
      | .pending => none
  | _ => none

/-- The values that have been accepted and received. -/
structure Passed (T : Type) where
  accepted : List T
  received : List T

def pass (p : Passed T) (c : Channel T) (e : Event T) : Passed T where
  accepted := p.accepted ++ (c.accepts e).toList
  received := p.received ++ (c.receives e).toList

/-- What the receiver is told when it asks several times. -/
def askAll (c : Channel T) : List (Option Nat) → List (Told T)
  | [] => []
  | who :: rest => (c.ask who).2 :: (c.ask who).1.askAll rest

/-- Values go in at the end of the queue and come out at its front. -/
theorem queue_step (e : Event T) :
    c.state.queue ++ (c.accepts e).toList = (c.receives e).toList ++ (c.step e).state.queue := by
  cases e with
  | trySend value =>
    by_cases hnone : c.state.senderCount = 0
    · simp [accepts, receives, step, hnone]
    · simp only [accepts, receives, step, if_neg hnone, trySend]
      split_ifs <;> simp [push, wakeWaiter, Except.toOption]
  | pollSend k task =>
    simp only [accepts, receives, step, pollSend]
    rcases c.futures.get? k with _ | ⟨_ | value, registered⟩
    · simp
    · simp
    · dsimp only
      split_ifs <;> simp [push, wakeWaiter]
  | tryRecv =>
    by_cases hgone : c.Disconnected
    · simp [accepts, receives, step, hgone]
    · rcases hqueue : c.state.queue with _ | ⟨value, rest⟩
      · by_cases hnone : c.state.senderCount = 0 <;>
          simp [accepts, receives, step, hgone, tryRecv, hqueue, hnone, Except.toOption]
      · simp [accepts, receives, step, hgone, tryRecv, hqueue, takeValue, popWaiter, wakeWaiter,
          Except.toOption]
  | pollRecv task =>
    by_cases hgone : c.Disconnected
    · simp [accepts, receives, step, hgone]
    · rcases hqueue : c.state.queue with _ | ⟨value, rest⟩
      · by_cases hnone : c.state.senderCount = 0 <;>
          simp [accepts, receives, step, hgone, pollRecv, hqueue, hnone]
      · simp [accepts, receives, step, hgone, pollRecv, hqueue, takeValue, popWaiter, wakeWaiter]
  | dropSend k =>
    simp only [accepts, receives, step, dropSend]
    rcases c.futures.get? k with _ | ⟨value, _ | id⟩
    · simp
    · simp
    · dsimp only
      split_ifs <;> simp [popWaiter, wakeWaiter]
  | dropSender =>
    simp only [accepts, receives, step, dropSender]
    split_ifs <;> simp [wakeWaiter]
  | cloneSender =>
    simp only [accepts, receives, step, cloneSender]
    split_ifs <;> simp
  | dropReceiver =>
    simp only [accepts, receives, step, dropReceiver]
    split_ifs <;> simp
  | send k value =>
    simp only [accepts, receives, step, send]
    split_ifs <;> simp

theorem capacity_step (e : Event T) : (c.step e).state.capacity = c.state.capacity := by
  cases e <;>
    simp only [step, cloneSender, dropSender, dropReceiver, trySend, push, send, pollSend, dropSend,
      tryRecv, pollRecv, takeValue, popWaiter, wakeWaiter] <;>
    repeat' split
  all_goals rfl

/-- A value is accepted where there is room. -/
theorem room_of_accepts {c : Channel T} {e : Event T} {value : T} (h : c.accepts e = some value) :
    c.state.queue.length < c.state.capacity := by
  cases e with
  | trySend v =>
    by_contra hfull
    simp only [accepts, trySend, if_pos (Nat.le_of_not_lt hfull)] at h
    split_ifs at h
    all_goals simp [Except.toOption] at h
  | pollSend k task =>
    by_contra hfull
    rcases hf : c.futures.get? k with _ | ⟨_ | value, registered⟩
    · simp [accepts, pollSend, hf] at h
    · simp [accepts, pollSend, hf] at h
    · simp only [accepts, pollSend, hf, if_neg hfull] at h
      split_ifs at h
  | _ => simp [accepts] at h

/-- Without senders, the receiver gets what is left and is then told that the channel is closed. -/
theorem askAll_of_no_sender {c : Channel T} (hnone : c.state.senderCount = 0)
    (asks : List (Option Nat)) :
    c.askAll asks =
      (c.state.queue.map Told.value ++ replicate asks.length Told.closed).take asks.length := by
  induction asks generalizing c with
  | nil => simp [askAll]
  | cons who asks ih =>
    rcases hqueue : c.state.queue with _ | ⟨value, rest⟩
    · have hask : c.ask who = (c, .closed) := by
        cases who <;> simp [ask, tryRecv, pollRecv, hqueue, hnone]
      rw [askAll, hask, ih hnone, hqueue]
      simp [replicate_succ]
    · have hask : c.ask who = (c.takeValue rest, .value value) := by
        cases who <;> simp [ask, tryRecv, pollRecv, hqueue]
      rw [askAll, hask, ih (by simpa [takeValue, popWaiter, wakeWaiter] using hnone)]
      simp [takeValue, popWaiter, wakeWaiter, replicate_succ', ← append_assoc, take_append]

/-- **The channel is a queue.**  In every run the values that were accepted are those that were received,
in the same order, and then those in the queue, of which there are never more than the capacity.  When
there are no senders any more, the receiver gets what is left, and after that is told that the channel
is closed. -/
theorem received_in_order (capacity : Nat) (events : List (Event T)) :
    let p := run (withHistory step pass) (⟨[], []⟩, new capacity) events
    p.1.accepted = p.1.received ++ p.2.state.queue ∧ p.2.state.queue.length ≤ capacity ∧
      (p.2.state.senderCount = 0 → ∀ asks, p.2.askAll asks =
        (p.2.state.queue.map Told.value ++ replicate asks.length Told.closed).take asks.length) := by
  intro p
  have hrun : p.1.accepted = p.1.received ++ p.2.state.queue ∧ p.2.state.capacity = capacity ∧
      p.2.state.queue.length ≤ capacity := by
    refine run_invariant (P := fun p : Passed T × Channel T =>
      p.1.accepted = p.1.received ++ p.2.state.queue ∧ p.2.state.capacity = capacity ∧
        p.2.state.queue.length ≤ capacity) ⟨rfl, rfl, Nat.zero_le _⟩ fun x _ h => ?_
    obtain ⟨haccepted, hcapacity, hlength⟩ := h
    have hqueue := queue_step x.1.2 x.2
    refine ⟨?_, (capacity_step x.1.2 x.2).trans hcapacity, ?_⟩
    · simp only [withHistory, pass, haccepted, append_assoc, hqueue]
    · have hlengths := congrArg length hqueue
      simp only [length_append] at hlengths
      rcases haccepts : x.1.2.accepts x.2 with _ | value
      · simp only [haccepts, Option.toList_none, length_nil] at hlengths
        simp only [withHistory]
        omega
      · have hroom := room_of_accepts haccepts
        simp only [haccepts, Option.toList_some, length_singleton] at hlengths
        simp only [withHistory]
        omega
  exact ⟨hrun.1, hrun.2.2, fun hnone => askAll_of_no_sender hnone⟩

/-! ## The receiver -/

/-- While a task waits to receive, there is nothing to receive and somebody can send. -/
def Idle : Prop := c.state.recvWaiter = none ∨ c.state.queue = [] ∧ c.state.senderCount ≠ 0

theorem Idle.step {c : Channel T} (h : c.Idle) (e : Event T) : (c.step e).Idle ∧
    ((c.step e).state.recvWaiter = c.state.recvWaiter ∨ (∃ t, e = .pollRecv t) ∨
      (c.step e).wakes = c.wakes ++ c.state.recvWaiter.toList) := by
  unfold Idle at *
  cases e <;>
    simp only [Channel.step, cloneSender, dropSender, dropReceiver, trySend, push, send, pollSend,
      dropSend, tryRecv, pollRecv, takeValue, popWaiter, wakeWaiter] <;>
    repeat' split
  all_goals simp_all

end Channel
end Ringline.Runtime.Mpsc
