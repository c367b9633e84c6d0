import Ringline.Runtime.Tasks

/-!
# Who owns a slot

A task that was spawned and has neither completed nor panicked nor been cancelled should have a slot
of its own, and nothing else should be able to take its future away.

`Owned` is the invariant: the free list and the slots are in order, and whatever is in a slot is the
living task to which the index of that slot was returned.  It holds along every run, and with it what
was said above (`tasks_exclusive`), as long as a cancellation finds either its task, alive and not
being polled, or an empty slot (`SafeCancel`).

A `TaskId` is nothing but the index, and so other cancellations do harm.

* When a task is over, its slot goes to the next one that is spawned, and a cancellation that comes
  late drops the future of that one (`late_cancel_drops_another`).
* A task that cancels itself while it is polled frees the slot it will be parked in.  What was spawned
  into that slot in the meantime is overwritten (`self_cancel_drops_another`).
-/

set_option autoImplicit false

namespace Ringline.Runtime

open List Machine

/-! ## Tasks -/

/-- What has become of a task. -/
inductive Status where
  | live
  | completed
  | panicked
  | cancelled
deriving DecidableEq

/-- A living task ends. -/
def retire (tasks : List Status) (k : Nat) (status : Status) : List Status :=
  if tasks[k]? = some .live then tasks.set k status else tasks

namespace Executor

variable {k idx : Nat} {x x' : Executor} {tasks : List Status}

/-- What has become of the tasks after a step. -/
def recordStatus (tasks : List Status) (x : Executor) : Event → List Status
  | .spawn =>
    match x.standaloneSlab.freeList with
    | [] => tasks
    | _ :: _ => tasks ++ [.live]
  | .cancel k => retire tasks k .cancelled
  | .finish .ready =>
    match x.polling with
    | some (_, k) => retire tasks k .completed
    | none => tasks
  | .finish .panic =>
    match x.polling with
    | some (_, k) => retire tasks k .panicked
    | none => tasks
  | _ => tasks

/-- The future is in the slot, or out of it to be polled. -/
def Holds (x : Executor) (k idx : Nat) : Prop :=
  x.standaloneSlab.tasks[idx]? = some (.parked k) ∨ x.standaloneSlab.tasks[idx]? = some (.ready k) ∨
    (x.standaloneSlab.tasks[idx]? = some .polling ∧ x.polling = some (idx, k))

/-- Every living task has exactly one slot, which is not free. -/
def Exclusive (tasks : List Status) (x : Executor) : Prop :=
  ∀ k, tasks[k]? = some .live →
    ∃ idx, x.Holds k idx ∧ idx ∉ x.standaloneSlab.freeList ∧ ∀ j, x.Holds k j → j = idx

/-- A cancellation leaves all other tasks where they are. -/
def CancelsOnly (x : Executor) (e : Event) : Prop :=
  ∀ k, e = .cancel k → ∀ k' idx, k' ≠ k → (x.Holds k' idx ↔ (x.step e).Holds k' idx)

/-- A future goes away only when its task completes, panics or is cancelled. -/
def DropsOwn (x : Executor) (e : Event) : Prop :=
  ∀ k, (∃ idx, x.Holds k idx) → (∀ idx, ¬ (x.step e).Holds k idx) →
    e = .cancel k ∨ ∃ idx, x.polling = some (idx, k) ∧ (e = .finish .ready ∨ e = .finish .panic)

/-- The condition: a cancellation finds its task alive and not being polled, or an empty slot. -/
def SafeCancel (tasks : List Status) (x : Executor) (e : Event) : Prop :=
  ∀ k, e = .cancel k →
    (tasks[k]? = some .live ∧ ∀ idx, x.polling ≠ some (idx, k)) ∨
      ∀ idx, x.ids[k]? = some idx → x.standaloneSlab.tasks[idx]? = some .empty

/-! ## The invariant -/

/-- The slot is in use. -/
def used (x : Executor) (idx : Nat) : Bool :=
  match x.standaloneSlab.tasks[idx]? with
  | none | some .empty => false
  | some _ => true

/-- Whatever is in a slot is the living task to which its index was returned. -/
structure Owned (tasks : List Status) (x : Executor) : Prop where
  length : x.ids.length = tasks.length
  free : FreeStack.Sound x.standaloneSlab.freeList x.standaloneSlab.tasks.length x.used
  owner : ∀ k idx, x.Holds k idx → tasks[k]? = some .live ∧ x.ids[k]? = some idx
  held : ∀ k, tasks[k]? = some .live → ∃ idx, x.Holds k idx
  polled : ∀ idx k, x.polling = some (idx, k) → x.standaloneSlab.tasks[idx]? = some .polling
  polling : ∀ idx, x.standaloneSlab.tasks[idx]? = some .polling → ∃ k, x.polling = some (idx, k)

theorem getElem?_set_of_some {α : Type} {l : List α} {a₀ : α} (h : l[idx]? = some a₀) (a : α)
    (i : Nat) : (l.set idx a)[i]? = if i = idx then some a else l[i]? := by
  have hlt := (List.getElem?_eq_some_iff.mp h).1
  rcases eq_or_ne i idx with rfl | hne
  · rw [if_pos rfl, getElem?_set_self hlt]
  · rw [if_neg hne, getElem?_set_ne (Ne.symm hne)]

theorem Holds.used (h : x.Holds k idx) : x.used idx = true := by
  rcases h with h | h | ⟨h, -⟩ <;> rw [Executor.used, h]

/-- There is one task in a slot. -/
theorem Holds.unique {k' : Nat} (hk : x.Holds k idx) (hk' : x.Holds k' idx) :
    k' = k := by
  rcases hk with hk | hk | ⟨hk, hp⟩ <;> rcases hk' with hk' | hk' | ⟨hk', hp'⟩
  all_goals rw [hk] at hk'; cases hk'
  · rfl
  · rfl
  · rw [hp] at hp'
    cases hp'
    rfl

theorem Owned.exclusive (h : Owned tasks x) :
    Exclusive tasks x := by
  intro k hk
  obtain ⟨idx, hidx⟩ := h.held k hk
  refine ⟨idx, hidx, h.free.notMem hidx.used, fun j hj => ?_⟩
  exact Option.some.inj ((h.owner k j hj).2.symm.trans (h.owner k idx hidx).2)

/-! ## Steps that keep all tasks -/

/-- The executor before and after a step that changes one slot. -/
structure Touches (x x' : Executor) (idx : Nat) : Prop where
  tasks : ∀ j, j ≠ idx → x'.standaloneSlab.tasks[j]? = x.standaloneSlab.tasks[j]?
  length : x'.standaloneSlab.tasks.length = x.standaloneSlab.tasks.length
  polling : ∀ j k, j ≠ idx → (x'.polling = some (j, k) ↔ x.polling = some (j, k))
  ids : x'.ids = x.ids

theorem Touches.holds (h : Touches x x' idx) {j : Nat} (hj : j ≠ idx) (k : Nat) :
    x'.Holds k j ↔ x.Holds k j := by
  rw [Holds, Holds, h.tasks j hj, h.polling j k hj]

theorem Touches.used (h : Touches x x' idx) {j : Nat} (hj : j ≠ idx) :
    x'.used j = x.used j := by
  rw [Executor.used, Executor.used, h.tasks j hj]

section

variable (h : Owned tasks x)

include h

/-- A task changes the state of its slot. -/
theorem Owned.move (k idx : Nat) (ht : Touches x x' idx)
    (hfree : x'.standaloneSlab.freeList = x.standaloneSlab.freeList) (hk : x.Holds k idx)
    (hk' : x'.Holds k idx)
    (hpolled : ∀ k', x'.polling = some (idx, k') → x'.standaloneSlab.tasks[idx]? = some .polling) :
    Owned tasks x' := by
  have hholds : ∀ k' j, x'.Holds k' j ↔ x.Holds k' j := by
    intro k' j
    rcases eq_or_ne j idx with rfl | hj
    · constructor
      · intro h'
        obtain rfl := hk'.unique h'
        exact hk
      · intro h'
        obtain rfl := hk.unique h'
        exact hk'
    · exact ht.holds hj k'
  refine ⟨by rw [ht.ids, h.length], ?_, fun k' j hj => ?_, fun k' hlive => ?_, fun j k' hp => ?_,
    fun j hp => ?_⟩
  · rw [hfree, ht.length]
    exact h.free.update hk.used fun j hj => ht.used hj
  · rw [ht.ids]
    exact h.owner k' j ((hholds k' j).mp hj)
  · obtain ⟨j, hj⟩ := h.held k' hlive
    exact ⟨j, (hholds k' j).mpr hj⟩
  · rcases eq_or_ne j idx with rfl | hj
    · exact hpolled k' hp
    · rw [ht.tasks j hj]
      exact h.polled j k' ((ht.polling j k' hj).mp hp)
  · rcases eq_or_ne j idx with rfl | hj
    · rcases hk' with h' | h' | ⟨-, h'⟩
      · cases h'.symm.trans hp
      · cases h'.symm.trans hp
      · exact ⟨k, h'⟩
    · rw [ht.tasks j hj] at hp
      obtain ⟨k', hp⟩ := h.polling j hp
      exact ⟨k', (ht.polling j k' hj).mpr hp⟩

/-- Nothing but the queues changes. -/
theorem Owned.congr (hslab : x'.standaloneSlab = x.standaloneSlab)
    (hpolling : x'.polling = x.polling) (hids : x'.ids = x.ids) : Owned tasks x' := by
  obtain ⟨slab, rq, wq, dd, pass, polling, woken, ids⟩ := x'
  obtain rfl := hslab
  obtain rfl := hpolling
  obtain rfl := hids
  exact { h with }

theorem Owned.wakeTask (idx : Nat) : Owned tasks (x.wakeTask idx) := by
  rw [Executor.wakeTask]
  split
  · exact h.congr rfl rfl rfl
  · rw [StandaloneTaskSlab.wake]
    rcases hslot : x.standaloneSlab.tasks[idx]? with _ | _ | _ | k | k
    · exact h.congr rfl rfl rfl
    · exact h.congr rfl rfl rfl
    · exact h.congr rfl rfl rfl
    · have hset := getElem?_set_of_some hslot (TaskSlot.ready k)
      refine h.move k idx ⟨fun j hj => ?_, length_set, fun _ _ _ => Iff.rfl, rfl⟩
        rfl (.inl hslot) (.inr (.inl ?_)) fun k' hp => ?_
      · exact (hset j).trans (if_neg hj)
      · exact (hset idx).trans (if_pos rfl)
      · cases hslot.symm.trans (h.polled idx k' hp)
    · exact h.congr rfl rfl rfl

theorem Owned.collectWakeups : Owned tasks x.collectWakeups := by
  have hall : ∀ (ids : List Nat) (y : Executor), Owned tasks y →
      Owned tasks (ids.foldl Executor.wakeTask y) := by
    intro ids
    induction ids with
    | nil => exact fun y hy => hy
    | cons idx ids ih => exact fun y hy => ih _ (hy.wakeTask idx)
  exact hall _ _ (h.congr rfl rfl rfl)

theorem Owned.startPoll (hidle : x.polling = none) (idx : Nat) : Owned tasks (x.startPoll idx) := by
  rw [Executor.startPoll, StandaloneTaskSlab.takeReady]
  rcases hslot : x.standaloneSlab.tasks[idx]? with _ | _ | _ | k | k
  · exact h
  · exact h
  · exact h
  · exact h
  · have hset := getElem?_set_of_some hslot TaskSlot.polling
    have hself := (hset idx).trans (if_pos rfl)
    refine h.move k idx ⟨fun j hj => (hset j).trans (if_neg hj), length_set,
      fun j k' hj => ?_, rfl⟩ rfl (.inr (.inl hslot)) (.inr (.inr ⟨hself, rfl⟩)) fun _ _ => hself
    rw [hidle]
    refine ⟨fun hp => ?_, nofun⟩
    obtain ⟨rfl, -⟩ := Prod.mk.inj (Option.some.inj hp)
    exact absurd rfl hj

theorem Owned.pollNext : Owned tasks x.pollNext := by
  rw [Executor.pollNext]
  split
  · rename_i p hpass hidle
    split
    · exact h
    · rename_i idx hidx
      dsimp only
      split
      · split
        · exact h.congr rfl rfl rfl
        · refine Owned.startPoll ?_ ?_ idx
          · exact h.congr rfl rfl rfl
          · exact hidle
      · refine Owned.startPoll ?_ ?_ idx
        · exact h.congr rfl rfl rfl
        · exact hidle
  · exact h

/-- A task is parked. -/
theorem Owned.park (hp : x.polling = some (idx, k)) :
    Owned tasks { x with polling := none, standaloneSlab := x.standaloneSlab.park idx k } := by
  have hslot := h.polled idx k hp
  have hset := getElem?_set_of_some hslot (TaskSlot.parked k)
  refine h.move k idx ⟨fun j hj => (hset j).trans (if_neg hj), length_set,
    fun j k' hj => ⟨nofun, fun hp' => ?_⟩, rfl⟩ rfl (.inr (.inr ⟨hslot, hp⟩))
    (.inl ((hset idx).trans (if_pos rfl))) nofun
  obtain ⟨rfl, -⟩ := Prod.mk.inj (Option.some.inj (hp.symm.trans hp'))
  exact absurd rfl hj

theorem Owned.endPass : Owned tasks x.endPass := by
  rw [Executor.endPass]
  split
  · split
    · refine Owned.collectWakeups ?_
      exact h.congr rfl rfl rfl
    · exact h
  · exact h

end

/-! ## Steps that end a task -/

theorem retire_of_live (h : tasks[k]? = some .live) (status : Status) (j : Nat) :
    (retire tasks k status)[j]? = if j = k then some status else tasks[j]? := by
  rw [retire, if_pos h, getElem?_set_of_some h]

theorem length_retire (tasks : List Status) (k : Nat) (status : Status) :
    (retire tasks k status).length = tasks.length := by
  rw [retire]
  split
  · exact length_set
  · rfl

/-- The slot of a living task is freed. -/
theorem Owned.release {status : Status} (h : Owned tasks x) (hk : x.Holds k idx)
    (hstatus : status ≠ .live) (hslab : x'.standaloneSlab = x.standaloneSlab.remove idx)
    (hids : x'.ids = x.ids)
    (hpolling : ∀ j k', x'.polling = some (j, k') ↔ x.polling = some (j, k') ∧ j ≠ idx) :
    Owned (retire tasks k status) x' := by
  obtain ⟨hlive, hidx⟩ := h.owner k idx hk
  have hremove : x.standaloneSlab.remove idx =
      ⟨x.standaloneSlab.tasks.set idx .empty, idx :: x.standaloneSlab.freeList⟩ := by
    rw [StandaloneTaskSlab.remove]
    rcases hk with hk | hk | ⟨hk, -⟩ <;> rw [hk]
  have hset : ∀ j, x'.standaloneSlab.tasks[j]? =
      if j = idx then some .empty else x.standaloneSlab.tasks[j]? := by
    intro j
    rw [hslab, hremove]
    rcases hk with hk | hk | ⟨hk, -⟩ <;> exact getElem?_set_of_some hk _ j
  have hself := (hset idx).trans (if_pos rfl)
  have ht : Touches x x' idx := ⟨fun j hj => (hset j).trans (if_neg hj),
    by rw [hslab, hremove, length_set],
    fun j k' hj => (hpolling j k').trans (and_iff_left hj), hids⟩
  have hgone : ∀ k', ¬ x'.Holds k' idx := by
    rintro k' (h' | h' | ⟨h', -⟩) <;> cases hself.symm.trans h'
  have hlt : idx < x.standaloneSlab.tasks.length := by
    by_contra hle
    have hnone := getElem?_eq_none_iff.mpr (Nat.le_of_not_lt hle)
    rcases hk with hk | hk | ⟨hk, -⟩ <;> cases hnone.symm.trans hk
  refine ⟨by rw [hids, length_retire, h.length], ?_, fun k' j hj => ?_, fun k' hk' => ?_,
    fun j k' hp => ?_, fun j hp => ?_⟩
  · rw [ht.length, hslab, hremove]
    refine h.free.push hlt hk.used ?_ fun j hj => ht.used hj
    rw [Executor.used, hself]
  · have hne : j ≠ idx := by
      rintro rfl
      exact hgone k' hj
    obtain ⟨hlive', hidx'⟩ := h.owner k' j ((ht.holds hne k').mp hj)
    have hkk : k' ≠ k := by
      rintro rfl
      exact hne (Option.some.inj (hidx'.symm.trans hidx))
    rw [retire_of_live hlive, if_neg hkk, hids]
    exact ⟨hlive', hidx'⟩
  · rw [retire_of_live hlive] at hk'
    split at hk'
    · exact absurd (Option.some.inj hk') hstatus
    · rename_i hkk
      obtain ⟨j, hj⟩ := h.held k' hk'
      have hne : j ≠ idx := by
        rintro rfl
        exact hkk (hk.unique hj)
      exact ⟨j, (ht.holds hne k').mpr hj⟩
  · obtain ⟨hp, hj⟩ := (hpolling j k').mp hp
    rw [ht.tasks j hj]
    exact h.polled j k' hp
  · have hj : j ≠ idx := by
      rintro rfl
      cases hself.symm.trans hp
    rw [ht.tasks j hj] at hp
    obtain ⟨k', hp⟩ := h.polling j hp
    exact ⟨k', (hpolling j k').mpr ⟨hp, hj⟩⟩

theorem Owned.finish (h : Owned tasks x) (outcome : Outcome) :
    Owned (recordStatus tasks x (.finish outcome)) (x.finish outcome) := by
  rcases hp : x.polling with _ | ⟨idx, k⟩
  · have hx : x.finish outcome = x := by rw [Executor.finish, hp]
    have htasks : recordStatus tasks x (.finish outcome) = tasks := by
      cases outcome <;> simp only [recordStatus, hp]
    rw [hx, htasks]
    exact h
  · have hk : x.Holds k idx := .inr (.inr ⟨h.polled idx k hp, hp⟩)
    have hover : ∀ status, status ≠ Status.live → Owned (retire tasks k status)
        { x with polling := none, standaloneSlab := x.standaloneSlab.remove idx } := by
      intro status hstatus
      refine h.release hk hstatus rfl rfl fun j k' => ⟨nofun, fun ⟨hj, hne⟩ => ?_⟩
      obtain ⟨rfl, -⟩ := Prod.mk.inj (Option.some.inj (hp.symm.trans hj))
      exact absurd rfl hne
    cases outcome with
    | ready =>
      simp only [recordStatus, Executor.finish, hp]
      exact hover .completed nofun
    | panic =>
      simp only [recordStatus, Executor.finish, hp]
      exact hover .panicked nofun
    | pending =>
      simp only [recordStatus, Executor.finish, hp]
      split
      · exact (h.park hp).wakeTask idx
      · exact h.park hp

theorem Owned.cancel (h : Owned tasks x) (hsafe : SafeCancel tasks x (.cancel k)) :
    Owned (retire tasks k .cancelled) (x.cancel k) := by
  rw [Executor.cancel]
  rcases hsafe k rfl with ⟨hlive, hidle⟩ | hempty
  · obtain ⟨idx, hk⟩ := h.held k hlive
    rw [(h.owner k idx hk).2]
    refine h.release hk nofun rfl rfl fun j k' => ⟨fun hp => ⟨hp, ?_⟩, And.left⟩
    rintro rfl
    exact hidle j (hk.unique (.inr (.inr ⟨h.polled j k' hp, hp⟩)) ▸ hp)
  · -- The slot is empty, and so the task is over.
    have hdead : tasks[k]? ≠ some .live := by
      intro hlive
      obtain ⟨idx, hk⟩ := h.held k hlive
      have hslot := hempty idx (h.owner k idx hk).2
      rcases hk with hk | hk | ⟨hk, -⟩ <;> cases hslot.symm.trans hk
    rw [retire, if_neg hdead]
    split
    · exact h
    · rename_i idx hidx
      rw [StandaloneTaskSlab.remove, hempty idx hidx]
      exact h

/-! ## A task begins -/

theorem Owned.spawn (h : Owned tasks x) :
    Owned (recordStatus tasks x .spawn) x.spawn := by
  rw [Executor.spawn, StandaloneTaskSlab.spawn, recordStatus]
  rcases hfree : x.standaloneSlab.freeList with _ | ⟨idx, rest⟩
  · exact h
  · have hsound := h.free
    rw [hfree] at hsound
    obtain ⟨hlt, hunused⟩ := hsound.unused idx mem_cons_self
    set x' : Executor := { x with
      standaloneSlab := ⟨x.standaloneSlab.tasks.set idx (.ready x.ids.length), rest⟩
      readyQueue := x.readyQueue ++ [idx]
      ids := x.ids ++ [idx] } with hx'
    have hset := getElem?_set_of_some (getElem?_eq_getElem hlt) (.ready x.ids.length)
    have hself : x'.standaloneSlab.tasks[idx]? = some (.ready x.ids.length) :=
      (hset idx).trans (if_pos rfl)
    have hother : ∀ j, j ≠ idx → x'.standaloneSlab.tasks[j]? = x.standaloneSlab.tasks[j]? :=
      fun j hj => (hset j).trans (if_neg hj)
    have hholds : ∀ j, j ≠ idx → ∀ k, x'.Holds k j ↔ x.Holds k j := by
      intro j hj k
      rw [Holds, Holds, hother j hj]
    have hfresh : ∀ k, ¬ x.Holds k idx := fun k hk => by
      rw [hk.used] at hunused
      cases hunused
    have hne : ∀ {k j}, x.Holds k j → j ≠ idx := by
      rintro k j hj rfl
      exact hfresh k hj
    refine ⟨?_, ?_, fun k j hj => ?_, fun k hk => ?_, fun j k hp => ?_, fun j hp => ?_⟩
    · simp [h.length]
    · rw [length_set]
      refine hsound.pop fun j hj => ?_
      rw [Executor.used, Executor.used, hother j hj]
    · rcases eq_or_ne j idx with rfl | hj'
      · obtain rfl : k = x.ids.length := Holds.unique (.inr (.inl hself)) hj
        exact ⟨by rw [h.length, getElem?_concat_length], getElem?_concat_length⟩
      · obtain ⟨hlive, hidx⟩ := h.owner k j ((hholds j hj' k).mp hj)
        exact ⟨(List.getElem?_append_left (List.getElem?_eq_some_iff.mp hlive).1).trans hlive,
          (List.getElem?_append_left (List.getElem?_eq_some_iff.mp hidx).1).trans hidx⟩
    · rcases Nat.lt_or_ge k tasks.length with hk' | hk'
      · rw [getElem?_append_left hk'] at hk
        obtain ⟨j, hj⟩ := h.held k hk
        exact ⟨j, (hholds j (hne hj) k).mpr hj⟩
      · have hlen := (List.getElem?_eq_some_iff.mp hk).1
        rw [length_append, length_singleton] at hlen
        obtain rfl : k = x.ids.length := by rw [h.length]; omega
        exact ⟨idx, .inr (.inl hself)⟩
    · have hpolled := h.polled j k hp
      have hj : j ≠ idx := hne (.inr (.inr ⟨hpolled, hp⟩))
      exact (hother j hj).trans hpolled
    · have hj : j ≠ idx := by
        rintro rfl
        cases hself.symm.trans hp
      exact h.polling j ((hother j hj).symm.trans hp)

/-! ## Runs -/

theorem owned_new (capacity : Nat) : Owned [] (new capacity) := by
  have hslot : ∀ j : Nat, (new capacity).standaloneSlab.tasks[j]? = none ∨
      (new capacity).standaloneSlab.tasks[j]? = some TaskSlot.empty := by
    intro j
    change (replicate capacity TaskSlot.empty)[j]? = none ∨
      (replicate capacity TaskSlot.empty)[j]? = _
    rw [getElem?_replicate]
    split
    · exact .inr rfl
    · exact .inl rfl
  refine ⟨rfl, ?_, fun k j hj => ?_, nofun, nofun, fun j hp => ?_⟩
  · change FreeStack.Sound (range capacity).reverse (replicate capacity _).length _
    rw [length_replicate]
    refine ((FreeStack.sound_range capacity).perm (reverse_perm _).symm).congr fun j _ => ?_
    rcases hslot j with h | h <;> rw [used, h]
  · rcases hslot j with h | h <;> rcases hj with hj | hj | ⟨hj, -⟩ <;> cases h.symm.trans hj
  · rcases hslot j with h | h <;> cases h.symm.trans hp

/-- **A step keeps the slots with their owners.** -/
theorem owned_step {e : Event} (h : Owned tasks x) (hsafe : SafeCancel tasks x e) :
    Owned (recordStatus tasks x e) (x.step e) := by
  cases e with
  | spawn => exact h.spawn
  | cancel k => exact h.cancel hsafe
  | wakeTask idx => exact h.wakeTask idx
  | wakerWake idx => exact h.congr rfl rfl rfl
  | collectWakeups => exact h.collectWakeups
  | beginPass =>
    rw [step]
    split
    · exact h.congr rfl rfl rfl
    · exact h
  | pollNext => exact h.pollNext
  | finish outcome => exact h.finish outcome
  | endPass => exact h.endPass

theorem Owned.cancelsOnly {e : Event} (h : Owned tasks x) (hsafe : SafeCancel tasks x e) :
    CancelsOnly x e := by
  rintro k rfl k' idx hne
  have h' := owned_step h hsafe
  rw [recordStatus] at h'
  have hids : (x.step (.cancel k)).ids = x.ids := by
    rw [step, Executor.cancel]
    split <;> rfl
  -- Both before and after, a task is held by the slot that its id names as long as it lives.
  have hiff : ∀ (ts : List Status) (y : Executor), Owned ts y →
      (y.Holds k' idx ↔ ts[k']? = some .live ∧ y.ids[k']? = some idx) := by
    intro ts y hy
    refine ⟨hy.owner k' idx, fun ⟨hlive, hidx⟩ => ?_⟩
    obtain ⟨j, hj⟩ := hy.held k' hlive
    cases (hidx.symm.trans (hy.owner k' j hj).2)
    exact hj
  rw [hiff _ _ h, hiff _ _ h', hids, retire]
  split
  · rw [getElem?_set_ne hne.symm]
  · exact Iff.rfl

theorem Owned.dropsOwn {e : Event} (h : Owned tasks x) (hsafe : SafeCancel tasks x e) :
    DropsOwn x e := by
  rintro k ⟨idx, hk⟩ hgone
  have hlive := (h.owner k idx hk).1
  have hdead : (recordStatus tasks x e)[k]? ≠ some .live := by
    intro hlive'
    obtain ⟨j, hj⟩ := (owned_step h hsafe).held k hlive'
    exact hgone j hj
  have hretire : ∀ k' status, (retire tasks k' status)[k]? ≠ some .live → k = k' := by
    intro k' status hne
    by_contra hkk
    rw [retire] at hne
    split at hne
    · rw [getElem?_set_ne (Ne.symm hkk)] at hne
      exact hne hlive
    · exact hne hlive
  have hfinish : ∀ status, (match x.polling with
      | some (_, k') => retire tasks k' status
      | none => tasks)[k]? ≠ some .live → ∃ j, x.polling = some (j, k) := by
    intro status hne
    rcases hp : x.polling with _ | ⟨j, k'⟩
    · rw [hp] at hne
      exact absurd hlive hne
    · rw [hp] at hne
      obtain rfl := hretire k' status hne
      exact ⟨j, rfl⟩
  cases e with
  | cancel k' =>
    obtain rfl := hretire k' .cancelled hdead
    exact .inl rfl
  | finish outcome =>
    cases outcome with
    | ready =>
      obtain ⟨j, hj⟩ := hfinish .completed hdead
      exact .inr ⟨j, hj, .inl rfl⟩
    | panic =>
      obtain ⟨j, hj⟩ := hfinish .panicked hdead
      exact .inr ⟨j, hj, .inr rfl⟩
    | pending => exact absurd hlive hdead
  | spawn =>
    rw [recordStatus] at hdead
    split at hdead
    · exact absurd hlive hdead
    · rw [List.getElem?_append_left (List.getElem?_eq_some_iff.mp hlive).1] at hdead
      exact absurd hlive hdead
  | wakeTask | wakerWake | collectWakeups | beginPass | pollNext | endPass =>
    exact absurd hlive hdead

/-- **Every living task has one slot of its own, a cancellation touches no other task, and a future
goes away only when its own task ends**, in every run whose cancellations are safe. -/
theorem tasks_exclusive (capacity : Nat) (events : List Event)
    (hsafe : ∀ p ∈ trace (withHistory step recordStatus) ([], new capacity) events,
      SafeCancel p.1.1 p.1.2 p.2) :
    Exclusive (run (withHistory step recordStatus) ([], new capacity) events).1
        (run step (new capacity) events) ∧
      ∀ p ∈ trace step (new capacity) events, CancelsOnly p.1 p.2 ∧ DropsOwn p.1 p.2 := by
  have hinv : ∀ p ∈ trace (withHistory step recordStatus) ([], new capacity) events,
      Owned p.1.1 p.1.2 → Owned (recordStatus p.1.1 p.1.2 p.2) (p.1.2.step p.2) :=
    fun p hp h => owned_step h (hsafe p hp)
  refine ⟨?_, fun ⟨x, e⟩ hx => ?_⟩
  · have h := run_invariant (P := fun p : List Status × Executor => Owned p.1 p.2)
      (owned_new capacity) hinv
    rw [run_withHistory] at h
    exact h.exclusive
  · obtain ⟨before, after, rfl, rfl⟩ := mem_trace_iff.mp hx
    have hmem : (run (withHistory step recordStatus) ([], new capacity) before, e) ∈
        trace (withHistory step recordStatus) ([], new capacity)
          (before ++ e :: after) := mem_trace_iff.mpr ⟨before, after, rfl, rfl⟩
    have h := trace_invariant (P := fun p : List Status × Executor => Owned p.1 p.2)
      (owned_new capacity) hinv _ hmem
    have hsafe := hsafe _ hmem
    rw [run_withHistory] at h hsafe
    exact ⟨h.cancelsOnly hsafe, h.dropsOwn hsafe⟩

/-- Two tasks: the first is polled and completes, the second is cancelled before it is polled. -/
def completeAndCancel : List Event :=
  [.spawn, .spawn, .beginPass, .pollNext, .finish .ready, .cancel 1, .endPass]

theorem tasks_exclusive_completeAndCancel :
    (∀ p ∈ trace (withHistory step recordStatus) ([], new 2) completeAndCancel,
      SafeCancel p.1.1 p.1.2 p.2) ∧
    Exclusive (run (withHistory step recordStatus) ([], new 2) completeAndCancel).1
        (run step (new 2) completeAndCancel) ∧
      ∀ p ∈ trace step (new 2) completeAndCancel, CancelsOnly p.1 p.2 ∧ DropsOwn p.1 p.2 := by
  have hsafe : ∀ p ∈ trace (withHistory step recordStatus) ([], new 2)
      completeAndCancel, SafeCancel p.1.1 p.1.2 p.2 := by
    simp only [completeAndCancel, trace, forall_mem_cons]
    refine ⟨?_, ?_, ?_, ?_, ?_, ?_, ?_, by simp⟩ <;> intro k hk <;> cases hk
    exact .inl ⟨rfl, fun idx hidx => by cases hidx⟩
  exact ⟨hsafe, tasks_exclusive 2 completeAndCancel hsafe⟩

/-! ## Cancellations that hit another task -/

/-- **A late cancellation drops the future of another task**, to which the slot has gone. -/
theorem late_cancel_drops_another :
    let p := run (withHistory step recordStatus) ([], new 1)
      [.spawn, .beginPass, .pollNext, .finish .ready, .spawn]
    p.1 = [.completed, .live] ∧ p.2.Holds 1 0 ∧ (∀ idx, ¬ (p.2.step (.cancel 0)).Holds 1 idx) ∧
      ¬ Exclusive (recordStatus p.1 p.2 (.cancel 0)) (p.2.step (.cancel 0)) ∧
      ¬ CancelsOnly p.2 (.cancel 0) ∧ ¬ DropsOwn p.2 (.cancel 0) := by
  intro p
  have hheld : p.2.Holds 1 0 := .inr (.inl rfl)
  have hgone : ∀ idx, ¬ (p.2.step (.cancel 0)).Holds 1 idx := by
    rintro (_ | idx) (h | h | ⟨h, -⟩) <;> cases h
  refine ⟨rfl, hheld, hgone, fun h => ?_, fun h => ?_, fun h => ?_⟩
  · obtain ⟨idx, hidx, -⟩ := h 1 rfl
    exact hgone idx hidx
  · exact hgone 0 ((h 0 rfl 1 0 (by decide)).mp hheld)
  · rcases h 1 ⟨0, hheld⟩ hgone with h | ⟨idx, h, -⟩ <;> cases h

/-- **A task that cancels itself while it is polled overwrites another**, which was spawned into the
slot that it has freed. -/
theorem self_cancel_drops_another :
    let p := run (withHistory step recordStatus) ([], new 1)
      [.spawn, .beginPass, .pollNext, .cancel 0, .spawn]
    p.1 = [.cancelled, .live] ∧ p.2.Holds 1 0 ∧
      (p.2.step (.finish .pending)).standaloneSlab.tasks = [.parked 0] ∧
      ¬ DropsOwn p.2 (.finish .pending) := by
  intro p
  have hheld : p.2.Holds 1 0 := .inr (.inl rfl)
  refine ⟨rfl, hheld, rfl, fun h => ?_⟩
  have hgone : ∀ idx, ¬ (p.2.step (.finish .pending)).Holds 1 idx := by
    rintro (_ | idx) (h | h | ⟨h, -⟩) <;> cases h
  rcases h 1 ⟨0, hheld⟩ hgone with h | ⟨idx, h, -⟩ <;> cases h

end Executor
end Ringline.Runtime
