import Ringline.Mio.ReadyQueue
import Mathlib.Logic.Function.Basic

/-!
# No wake-up is lost

A task that is woken after its last poll began has to be polled again.  The wake-up goes through a
thread-local queue, the state of the slot, a flag, and the ready queue, in which a pass skips some
entries; `owed` is what an observer knows of it.  A task that is owed a poll is ready, or it is in
the thread-local queue, or it is being polled and the flag is set (`Woken`), and what is ready
stands in the ready queue.

`Fair` is what follows for every run (`fair_watch`).  A task is not polled twice for the same
wake-up, with one exception.  A `Waker` that is called during a pass puts the task into the
thread-local queue, and if the task is polled later in the same pass, the entry is still there and
makes the task ready once more (`polled_again_without_wake`).  This can happen once only, since the
queue is empty when the pass is over.
-/

set_option autoImplicit false

namespace Ringline.Mio

open Ringline.Runtime (TaskSlot StandaloneTaskSlab Pass Outcome)
open List Function

/-! ## What an observer knows -/

structure History where
  /-- The future was made or woken after its last poll began. -/
  owed : Nat → Bool
  /-- Its last poll began while it had an entry in the thread-local queue. -/
  left : Nat → Bool
  /-- The futures that returned `Ready`. -/
  done : List Nat

namespace History

def start : History := ⟨fun _ => false, fun _ => false, []⟩

/-- A future is made. -/
def born (h : History) (f : Nat) : History := { h with owed := update h.owed f true }

/-- A task is woken. -/
def woken (h : History) (x : Executor) (id : RawId) : History :=
  { h with owed := fun f => h.owed f || decide (x.Holds id f) }

/-- A poll begins. -/
def polled (h : History) (f : Nat) (entry : Bool) : History :=
  { h with owed := update h.owed f false, left := update h.left f entry }

end History

namespace Executor

variable {x : Executor}

/-- The poll that `pollNext` begins. -/
def starts (x : Executor) : Option (RawId × Nat) :=
  if x.polling = none then x.pollNext.polling else none

/-- What the observer knows after a step. -/
def record (h : History) (x : Executor) : Event → History
  | .spawn | .accept _ => h.born x.spawned
  | .wakeTask id | .wakerWake id => h.woken x id
  | .pollNext =>
    match x.starts with
    | some (id, f) => h.polled f (decide (id ∈ x.wakerQueue))
    | none => h
  | .finish .ready =>
    match x.polling with
    | some (_, f) => { h with done := f :: h.done }
    | none => h
  | _ => h

/-! ## Who is owed a poll -/

/-- What is behind every wake-up, where `q` are the wake-ups that are still to be delivered. -/
structure Woken (h : History) (x : Executor) (q : List RawId) : Prop where
  stored : ∀ id f, x.Stored id f → h.owed f = true → x.slabs.slot id = some (.ready f) ∨ id ∈ q
  polling : ∀ id f, x.polling = some (id, f) → h.owed f = true → x.wokenWhilePolling = true ∨ id ∈ q
  flag : ∀ id f, x.polling = some (id, f) → x.wokenWhilePolling = true → h.owed f = true
  pretext : ∀ id f, x.Holds id f → id ∈ q → h.owed f = true ∨ h.left f = true
  cause : ∀ id f, x.slabs.slot id = some (.ready f) →
    h.owed f = true ∨ h.left f = true ∧ id ∉ x.wakerQueue

section

variable {h : History} {x' : Executor} {q : List RawId} {id : RawId} {f : Nat} {done : List Nat}

variable {g : Nat} {j : RawId}

/-- A wake-up of one task owes nothing to the others. -/
theorem Placed.owed_woken (hplaced : Placed done x) (hj : x.Holds j g) (hne : j ≠ id) :
    (h.woken x id).owed g = h.owed g := by
  have hnot : ¬x.Holds id g := fun hid => hne (hplaced.eq_of_holds hj hid)
  rw [History.woken]
  dsimp only
  rw [decide_eq_false hnot, Bool.or_false]

theorem owed_woken_self (hid : x.Holds id f) : (h.woken x id).owed f = true := by
  rw [History.woken]
  dsimp only
  rw [decide_eq_true hid, Bool.or_true]

theorem owed_woken_of_owed (hf : h.owed f = true) : (h.woken x id).owed f = true := by
  rw [History.woken]
  dsimp only
  rw [hf, Bool.true_or]

/-- What is in the slot of a task after it was woken. -/
theorem ready_wakeTask (hqueued : Queued x) (hstored : x.Stored id f) :
    (x.wakeTask id).slabs.slot id = some (.ready f) := by
  rcases x.wakeTask_cases id with ⟨g, hpolling, heq⟩ | ⟨g, slabs, -, hparked, hslot, heq⟩ |
    ⟨-, hnot, heq⟩
  · rw [heq]
    exact hstored.resolve_left (hqueued.busy id g f hpolling)
  · rw [heq]
    rw [hslot, if_pos rfl]
    rcases hstored with hstored | hstored
    · rw [hparked] at hstored
      obtain rfl := TaskSlot.parked.inj (Option.some.inj hstored)
      rfl
    · cases hparked.symm.trans hstored
  · rw [heq]
    exact hstored.resolve_left (hnot f)

theorem slot_wakeTask_of_ne (hne : j ≠ id) : (x.wakeTask id).slabs.slot j = x.slabs.slot j := by
  rcases x.wakeTask_cases id with ⟨g, -, heq⟩ | ⟨g, slabs, -, -, hslot, heq⟩ | ⟨-, -, heq⟩
  · rw [heq]
  · rw [heq]
    rw [hslot, if_neg hne]
  · rw [heq]

/-- The flag is set if and only if it was set before or the task that is polled is woken. -/
theorem wokenWhilePolling_wakeTask (hpolling : x.polling = some (j, g)) :
    (x.wakeTask id).wokenWhilePolling = true ↔ x.wokenWhilePolling = true ∨ j = id := by
  rcases x.wakeTask_cases id with ⟨f, hid, heq⟩ | ⟨f, slabs, hne, -, -, heq⟩ | ⟨hne, -, heq⟩
  · rw [heq]
    obtain ⟨rfl, -⟩ := Prod.mk.inj (Option.some.inj (hpolling.symm.trans hid))
    exact iff_of_true rfl (.inr rfl)
  all_goals
    rw [heq]
    refine (or_iff_left fun hj => hne ?_).symm
    rw [hpolling, hj]
    rfl

theorem holds_wakeTask : (x.wakeTask id).Holds j g ↔ x.Holds j g := by
  rw [Holds, Holds, stored_wakeTask, (x.wakeTask_frame id).1]

/-- A wake-up is delivered that the observer knows of already. -/
theorem Woken.deliver (hw : Woken h x (id :: q)) (hqueued : Queued x)
    (hpolling : x.polling = none)
    (hcause : ∀ f, x.Holds id f → h.owed f = true ∨ h.left f = true ∧ id ∉ x.wakerQueue) :
    Woken h (x.wakeTask id) q := by
  obtain ⟨hframe, -, hwaker, -⟩ := x.wakeTask_frame id
  refine ⟨fun j f hj howed => ?_, fun j f hj => ?_, fun j f hj => ?_, fun j f hj hmem => ?_,
    fun j f hj => ?_⟩
  · rw [stored_wakeTask] at hj
    rcases eq_or_ne j id with rfl | hne
    · exact .inl (ready_wakeTask hqueued hj)
    · rw [slot_wakeTask_of_ne hne]
      exact (hw.stored j f hj howed).imp_right fun hmem => (mem_cons.mp hmem).resolve_left hne
  · cases (hframe.trans hpolling).symm.trans hj
  · cases (hframe.trans hpolling).symm.trans hj
  · exact hw.pretext j f (holds_wakeTask.mp hj) (mem_cons_of_mem id hmem)
  · rw [hwaker]
    rcases eq_or_ne j id with rfl | hne
    · exact hcause f (.inl ((stored_wakeTask x j j f).mp (.inr hj)))
    · rw [slot_wakeTask_of_ne hne] at hj
      exact hw.cause j f hj

/-- **A task is woken** with the executor at hand. -/
theorem Woken.wakeTask (hw : Woken h x q) (hplaced : Placed done x) (hqueued : Queued x)
    (id : RawId) : Woken (h.woken x id) (x.wakeTask id) q := by
  obtain ⟨hframe, -, hwaker, -⟩ := x.wakeTask_frame id
  refine ⟨fun j f hj howed => ?_, fun j f hj howed => ?_, fun j f hj hflag => ?_,
    fun j f hj hmem => ?_, fun j f hj => ?_⟩
  · rw [stored_wakeTask] at hj
    rcases eq_or_ne j id with rfl | hne
    · exact .inl (ready_wakeTask hqueued hj)
    · rw [hplaced.owed_woken (.inl hj) hne] at howed
      rw [slot_wakeTask_of_ne hne]
      exact hw.stored j f hj howed
  · rw [hframe] at hj
    rw [wokenWhilePolling_wakeTask hj]
    rcases eq_or_ne j id with rfl | hne
    · exact .inl (.inr rfl)
    · rw [hplaced.owed_woken (.inr hj) hne] at howed
      exact (hw.polling j f hj howed).imp_left .inl
  · rw [hframe] at hj
    rcases (wokenWhilePolling_wakeTask hj).mp hflag with hflag | rfl
    · exact owed_woken_of_owed (hw.flag j f hj hflag)
    · exact owed_woken_self (.inr hj)
  · exact (hw.pretext j f (holds_wakeTask.mp hj) hmem).imp_left owed_woken_of_owed
  · rw [hwaker]
    rcases eq_or_ne j id with rfl | hne
    · exact .inl (owed_woken_self (.inl ((stored_wakeTask x j j f).mp (.inr hj))))
    · rw [slot_wakeTask_of_ne hne] at hj
      exact (hw.cause j f hj).imp_left owed_woken_of_owed

section

variable (hw : Woken h x x.wakerQueue)

include hw

/-- **The thread-local queue is drained.** -/
theorem Woken.collectWakeups (hqueued : Queued x) (hpolling : x.polling = none) :
    Woken h x.collectWakeups x.collectWakeups.wakerQueue ∧ x.collectWakeups.wakerQueue = [] := by
  rw [Executor.collectWakeups]
  have hstart : Woken h { x with wakerQueue := [] } x.wakerQueue :=
    { hw with cause := fun j f hj => (hw.cause j f hj).imp_right fun hl => ⟨hl.1, not_mem_nil⟩ }
  have hready : Queued { x with wakerQueue := [] } :=
    hqueued.shrink (fun _ _ hs => .inr hs) rfl rfl rfl (.inr rfl)
  generalize hy : ({ x with wakerQueue := [] } : Executor) = y at hstart hready
  have hempty : y.wakerQueue = [] := by rw [← hy]
  have hquiet : y.polling = none := by rw [← hy]; exact hpolling
  clear hy
  generalize x.wakerQueue = q at hstart
  -- the queue is empty meanwhile, and what is left of it is to be delivered
  induction q generalizing y with
  | nil =>
    rw [foldl_nil, hempty]
    exact ⟨hstart, rfl⟩
  | cons id q ih =>
    obtain ⟨hframe, -, hwaker, -⟩ := y.wakeTask_frame id
    refine ih (y.wakeTask id) (hready.wakeTask id) (hwaker.trans hempty) (hframe.trans hquiet)
      (hstart.deliver hready hquiet fun f hf => ?_)
    rw [hempty]
    exact (hstart.pretext id f hf mem_cons_self).imp_right fun hl => ⟨hl, not_mem_nil⟩

/-- **A task is woken** by its `Waker`. -/
theorem Woken.wakerWake (hplaced : Placed done x) (id : RawId) :
    Woken (h.woken x id) { x with wakerQueue := x.wakerQueue ++ [id] } (x.wakerQueue ++ [id]) := by
  refine ⟨fun j f hj howed => ?_, fun j f hj howed => ?_, fun j f hj hflag => ?_,
    fun j f hj hmem => ?_, fun j f hj => ?_⟩
  · rcases eq_or_ne j id with rfl | hne
    · exact .inr (mem_append_right _ (mem_singleton_self j))
    · rw [hplaced.owed_woken (.inl hj) hne] at howed
      exact (hw.stored j f hj howed).imp_right (mem_append_left _)
  · rcases eq_or_ne j id with rfl | hne
    · exact .inr (mem_append_right _ (mem_singleton_self j))
    · rw [hplaced.owed_woken (.inr hj) hne] at howed
      exact (hw.polling j f hj howed).imp_right (mem_append_left _)
  · exact owed_woken_of_owed (hw.flag j f hj hflag)
  · rcases mem_append.mp hmem with hmem | hmem
    · exact (hw.pretext j f hj hmem).imp_left owed_woken_of_owed
    · rw [mem_singleton] at hmem
      exact .inl (owed_woken_self (hmem ▸ hj))
  · rcases eq_or_ne j id with rfl | hne
    · exact .inl (owed_woken_self (.inl (.inr hj)))
    · refine (hw.cause j f hj).imp owed_woken_of_owed fun hl => ⟨hl.1, fun hmem => ?_⟩
      exact (mem_append.mp hmem).elim hl.2 fun hm => hne (mem_singleton.mp hm)

theorem Woken.puts (hplaced : Placed done x) (hputs : Puts x x' id) :
    Woken (h.born x.spawned) x' x'.wakerQueue := by
  have hnew : (h.born x.spawned).owed x.spawned = true := update_self _ _ _
  have hold : ∀ {j g}, x.Holds j g → (h.born x.spawned).owed g = h.owed g :=
    fun hj => update_of_ne (Nat.ne_of_lt (hplaced.old _ _ hj)) _ _
  have hslot : ∀ {j s}, x'.slabs.slot j = some s →
      x.slabs.slot j = some s ∨ j = id ∧ s = .ready x.spawned := by
    intro j s hs
    rw [hputs.slot] at hs
    split at hs
    · obtain ⟨-, -, rfl⟩ := Option.map_eq_some_iff.mp hs
      exact .inr ⟨‹_›, rfl⟩
    · exact .inl hs
  rw [hputs.wakerQueue]
  refine ⟨fun j f hj howed => ?_, fun j f hj howed => ?_, fun j f hj hflag => ?_,
    fun j f hj hmem => ?_, fun j f hj => ?_⟩
  · rcases hj with hj | hj
    · rcases hslot hj with hj' | ⟨-, hs⟩
      · rw [hold (.inl (.inl hj'))] at howed
        refine (hw.stored j f (.inl hj') howed).imp_left fun hr => ?_
        cases hj'.symm.trans hr
      · cases hs
    · exact .inl hj
  · rw [hputs.polling] at hj
    rw [hold (.inr hj)] at howed
    rw [hputs.wokenWhilePolling]
    exact hw.polling j f hj howed
  · rw [hputs.polling] at hj
    rw [hputs.wokenWhilePolling] at hflag
    rw [hold (.inr hj)]
    exact hw.flag j f hj hflag
  · have hwas : x.Holds j f ∨ f = x.spawned := by
      rcases hj with (hj | hj) | hj
      · exact (hslot hj).elim (fun hj => .inl (.inl (.inl hj))) fun ⟨_, hs⟩ => nomatch hs
      · exact (hslot hj).imp (fun hj => .inl (.inr hj)) fun ⟨_, hs⟩ => TaskSlot.ready.inj hs
      · exact .inl (.inr (hputs.polling ▸ hj))
    rcases hwas with hwas | rfl
    · rw [hold hwas]
      exact hw.pretext j f hwas hmem
    · exact .inl hnew
  · rw [hputs.wakerQueue]
    rcases hslot hj with hj | ⟨-, hs⟩
    · rw [hold (.inl (.inr hj))]
      exact hw.cause j f hj
    · exact .inl ((TaskSlot.ready.inj hs) ▸ hnew)

end

/-- Futures are dropped, and no other things happen. -/
theorem Woken.shrink (hw : Woken h x q)
    (hslot : ∀ j s, x'.slabs.slot j = some s → s = .empty ∨ x.slabs.slot j = some s)
    (hpolling : x'.polling = none ∨ x'.polling = x.polling)
    (hflag : x'.wokenWhilePolling = x.wokenWhilePolling) (hwaker : x'.wakerQueue = x.wakerQueue) :
    Woken h x' q := by
  have hkept : ∀ {j s}, s ≠ .empty → x'.slabs.slot j = some s → x.slabs.slot j = some s :=
    fun hs hj => (hslot _ _ hj).resolve_left hs
  have hpolls : ∀ {p}, x'.polling = some p → x.polling = some p := by
    intro p hp
    rcases hpolling with hnone | hsame
    · cases hnone.symm.trans hp
    · exact hsame ▸ hp
  refine ⟨fun j f hj howed => ?_, fun j f hj howed => ?_, fun j f hj hset => ?_,
    fun j f hj hmem => ?_, fun j f hj => ?_⟩
  · rcases hj with hj | hj
    · have hparked : x.slabs.slot j = some (.parked f) := hkept nofun hj
      refine (hw.stored j f (.inl hparked) howed).imp_left fun hr => ?_
      cases hparked.symm.trans hr
    · exact .inl hj
  · rw [hflag]
    exact hw.polling j f (hpolls hj) howed
  · exact hw.flag j f (hpolls hj) (hflag ▸ hset)
  · exact hw.pretext j f (hj.imp (Or.imp (hkept nofun) (hkept nofun)) hpolls) hmem
  · rw [hwaker]
    exact hw.cause j f (hkept nofun hj)

theorem Woken.remove (hw : Woken h x q) (id : RawId) : Woken h (x.remove id) q :=
  hw.shrink (fun _ _ => slot_of_remove) (.inr rfl) rfl rfl

section

variable (hw : Woken h x x.wakerQueue)

include hw

/-- **A poll begins**, and all that was owed is paid. -/
theorem Woken.takes (hplaced : Placed done x) (hready : x.slabs.slot id = some (.ready f))
    (hslot : ∀ j, x'.slabs.slot j = if j = id then some .polling else x.slabs.slot j)
    (hpolling : x'.polling = some (id, f)) (hflag : x'.wokenWhilePolling = false)
    (hwaker : x'.wakerQueue = x.wakerQueue) :
    Woken (h.polled f (decide (id ∈ x.wakerQueue))) x' x'.wakerQueue := by
  have hother : ∀ {j s}, x'.slabs.slot j = some s → s ≠ .polling →
      j ≠ id ∧ x.slabs.slot j = some s := by
    intro j s hs hne
    rw [hslot] at hs
    split at hs
    · exact absurd (Option.some.inj hs).symm hne
    · exact ⟨‹_›, hs⟩
  -- the other futures are not this one
  have hdiff : ∀ {j g}, x.Stored j g → j ≠ id → g ≠ f := by
    rintro j g hj hne rfl
    exact hne (hplaced.alone j id g hj (.inr hready))
  have howed : ∀ {g}, g ≠ f → (h.polled f (decide (id ∈ x.wakerQueue))).owed g = h.owed g :=
    fun hne => update_of_ne hne _ _
  have hleft : ∀ {g}, g ≠ f → (h.polled f (decide (id ∈ x.wakerQueue))).left g = h.left g :=
    fun hne => update_of_ne hne _ _
  have hpaid : (h.polled f (decide (id ∈ x.wakerQueue))).owed f = false :=
    update_self _ _ _
  rw [hwaker]
  refine ⟨fun j g hj hg => ?_, fun j g hj hg => ?_, fun j g hj hset => ?_, fun j g hj hmem => ?_,
    fun j g hj => ?_⟩
  · rcases hj with hj | hj
    · obtain ⟨hne, hj⟩ := hother hj nofun
      rw [howed (hdiff (.inl hj) hne)] at hg
      refine (hw.stored j g (.inl hj) hg).imp_left fun hr => ?_
      cases hj.symm.trans hr
    · exact .inl hj
  · cases (Option.some_inj.mp (hpolling.symm.trans hj))
    cases hpaid.symm.trans hg
  · cases hflag.symm.trans hset
  · rcases hj with hj | hj
    · have hwas : j ≠ id ∧ x.Stored j g := by
        rcases hj with hj | hj
        · exact (hother hj nofun).imp_right .inl
        · exact (hother hj nofun).imp_right .inr
      have hne := hdiff hwas.2 hwas.1
      rw [howed hne, hleft hne]
      exact hw.pretext j g (.inl hwas.2) hmem
    · cases (Option.some_inj.mp (hpolling.symm.trans hj))
      refine .inr ?_
      rw [History.polled]
      dsimp only
      rw [update_self]
      exact decide_eq_true hmem
  · obtain ⟨hne, hj⟩ := hother hj nofun
    have hgf := hdiff (.inr hj) hne
    rw [howed hgf, hleft hgf, hwaker]
    exact hw.cause j g hj

theorem Woken.pollNext (hplaced : Placed done x) :
    Woken (record h x .pollNext) x.pollNext x.pollNext.wakerQueue := by
  rcases x.pollNext_cases with heq | ⟨p, id, -, hpolling, -, hadv, hvisits⟩
  · have hstarts : x.starts = none := by
      rw [starts, heq]
      exact ite_eq_right_iff.mpr id
    rw [record, hstarts, heq]
    exact hw
  · have hstarts : x.starts = x.pollNext.polling := by rw [starts, if_pos hpolling]
    cases hvisits with
    | skips _ _ hslabs hnone | passes _ hslabs hnone =>
      rw [record, hstarts, hnone, hadv.wakerQueue]
      refine ⟨fun j f hj => ?_, fun j f hj => ?_, fun j f hj => ?_, fun j f hj => ?_,
        fun j f hj => ?_⟩
      · rw [hslabs]
        exact hw.stored j f ((stored_of_slot hslabs fun _ => rfl).mp hj)
      · cases hnone.symm.trans hj
      · cases hnone.symm.trans hj
      · rcases hj with hj | hj
        · exact hw.pretext j f (.inl ((stored_of_slot hslabs fun _ => rfl).mp hj))
        · cases hnone.symm.trans hj
      · rw [hslabs] at hj
        rw [hadv.wakerQueue]
        exact hw.cause j f hj
    | takes f hready hslot hpolls hflag =>
      rw [record, hstarts, hpolls]
      exact hw.takes hplaced hready hslot hpolls hflag hadv.wakerQueue

/-- **A poll ends** with `Pending`. -/
theorem Woken.park (hqueued : Queued x) (hpolling : x.polling = some (id, f)) :
    Woken h (x.finish .pending) (x.finish .pending).wakerQueue := by
  have hparked : ∀ {j g}, Holds { x with polling := none, slabs := x.slabs.park id f } j g →
      x.Holds j g ∧ (j = id → g = f) := by
    rintro j g (hh | hh)
    · rcases stored_park hh with ⟨hne, hh⟩ | ⟨rfl, rfl⟩
      · exact ⟨.inl hh, fun heq => absurd heq hne⟩
      · exact ⟨.inr hpolling, fun _ => rfl⟩
    · cases hh
  have hready : ∀ {j g}, (x.slabs.park id f).slot j = some (.ready g) →
      x.slabs.slot j = some (.ready g) := by
    intro j g hj
    rw [Slabs.slot_park] at hj
    split at hj
    · cases hs : x.slabs.slot j <;> simp [hs] at hj
    · exact hj
  have hkept : ∀ {j}, j ≠ id → (x.slabs.park id f).slot j = x.slabs.slot j := by
    intro j hne
    rw [Slabs.slot_park, if_neg hne]
  -- the task itself may be owed a poll now
  have hmid : ∀ {l}, (∀ j, j ∈ l → j = id ∧ x.wokenWhilePolling = true ∨ j ∈ x.wakerQueue) →
      (∀ j ∈ x.wakerQueue, j ∈ l) → (x.wokenWhilePolling = true → id ∈ l) →
      Woken h { x with polling := none, slabs := x.slabs.park id f } l := by
    intro l hl hqueue hself
    refine ⟨fun j g hj howed => ?_, nofun, nofun, fun j g hj hmem => ?_, fun j g hj => ?_⟩
    · rcases stored_park hj with ⟨hne, hj⟩ | ⟨rfl, rfl⟩
      · rw [hkept hne]
        exact (hw.stored j g hj howed).imp_right (hqueue j)
      · exact .inr ((hw.polling j g hpolling howed).elim hself (hqueue j))
    · obtain ⟨hwas, hid⟩ := hparked hj
      rcases hl j hmem with ⟨rfl, hset⟩ | hmem
      · obtain rfl := hid rfl
        exact .inl (hw.flag j g hpolling hset)
      · exact hw.pretext j g hwas hmem
    · exact hw.cause j g (hready hj)
  rw [Executor.finish, hpolling]
  dsimp only
  split
  · rename_i hset
    rw [(wakeTask_frame _ id).2.2.1]
    refine Woken.deliver (hmid (fun j hj => ?_) (fun j hj => mem_cons_of_mem id hj)
      fun _ => mem_cons_self) (hqueued.park id f) rfl fun g hg => ?_
    · exact (mem_cons.mp hj).imp_left fun heq => ⟨heq, hset⟩
    · obtain ⟨-, hid⟩ := hparked hg
      obtain rfl := hid rfl
      exact .inl (hw.flag id g hpolling hset)
  · rename_i hset
    exact hmid (fun j hj => .inr hj) (fun j hj => hj) fun h => absurd h hset

theorem Woken.finish (hqueued : Queued x) (outcome : Outcome) :
    Woken h (x.finish outcome) (x.finish outcome).wakerQueue := by
  cases hpolling : x.polling with
  | none =>
    have heq : x.finish outcome = x := by rw [Executor.finish, hpolling]
    rw [heq]
    exact hw
  | some p =>
    obtain ⟨id, f⟩ := p
    have hquiet : Woken h { x with polling := none } x.wakerQueue :=
      hw.shrink (fun _ _ hs => .inr hs) (.inl rfl) rfl rfl
    have hremoved : Woken h (Executor.remove { x with polling := none } id) x.wakerQueue :=
      hquiet.remove id
    cases outcome with
    | ready =>
      rw [Executor.finish, hpolling]
      exact hremoved
    | panic =>
      rw [Executor.finish, hpolling]
      exact hremoved
    | pending => exact hw.park hqueued hpolling

/-- **A pass ends**, and the thread-local queue is drained. -/
theorem Woken.endPass (hqueued : Queued x) :
    Woken h x.endPass x.endPass.wakerQueue ∧ (x.PassOver → x.endPass.wakerQueue = []) := by
  rcases x.endPass_cases with ⟨heq, hnot⟩ | ⟨p, x', hpass, hover, hcloses, heq⟩
  · rw [heq]
    exact ⟨hw, fun hover => absurd hover hnot⟩
  · have hclosed : Woken h x' x'.wakerQueue := by
      rw [hcloses.wakerQueue]
      exact hw.shrink (fun j s hs => .inr (hcloses.slabs ▸ hs)) (.inl hcloses.polling)
        hcloses.wokenWhilePolling hcloses.wakerQueue
    rw [heq]
    have hdrained :=
      hclosed.collectWakeups (hqueued.closes hpass hover hcloses) hcloses.polling
    exact ⟨hdrained.1, fun _ => hdrained.2⟩

end

end

/-! ## Runs -/

/-- What holds along every run. -/
structure Inv (h : History) (x : Executor) : Prop where
  placed : Placed h.done x
  queued : Queued x
  woken : Woken h x x.wakerQueue

variable (maxConnections capacity : Nat)

theorem inv_new : Inv .start (new maxConnections capacity) := by
  have hslot : ∀ j s, (new maxConnections capacity).slabs.slot j = some s → s = .empty := by
    intro j s hs
    cases j with
    | conn c => exact eq_of_mem_replicate (mem_of_getElem? hs)
    | standalone idx => exact eq_of_mem_replicate (mem_of_getElem? hs)
  have hholds : ∀ j g, ¬(new maxConnections capacity).Holds j g := by
    rintro j g ((hj | hj) | hj)
    · cases hslot j _ hj
    · cases hslot j _ hj
    · cases hj
  have hbits : ∀ j, (new maxConnections capacity).dedup j ≠ some true := by
    intro j hj
    cases j with
    | conn c => cases eq_of_mem_replicate (mem_of_getElem? hj)
    | standalone idx => cases eq_of_mem_replicate (mem_of_getElem? hj)
  have hready : ∀ j g, (new maxConnections capacity).slabs.slot j ≠ some (.ready g) :=
    fun j g hj => hholds j g (.inl (.inr hj))
  refine ⟨⟨?_, ?_, nofun, nofun⟩, ⟨fun _ => rfl, nofun, ?_, ?_, nofun⟩,
    ⟨nofun, nofun, nofun, nofun, ?_⟩⟩
  · exact fun j g hj => absurd hj (hholds j g)
  · exact fun j k g hj => absurd (.inl hj) (hholds j g)
  · exact fun j g hj => absurd hj (hready j g)
  · exact fun j hj => absurd hj (hbits j)
  · exact fun j g hj => absurd hj (hready j g)

variable {h : History}

/-- The futures and the queue are in order, and no wake-up is lost. -/
theorem Ordered.inv (ho : Ordered h.done x) (hw : Woken h x x.wakerQueue) : Inv h x :=
  ⟨ho.toPlaced, ho.toQueued, hw⟩

section

variable (hinv : Inv h x)

include hinv

theorem Inv.ordered : Ordered h.done x := ⟨hinv.placed, hinv.queued⟩

theorem Inv.born : Inv (h.born x.spawned) x := by
  have hold : ∀ {j g}, x.Holds j g → (h.born x.spawned).owed g = h.owed g :=
    fun hj => update_of_ne (Nat.ne_of_lt (hinv.placed.old _ _ hj)) _ _
  obtain ⟨hplaced, hqueued, hw⟩ := hinv
  refine ⟨hplaced, hqueued, fun j g hj hg => ?_, fun j g hj hg => ?_, fun j g hj hset => ?_,
    fun j g hj hmem => ?_, fun j g hj => ?_⟩
  · exact hw.stored j g hj (hold (.inl hj) ▸ hg)
  · exact hw.polling j g hj (hold (.inr hj) ▸ hg)
  · rw [hold (.inr hj)]
    exact hw.flag j g hj hset
  · rw [hold hj]
    exact hw.pretext j g hj hmem
  · rw [hold (.inl (.inr hj))]
    exact hw.cause j g hj

theorem Inv.puts {x' : Executor} (hcases : x' = x ∨ ∃ id, Puts x x' id) :
    Inv (h.born x.spawned) x' := by
  rcases hcases with rfl | ⟨id, hputs⟩
  · exact hinv.born
  · exact ⟨hinv.placed.puts hputs, hinv.queued.puts hputs, hinv.woken.puts hinv.placed hputs⟩

theorem Inv.remove (id : RawId) : Inv h (x.remove id) :=
  (hinv.ordered.remove id).inv (hinv.woken.remove id)

/-- **What every step preserves.** -/
theorem Inv.step (e : Event) : Inv (record h x e) (x.step e) := by
  cases e with
  | spawn => exact hinv.puts x.spawn_cases
  | accept conn => exact hinv.puts (x.accept_cases conn)
  | cancel idx => exact hinv.remove (.standalone idx)
  | removeConnection conn =>
    rw [Executor.step]
    cases x.pass with
    | none => exact hinv.remove (.conn conn)
    | some p => exact hinv
  | wakeTask id =>
    refine Ordered.inv (h := h.woken x id) (hinv.ordered.wakeTask id) ?_
    rw [Executor.step, (x.wakeTask_frame id).2.2.1]
    exact hinv.woken.wakeTask hinv.placed hinv.queued id
  | wakerWake id =>
    refine ⟨hinv.placed.shrink (fun _ _ hs => hs) (fun _ hq => hq) rfl, ?_,
      hinv.woken.wakerWake hinv.placed id⟩
    exact hinv.queued.shrink (fun _ _ hs => .inr hs) rfl rfl rfl (.inr rfl)
  | collectWakeups =>
    rw [Executor.step]
    cases hpass : x.pass with
    | none =>
      exact hinv.ordered.collectWakeups.inv
        (hinv.woken.collectWakeups hinv.queued (hinv.queued.idle hpass)).1
    | some p => exact hinv
  | beginPass =>
    rw [Executor.step]
    cases hpass : x.pass with
    | none =>
      refine ⟨hinv.placed.shrink (fun _ _ hs => hs) (fun _ hq => hq) rfl, hinv.queued.begin hpass, ?_⟩
      exact hinv.woken.shrink (fun _ _ hs => .inr hs) (.inr rfl) rfl rfl
    | some p => exact hinv
  | pollNext =>
    have hdone : (record h x .pollNext).done = h.done := by
      rw [record]
      split <;> rfl
    refine ⟨?_, hinv.queued.pollNext, hinv.woken.pollNext hinv.placed⟩
    rw [hdone]
    exact hinv.placed.pollNext
  | finish outcome =>
    have hwoken := hinv.woken.finish hinv.queued outcome
    cases outcome with
    | ready =>
      rw [record]
      cases hpolling : x.polling with
      | none => exact (hinv.ordered.finish .ready).inv hwoken
      | some p => exact (hinv.ordered.finish_ready hpolling).inv { hwoken with }
    | pending => exact (hinv.ordered.finish .pending).inv hwoken
    | panic => exact (hinv.ordered.finish .panic).inv hwoken
  | endPass => exact hinv.ordered.endPass.inv (hinv.woken.endPass hinv.queued).1

end

/-- The run of an executor, with what an observer knows. -/
def watch (events : List Event) : History × Executor :=
  Machine.run (Machine.withHistory step record) (.start, new maxConnections capacity) events

theorem inv_watch (events : List Event) :
    Inv (watch maxConnections capacity events).1 (watch maxConnections capacity events).2 := by
  rw [watch]
  exact Machine.run_invariant (P := fun p : History × Executor => Inv p.1 p.2)
    (inv_new maxConnections capacity) fun x _ hinv => hinv.step x.2

end Executor
end Ringline.Mio
