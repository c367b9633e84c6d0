import Ringline.Mio.Tasks

/-!
# The ready queue

What the functions of the executor do is said once, as a case for each thing that can happen to a
task: a future is put into a slot (`Puts`), a task is woken (`wakeTask_cases`), the pass comes to the
next entry (`Advances`, `Visits`), the pass ends (`Closes`).

* A future is in one place, and nowhere after it returned `Ready` (`Placed`).
* What is ready stands in the part of the ready queue that the pass will not skip (`Queued`), so
  nothing is ready when a pass is over (`Queued.not_ready`).
-/

set_option autoImplicit false

namespace Ringline.Mio

open List
open Ringline.Runtime (TaskSlot StandaloneTaskSlab Pass Outcome)

namespace Executor

variable (x : Executor)

/-- The future is in the slot. -/
def Stored (id : RawId) (f : Nat) : Prop :=
  x.slabs.slot id = some (.parked f) ∨ x.slabs.slot id = some (.ready f)

/-- The future is in the slot, or out of it to be polled. -/
def Holds (id : RawId) (f : Nat) : Prop :=
  x.Stored id f ∨ x.polling = some (id, f)

instance (x : Executor) (id : RawId) (f : Nat) : Decidable (x.Stored id f) :=
  inferInstanceAs (Decidable (_ ∨ _))

instance (x : Executor) (id : RawId) (f : Nat) : Decidable (x.Holds id f) :=
  inferInstanceAs (Decidable (_ ∨ _))

/-- The ready queue has an entry of the task that is still to come and will not be skipped. -/
def Coming (id : RawId) : Prop :=
  match x.pass with
  | none => id ∈ x.readyQueue
  | some p => ∃ i, x.readyQueue[i]? = some id ∧ p.cursor ≤ i ∧
      (p.initialLen ≤ i ∨ x.dedup id ≠ some true)

/-- The loop of `poll_ready_tasks` has come to its end. -/
def PassOver : Prop :=
  ∃ p, x.pass = some p ∧ x.polling = none ∧ x.readyQueue.length ≤ p.cursor

/-! ## What the functions do -/

/-- What `wake_task` does: it sets the flag, or it makes a parked task ready, or it does nothing. -/
theorem wakeTask_cases (id : RawId) :
    (∃ f, x.polling = some (id, f) ∧ x.wakeTask id = { x with wokenWhilePolling := true }) ∨
    (∃ f slabs, x.polling.map Prod.fst ≠ some id ∧ x.slabs.slot id = some (.parked f) ∧
      (∀ j, slabs.slot j = if j = id then some (.ready f) else x.slabs.slot j) ∧
      x.wakeTask id = { x with slabs := slabs, readyQueue := x.readyQueue ++ [id] }) ∨
    (x.polling.map Prod.fst ≠ some id ∧ (∀ f, x.slabs.slot id ≠ some (.parked f)) ∧
      x.wakeTask id = x) := by
  by_cases hpolling : x.polling.map Prod.fst = some id
  · left
    obtain ⟨⟨id', f⟩, hp, rfl⟩ := Option.map_eq_some_iff.mp hpolling
    exact ⟨f, hp, by rw [wakeTask, if_pos hpolling]⟩
  · right
    rcases x.slabs.wake_cases id with ⟨slabs, f, hwake, hparked, hslot⟩ | ⟨hwake, hnot⟩
    · exact .inl ⟨f, slabs, hpolling, hparked, hslot, by rw [wakeTask, if_neg hpolling, hwake]⟩
    · exact .inr ⟨hpolling, hnot, by rw [wakeTask, if_neg hpolling, hwake]⟩

/-- A future is made and put into a slot. -/
structure Puts (x x' : Executor) (id : RawId) : Prop where
  slot : ∀ j, x'.slabs.slot j =
    if j = id then (x.slabs.slot j).map fun _ => .ready x.spawned else x.slabs.slot j
  readyQueue : x'.readyQueue = x.readyQueue ++ [id]
  wakerQueue : x'.wakerQueue = x.wakerQueue
  dedup : x'.dedup = x.dedup
  pass : x'.pass = x.pass
  polling : x'.polling = x.polling
  wokenWhilePolling : x'.wokenWhilePolling = x.wokenWhilePolling
  spawned : x'.spawned = x.spawned + 1

theorem spawn_cases : x.spawn = x ∨ ∃ id, Puts x x.spawn id := by
  rw [spawn]
  split
  · exact .inl rfl
  · rename_i slab idx h
    exact .inr ⟨.standalone idx, fun j => Slabs.slot_spawn h j, rfl, rfl, rfl, rfl, rfl, rfl, rfl⟩

theorem accept_cases (conn : Nat) : x.accept conn = x ∨ ∃ id, Puts x (x.accept conn) id := by
  rw [accept]
  split
  · exact .inl rfl
  · exact .inr ⟨.conn conn, fun j => x.slabs.slot_set_tasks conn _ j, rfl, rfl, rfl, rfl, rfl, rfl,
      rfl⟩

theorem dedup_setDedup (id : RawId) (bit : Bool) (j : RawId) :
    (x.setDedup id bit).dedup j = if j = id then (x.dedup j).map fun _ => bit else x.dedup j := by
  cases id <;> cases j <;> simp [setDedup, dedup, Slabs.getElem?_set_eq]

/-- The state of a pass after its next entry. -/
structure Advances (x x' : Executor) (p : Pass) (id : RawId) : Prop where
  readyQueue : x'.readyQueue = x.readyQueue
  wakerQueue : x'.wakerQueue = x.wakerQueue
  pass : x'.pass = some { p with cursor := p.cursor + 1 }
  spawned : x'.spawned = x.spawned
  dedup : ∀ j, j ≠ id → x'.dedup j = x.dedup j
  self : x'.dedup id = some true → p.cursor < p.initialLen ∨ x.dedup id = some true

/-- What `startPoll` does. -/
theorem startPoll_cases (id : RawId) :
    (x.startPoll id = x ∧ ∀ f, x.slabs.slot id ≠ some (.ready f)) ∨
    (∃ f slabs, x.slabs.slot id = some (.ready f) ∧
      (∀ j, slabs.slot j = if j = id then some .polling else x.slabs.slot j) ∧
      x.startPoll id =
        { x with slabs := slabs, polling := some (id, f), wokenWhilePolling := false }) := by
  rw [startPoll]
  cases h : x.slabs.takeReady id with
  | none => exact .inl ⟨rfl, fun f => Slabs.takeReady_eq_none h⟩
  | some p =>
    obtain ⟨slabs, f⟩ := p
    obtain ⟨hready, hslot⟩ := Slabs.takeReady_eq_some h
    exact .inr ⟨f, slabs, hready, hslot, rfl⟩

theorem Advances.startPoll {x x' : Executor} {p : Pass} {id : RawId} (h : Advances x x' p id) :
    Advances x (x'.startPoll id) p id := by
  rcases x'.startPoll_cases id with ⟨heq, -⟩ | ⟨f, slabs, -, -, heq⟩
  · rw [heq]
    exact h
  · rw [heq]
    exact { h with }

/-- What becomes of the entry that a pass has come to. -/
inductive Visits (x x' : Executor) (p : Pass) (id : RawId) : Prop
  /-- It is skipped. -/
  | skips (hbatch : p.cursor < p.initialLen) (hbit : x.dedup id = some true)
      (hslabs : x'.slabs = x.slabs) (hpolling : x'.polling = none)
  /-- The task is not ready. -/
  | passes (hslot : ∀ f, x.slabs.slot id ≠ some (.ready f)) (hslabs : x'.slabs = x.slabs)
      (hpolling : x'.polling = none)
  | takes (f : Nat) (hready : x.slabs.slot id = some (.ready f))
      (hslot : ∀ j, x'.slabs.slot j = if j = id then some .polling else x.slabs.slot j)
      (hpolling : x'.polling = some (id, f)) (hwoken : x'.wokenWhilePolling = false)

theorem visits_startPoll {x x' : Executor} {p : Pass} {id : RawId} (hslabs : x'.slabs = x.slabs)
    (hpolling : x'.polling = none) : Visits x (x'.startPoll id) p id := by
  rcases x'.startPoll_cases id with ⟨heq, hnot⟩ | ⟨f, slabs, hready, hslot, heq⟩
  · rw [heq]
    exact .passes (hslabs ▸ hnot) hslabs hpolling
  · rw [heq]
    exact .takes f (hslabs ▸ hready) (hslabs ▸ hslot) rfl rfl

/-- **What an iteration of the loop does.** -/
theorem pollNext_cases : x.pollNext = x ∨
    ∃ p id, x.pass = some p ∧ x.polling = none ∧ x.readyQueue[p.cursor]? = some id ∧
      Advances x x.pollNext p id ∧ Visits x x.pollNext p id := by
  rw [pollNext]
  cases hpass : x.pass with
  | none => exact .inl rfl
  | some p =>
    cases hpolling : x.polling with
    | some q => exact .inl rfl
    | none =>
      dsimp only
      cases hentry : x.readyQueue[p.cursor]? with
      | none => exact .inl rfl
      | some id =>
        refine .inr ⟨p, id, rfl, rfl, hentry, ?_⟩
        -- the entry is behind us, and nothing else has happened
        have hnext : Advances x
            { x with pass := some { p with cursor := p.cursor + 1 }, polling := none } p id :=
          ⟨rfl, rfl, rfl, rfl, fun _ _ => rfl, .inr⟩
        dsimp only
        split
        · rename_i hbatch
          split
          · rename_i hbit
            exact ⟨hnext, .skips hbatch hbit rfl rfl⟩
          · have hset : Advances x (setDedup
                { x with pass := some { p with cursor := p.cursor + 1 }, polling := none } id true)
                p id := by
              refine ⟨?_, ?_, ?_, ?_, fun j hj => ?_, fun _ => .inl hbatch⟩
              · cases id <;> rfl
              · cases id <;> rfl
              · cases id <;> rfl
              · cases id <;> rfl
              · rw [dedup_setDedup, if_neg hj]
                rfl
            refine ⟨hset.startPoll, visits_startPoll ?_ ?_⟩
            · cases id <;> rfl
            · cases id <;> rfl
          · exact ⟨hnext.startPoll, visits_startPoll rfl rfl⟩
        · exact ⟨hnext.startPoll, visits_startPoll rfl rfl⟩

/-! ## A future is in one place -/

/-- Where futures are, and where they are not. -/
structure Placed (done : List Nat) (x : Executor) : Prop where
  old : ∀ id f, x.Holds id f → f < x.spawned
  alone : ∀ id id' f, x.Stored id f → x.Stored id' f → id = id'
  out : ∀ id f, x.polling = some (id, f) → ∀ id', ¬x.Stored id' f
  isOver : ∀ f ∈ done, f < x.spawned ∧ ∀ id, ¬x.Holds id f

section

variable {done : List Nat} {x x' : Executor} {id : RawId} {f : Nat}

/-- Two tasks do not hold the same future. -/
theorem Placed.eq_of_holds (h : Placed done x) {id' : RawId} (hid : x.Holds id f)
    (hid' : x.Holds id' f) : id = id' := by
  rcases hid with hid | hid <;> rcases hid' with hid' | hid'
  · exact h.alone id id' f hid hid'
  · exact absurd hid (h.out id' f hid' id)
  · exact absurd hid' (h.out id f hid id')
  · exact (Prod.mk.inj (Option.some.inj (hid.symm.trans hid'))).1

/-- Futures are dropped, and no other things happen to them. -/
theorem Placed.shrink (h : Placed done x) (hstored : ∀ j g, x'.Stored j g → x.Stored j g)
    (hpolling : ∀ q, x'.polling = some q → x.polling = some q) (hspawned : x'.spawned = x.spawned) :
    Placed done x' := by
  have hholds : ∀ {j g}, x'.Holds j g → x.Holds j g :=
    fun hh => hh.imp (hstored _ _) (hpolling _)
  refine ⟨fun j g hh => ?_, fun j k g hj hk => h.alone j k g (hstored _ _ hj) (hstored _ _ hk),
    fun j g hj k hk => h.out j g (hpolling _ hj) k (hstored _ _ hk), fun g hg => ⟨?_, fun j hh => ?_⟩⟩
  · rw [hspawned]
    exact h.old j g (hholds hh)
  · rw [hspawned]
    exact (h.isOver g hg).1
  · exact (h.isOver g hg).2 j (hholds hh)

variable {g : Nat} {j : RawId}

theorem stored_of_slot {slabs : Slabs} (h : x'.slabs = slabs)
    (hslot : ∀ j, slabs.slot j = x.slabs.slot j) : x'.Stored j g ↔ x.Stored j g := by
  rw [Stored, Stored, h, hslot]

theorem stored_wakeTask (x : Executor) (id : RawId) (j : RawId) (g : Nat) :
    (x.wakeTask id).Stored j g ↔ x.Stored j g := by
  rcases x.wakeTask_cases id with ⟨f, -, heq⟩ | ⟨f, slabs, -, hparked, hslot, heq⟩ | ⟨-, -, heq⟩
  · rw [heq]
    exact Iff.rfl
  · rw [heq, Stored, Stored]
    rw [hslot]
    split
    · rename_i hj
      rw [hj, hparked]
      simp
    · exact Iff.rfl
  · rw [heq]

theorem wakeTask_frame (x : Executor) (id : RawId) :
    (x.wakeTask id).polling = x.polling ∧ (x.wakeTask id).spawned = x.spawned ∧
      (x.wakeTask id).wakerQueue = x.wakerQueue ∧ (x.wakeTask id).pass = x.pass := by
  rcases x.wakeTask_cases id with ⟨f, -, heq⟩ | ⟨f, slabs, -, -, -, heq⟩ | ⟨-, -, heq⟩ <;>
  · rw [heq]
    exact ⟨rfl, rfl, rfl, rfl⟩

theorem stored_remove : (x.remove id).Stored j g ↔ j ≠ id ∧ x.Stored j g := by
  rw [Stored, Stored, remove]
  rw [Slabs.slot_remove]
  split
  · rename_i hj
    cases x.slabs.slot j <;> simp [hj]
  · rename_i hj
    simp [hj]

theorem stored_park (h : Stored { x with polling := none, slabs := x.slabs.park id f } j g) :
    j ≠ id ∧ x.Stored j g ∨ j = id ∧ g = f := by
  rw [Stored] at h
  rw [Slabs.slot_park] at h
  split at h
  · rename_i hj
    refine .inr ⟨hj, ?_⟩
    cases hs : x.slabs.slot j with
    | none => simp [hs] at h
    | some s => simpa [hs, eq_comm] using h
  · exact .inl ⟨‹_›, h⟩

section

variable (h : Placed done x)

include h

theorem Placed.wakeTask (id : RawId) : Placed done (x.wakeTask id) := by
  obtain ⟨hpolling, hspawned, -⟩ := x.wakeTask_frame id
  exact h.shrink (fun j g => (x.stored_wakeTask id j g).mp) (fun q hq => hpolling ▸ hq) hspawned

theorem Placed.puts (hputs : Puts x x' id) : Placed done x' := by
  -- what is stored now was stored before, or it is the new future
  have hstored : ∀ {j g}, x'.Stored j g → x.Stored j g ∨ j = id ∧ g = x.spawned := by
    intro j g hg
    rw [Stored, hputs.slot] at hg
    split at hg
    · rename_i hj
      refine .inr ⟨hj, ?_⟩
      cases hs : x.slabs.slot j with
      | none => simp [hs] at hg
      | some s => simpa [hs, eq_comm] using hg
    · exact .inl hg
  have hholds : ∀ {j g}, x'.Holds j g → x.Holds j g ∨ j = id ∧ g = x.spawned := by
    intro j g hh
    rcases hh with hh | hh
    · exact (hstored hh).imp_left .inl
    · exact .inl (.inr (hputs.polling ▸ hh))
  have hnew : ∀ {j}, ¬x.Holds j x.spawned := fun hh => Nat.lt_irrefl _ (h.old _ _ hh)
  refine ⟨fun j g hh => ?_, fun j k g hj hk => ?_, fun j g hj k hk => ?_,
    fun g hg => ⟨?_, fun j hh => ?_⟩⟩
  · rw [hputs.spawned]
    rcases hholds hh with hh | ⟨-, rfl⟩
    · exact Nat.lt_succ_of_lt (h.old j g hh)
    · exact Nat.lt_succ_self _
  · rcases hstored hj with hj | ⟨rfl, rfl⟩ <;> rcases hstored hk with hk | ⟨rfl, hg⟩
    · exact h.alone j k g hj hk
    · exact absurd (.inl (hg ▸ hj)) hnew
    · exact absurd (.inl hk) hnew
    · rfl
  · rw [hputs.polling] at hj
    rcases hstored hk with hk | ⟨rfl, rfl⟩
    · exact h.out j g hj k hk
    · exact hnew (.inr hj)
  · rw [hputs.spawned]
    exact Nat.lt_succ_of_lt (h.isOver g hg).1
  · rcases hholds hh with hh | ⟨-, rfl⟩
    · exact (h.isOver g hg).2 j hh
    · exact Nat.lt_irrefl _ (h.isOver _ hg).1

/-- A future leaves its slot to be polled. -/
theorem Placed.takes (hready : x.slabs.slot id = some (.ready f))
    (hslot : ∀ j, x'.slabs.slot j = if j = id then some .polling else x.slabs.slot j)
    (hpolling : x'.polling = some (id, f)) (hspawned : x'.spawned = x.spawned) :
    Placed done x' := by
  have hstored : ∀ {j g}, x'.Stored j g → j ≠ id ∧ x.Stored j g := by
    intro j g hg
    rw [Stored, hslot] at hg
    split at hg
    · simp at hg
    · exact ⟨‹_›, hg⟩
  have hself : x.Holds id f := .inl (.inr hready)
  have hholds : ∀ {j g}, x'.Holds j g → x.Holds j g := by
    rintro j g (hh | hh)
    · exact .inl (hstored hh).2
    · cases (Option.some_inj.mp (hpolling.symm.trans hh))
      exact hself
  refine ⟨fun j g hh => ?_, fun j k g hj hk => h.alone j k g (hstored hj).2 (hstored hk).2,
    fun j g hj k hk => ?_, fun g hg => ⟨?_, fun j hh => (h.isOver g hg).2 j (hholds hh)⟩⟩
  · rw [hspawned]
    exact h.old j g (hholds hh)
  · cases (Option.some_inj.mp (hpolling.symm.trans hj))
    exact (hstored hk).1 (h.alone k id f (hstored hk).2 (.inr hready))
  · rw [hspawned]
    exact (h.isOver g hg).1

theorem Placed.pollNext : Placed done x.pollNext := by
  rcases x.pollNext_cases with heq | ⟨p, id, -, hpolling, -, hadv, hvisits⟩
  · rw [heq]
    exact h
  · cases hvisits with
    | skips _ _ hslabs hnone | passes _ hslabs hnone =>
      refine h.shrink (fun j g => (stored_of_slot hslabs fun _ => rfl).mp) (fun q hq => ?_)
        hadv.spawned
      cases hnone.symm.trans hq
    | takes f hready hslot hpolls _ => exact h.takes hready hslot hpolls hadv.spawned

/-- A future goes back to its slot. -/
theorem Placed.park (hpolling : x.polling = some (id, f)) :
    Placed done { x with polling := none, slabs := x.slabs.park id f } := by
  have hholds : ∀ {j g}, Holds { x with polling := none, slabs := x.slabs.park id f } j g →
      x.Holds j g := by
    rintro j g (hh | hh)
    · rcases stored_park hh with ⟨-, hh⟩ | ⟨rfl, rfl⟩
      · exact .inl hh
      · exact .inr hpolling
    · cases hh
  refine ⟨fun j g hh => h.old j g (hholds hh), fun j k g hj hk => ?_, nofun,
    fun g hg => ⟨(h.isOver g hg).1, fun j hh => (h.isOver g hg).2 j (hholds hh)⟩⟩
  exact h.eq_of_holds (hholds (.inl hj)) (hholds (.inl hk))

end

/-- What each wake-up of a queue preserves. -/
theorem collectWakeups_induction {P : Executor → Prop} (hstart : P { x with wakerQueue := [] })
    (hwake : ∀ y id, y.wakerQueue = [] → P y → P (y.wakeTask id)) : P x.collectWakeups := by
  rw [collectWakeups]
  generalize hy : ({ x with wakerQueue := [] } : Executor) = y at hstart
  have hempty : y.wakerQueue = [] := by rw [← hy]
  clear hy
  generalize x.wakerQueue = q
  induction q generalizing y with
  | nil => exact hstart
  | cons id q ih =>
    exact ih (y.wakeTask id) (hwake y id hempty hstart) ((y.wakeTask_frame id).2.2.1.trans hempty)

theorem setDedups_frame (l : List RawId) (x : Executor) :
    (l.foldl (fun x id => x.setDedup id false) x) =
      { x with
        pollDedupConn := (l.foldl (fun x id => x.setDedup id false) x).pollDedupConn
        pollDedupStandalone := (l.foldl (fun x id => x.setDedup id false) x).pollDedupStandalone } := by
  induction l generalizing x with
  | nil => rfl
  | cons id l ih =>
    rw [foldl_cons, ih]
    cases id <;> rfl

/-- The bits that are reset. -/
theorem dedup_setDedups {l : List RawId}
    (h : (l.foldl (fun x id => x.setDedup id false) x).dedup j = some true) :
    x.dedup j = some true ∧ j ∉ l := by
  induction l generalizing x with
  | nil => exact ⟨h, not_mem_nil⟩
  | cons id l ih =>
    obtain ⟨hbit, hnot⟩ := ih h
    rw [dedup_setDedup] at hbit
    split at hbit
    · cases hb : x.dedup j <;> simp [hb] at hbit
    · rename_i hne
      exact ⟨hbit, fun hmem => (mem_cons.mp hmem).elim hne hnot⟩

/-- The queue is cleared and the bits are reset. -/
structure Closes (x x' : Executor) (p : Pass) : Prop where
  slabs : x'.slabs = x.slabs
  wakerQueue : x'.wakerQueue = x.wakerQueue
  polling : x'.polling = none
  wokenWhilePolling : x'.wokenWhilePolling = x.wokenWhilePolling
  spawned : x'.spawned = x.spawned
  pass : x'.pass = none
  dedup : ∀ j, x'.dedup j = some true → x.dedup j = some true ∧ j ∉ x.readyQueue.take p.initialLen

/-- **What the end of a pass does.** -/
theorem endPass_cases (x : Executor) :
    (x.endPass = x ∧ ¬x.PassOver) ∨
    ∃ p x', x.pass = some p ∧ x.PassOver ∧ Closes x x' p ∧ x.endPass = x'.collectWakeups := by
  rw [endPass]
  cases hpass : x.pass with
  | none =>
    refine .inl ⟨rfl, ?_⟩
    rintro ⟨p, hp, -⟩
    cases hpass.symm.trans hp
  | some p =>
    cases hpolling : x.polling with
    | some q =>
      refine .inl ⟨rfl, ?_⟩
      rintro ⟨-, -, hnone, -⟩
      cases hpolling.symm.trans hnone
    | none =>
      dsimp only
      split
      · rename_i hcursor
        refine .inr ⟨p, _, rfl, ⟨p, hpass, hpolling, hcursor⟩, ?_, rfl⟩
        have hframe := setDedups_frame (x.readyQueue.take p.initialLen) x
        refine ⟨?_, ?_, ?_, ?_, ?_, rfl, fun j hj => dedup_setDedups hj⟩
        all_goals rw [hframe]
        exact hpolling
      · rename_i hcursor
        refine .inl ⟨rfl, ?_⟩
        rintro ⟨q, hq, -, hle⟩
        cases (hpass.symm.trans hq)
        exact hcursor hle

end

/-! ## What is ready stands in the queue -/

/-- The state of the ready queue. -/
structure Queued (x : Executor) : Prop where
  idle : x.pass = none → x.polling = none
  busy : ∀ id f g, x.polling = some (id, f) → x.slabs.slot id ≠ some (.parked g)
  coming : ∀ id f, x.slabs.slot id = some (.ready f) → x.Coming id
  bits : ∀ id, x.dedup id = some true → ∃ p, x.pass = some p ∧ id ∈ x.readyQueue.take p.initialLen
  bound : ∀ p, x.pass = some p → p.initialLen ≤ x.readyQueue.length ∧ p.cursor ≤ x.readyQueue.length

section

variable {x x' : Executor} {id : RawId} {f : Nat}

/-- Entries are appended. -/
theorem Coming.append {l : List RawId} (h : x.Coming id) (hpass : x'.pass = x.pass)
    (hdedup : x'.dedup = x.dedup) (hqueue : x'.readyQueue = x.readyQueue ++ l) : x'.Coming id := by
  rw [Coming] at h ⊢
  rw [hpass, hdedup, hqueue]
  cases hp : x.pass with
  | none =>
    rw [hp] at h
    exact mem_append_left l h
  | some p =>
    rw [hp] at h
    obtain ⟨i, hi, hrest⟩ := h
    refine ⟨i, ?_, hrest⟩
    rw [List.getElem?_append_left (List.getElem?_eq_some_iff.mp hi).1, hi]

section

variable (h : Queued x)

include h

/-- The last entry of the queue is never skipped if it was appended in this pass. -/
theorem Queued.coming_append (hpass : x'.pass = x.pass)
    (hqueue : x'.readyQueue = x.readyQueue ++ [id]) : x'.Coming id := by
  rw [Coming, hpass, hqueue]
  cases hp : x.pass with
  | none => exact mem_append_right _ (mem_singleton_self id)
  | some p =>
    obtain ⟨hinitial, hcursor⟩ := h.bound p hp
    refine ⟨x.readyQueue.length, ?_, hcursor, .inl hinitial⟩
    rw [getElem?_append_right (Nat.le_refl _), Nat.sub_self]
    rfl

/-- A task becomes ready and is appended to the queue. -/
theorem Queued.enqueue
    (hready : ∀ j g, x'.slabs.slot j = some (.ready g) → j = id ∨ x.slabs.slot j = some (.ready g))
    (hparked : ∀ j g, x'.slabs.slot j = some (.parked g) → x.slabs.slot j = some (.parked g))
    (hqueue : x'.readyQueue = x.readyQueue ++ [id]) (hpass : x'.pass = x.pass)
    (hdedup : x'.dedup = x.dedup) (hpolling : x'.polling = x.polling) : Queued x' := by
  refine ⟨fun hp => ?_, fun j g k hj hk => ?_, fun j g hj => ?_, fun j hj => ?_, fun p hp => ?_⟩
  · rw [hpolling]
    exact h.idle (hpass ▸ hp)
  · exact h.busy j g k (hpolling ▸ hj) (hparked j k hk)
  · rcases hready j g hj with rfl | hj
    · exact h.coming_append hpass hqueue
    · exact (h.coming j g hj).append hpass hdedup hqueue
  · rw [hdedup] at hj
    obtain ⟨p, hp, hmem⟩ := h.bits j hj
    refine ⟨p, hpass.trans hp, ?_⟩
    rw [hqueue, take_append_of_le_length (h.bound p hp).1]
    exact hmem
  · obtain ⟨hinitial, hcursor⟩ := h.bound p (hpass ▸ hp)
    rw [hqueue, length_append]
    exact ⟨Nat.le_add_right_of_le hinitial, Nat.le_add_right_of_le hcursor⟩

/-- Nothing becomes ready or parked. -/
theorem Queued.shrink
    (hslot : ∀ j s, x'.slabs.slot j = some s → s = .empty ∨ x.slabs.slot j = some s)
    (hqueue : x'.readyQueue = x.readyQueue) (hpass : x'.pass = x.pass) (hdedup : x'.dedup = x.dedup)
    (hpolling : x'.polling = none ∨ x'.polling = x.polling) : Queued x' := by
  have hkept : ∀ {j s}, s ≠ .empty → x'.slabs.slot j = some s → x.slabs.slot j = some s :=
    fun hs hj => (hslot _ _ hj).resolve_left hs
  refine ⟨fun hp => ?_, fun j g k hj hk => ?_, fun j g hj => ?_, fun j hj => ?_, fun p hp => ?_⟩
  · rcases hpolling with hnone | hsame
    · exact hnone
    · rw [hsame]
      exact h.idle (hpass ▸ hp)
  · rcases hpolling with hnone | hsame
    · cases hnone.symm.trans hj
    · exact h.busy j g k (hsame ▸ hj) (hkept nofun hk)
  · have hcoming := h.coming j g (hkept nofun hj)
    rw [Coming] at hcoming ⊢
    rw [hpass, hdedup, hqueue]
    exact hcoming
  · rw [hdedup] at hj
    rw [hpass, hqueue]
    exact h.bits j hj
  · rw [hqueue]
    exact h.bound p (hpass ▸ hp)

theorem Queued.wakeTask (id : RawId) : Queued (x.wakeTask id) := by
  rcases x.wakeTask_cases id with ⟨f, -, heq⟩ | ⟨f, slabs, -, -, hslot, heq⟩ | ⟨-, -, heq⟩
  · rw [heq]
    exact h.shrink (fun _ _ hs => .inr hs) rfl rfl rfl (.inr rfl)
  · rw [heq]
    refine h.enqueue (fun j g hj => ?_) (fun j g hj => ?_) rfl rfl rfl rfl
    · rw [hslot] at hj
      split at hj
      · exact .inl ‹_›
      · exact .inr hj
    · rw [hslot] at hj
      split at hj
      · cases hj
      · exact hj
  · rw [heq]
    exact h

theorem Queued.puts (hputs : Puts x x' id) : Queued x' := by
  refine h.enqueue (fun j g hj => ?_) (fun j g hj => ?_) hputs.readyQueue hputs.pass hputs.dedup
    hputs.polling
  · rw [hputs.slot] at hj
    split at hj
    · exact .inl ‹_›
    · exact .inr hj
  · rw [hputs.slot] at hj
    split at hj
    · cases hs : x.slabs.slot j <;> simp [hs] at hj
    · exact hj

theorem Queued.begin (hpass : x.pass = none) :
    Queued { x with pass := some ⟨0, x.readyQueue.length⟩ } := by
  have hpolling := h.idle hpass
  have hbits : ∀ j, x.dedup j ≠ some true := by
    intro j hj
    obtain ⟨p, hp, -⟩ := h.bits j hj
    cases hpass.symm.trans hp
  refine ⟨nofun, fun j g k hj => ?_, fun j g hj => ?_, fun j hj => absurd hj (hbits j),
    fun p hp => ?_⟩
  · cases hpolling.symm.trans hj
  · have hcoming := h.coming j g hj
    rw [Coming, hpass] at hcoming
    obtain ⟨i, hi⟩ := mem_iff_getElem?.mp hcoming
    exact ⟨i, hi, Nat.zero_le i, .inr (hbits j)⟩
  · cases hp
    exact ⟨Nat.le_refl _, Nat.zero_le _⟩

end

variable {p : Pass}

/-- An entry of the queue is behind the pass. -/
theorem Coming.advance {j : RawId} (h : x.Coming j) (hpass : x.pass = some p)
    (hentry : x.readyQueue[p.cursor]? = some id) (hadv : Advances x x' p id)
    (hj : j = id → p.cursor < p.initialLen ∧ x.dedup id = some true) : x'.Coming j := by
  rw [Coming, hpass] at h
  obtain ⟨i, hi, hle, hrest⟩ := h
  rw [Coming, hadv.pass, hadv.readyQueue]
  rcases Nat.lt_or_eq_of_le hle with hlt | rfl
  · refine ⟨i, hi, hlt, ?_⟩
    by_cases heq : j = id
    · obtain ⟨-, hbit⟩ := hj heq
      exact .inl (hrest.resolve_right fun hnot => hnot (heq ▸ hbit))
    · rw [hadv.dedup j heq]
      exact hrest
  · -- the entry itself was one that is skipped
    have heq := Option.some.inj (hi.symm.trans hentry)
    obtain ⟨hbatch, hbit⟩ := hj heq
    rcases hrest with hge | hnot
    · omega
    · exact absurd (heq ▸ hbit) hnot

section

variable (h : Queued x)

include h

theorem Queued.advance (hpass : x.pass = some p) (hentry : x.readyQueue[p.cursor]? = some id)
    (hadv : Advances x x' p id)
    (hready : ∀ j g, x'.slabs.slot j = some (.ready g) → x.slabs.slot j = some (.ready g) ∧ (j = id → p.cursor < p.initialLen ∧ x.dedup id = some true))
    (hbusy : ∀ j g k, x'.polling = some (j, g) → x'.slabs.slot j ≠ some (.parked k)) :
    Queued x' := by
  have hlt := (List.getElem?_eq_some_iff.mp hentry).1
  obtain ⟨hinitial, -⟩ := h.bound p hpass
  refine ⟨fun hp => ?_, hbusy, fun j g hj => ?_, fun j hj => ?_, fun q hq => ?_⟩
  · cases hadv.pass.symm.trans hp
  · obtain ⟨hwas, hskip⟩ := hready j g hj
    exact (h.coming j g hwas).advance hpass hentry hadv hskip
  · refine ⟨_, hadv.pass, ?_⟩
    rw [hadv.readyQueue]
    have hold : x.dedup j = some true → j ∈ x.readyQueue.take p.initialLen := by
      intro hbit
      obtain ⟨q, hq, hmem⟩ := h.bits j hbit
      cases (hpass.symm.trans hq)
      exact hmem
    by_cases heq : j = id
    · subst heq
      rcases hadv.self hj with hbatch | hbit
      · refine List.mem_iff_getElem?.mpr ⟨p.cursor, ?_⟩
        rw [List.getElem?_take_of_lt hbatch, hentry]
      · exact hold hbit
    · exact hold (hadv.dedup j heq ▸ hj)
  · cases (hadv.pass.symm.trans hq)
    rw [hadv.readyQueue]
    exact ⟨hinitial, hlt⟩

theorem Queued.pollNext : Queued x.pollNext := by
  rcases x.pollNext_cases with heq | ⟨p, id, hpass, -, hentry, hadv, hvisits⟩
  · rw [heq]
    exact h
  · refine h.advance hpass hentry hadv (fun j g hj => ?_) (fun j g k hj hk => ?_)
    · cases hvisits with
      | skips hbatch hbit hslabs _ => exact ⟨hslabs ▸ hj, fun _ => ⟨hbatch, hbit⟩⟩
      | passes hnot hslabs _ =>
        rw [hslabs] at hj
        exact ⟨hj, fun heq => absurd (heq ▸ hj) (hnot g)⟩
      | takes f _ hslot _ _ =>
        rw [hslot] at hj
        split at hj
        · cases hj
        · exact ⟨hj, fun heq => absurd heq ‹_›⟩
    · cases hvisits with
      | skips _ _ _ hnone | passes _ _ hnone => cases hnone.symm.trans hj
      | takes f _ hslot hpolls _ =>
        obtain ⟨rfl, -⟩ := Prod.mk.inj (Option.some.inj (hpolls.symm.trans hj))
        rw [hslot, if_pos rfl] at hk
        cases hk

theorem Queued.park (id : RawId) (f : Nat) :
    Queued { x with polling := none, slabs := x.slabs.park id f } := by
  refine ⟨fun _ => rfl, nofun, fun j g hj => ?_, h.bits, h.bound⟩
  rw [Slabs.slot_park] at hj
  split at hj
  · cases hs : x.slabs.slot j <;> simp [hs] at hj
  · exact h.coming j g hj

/-- **When a pass is over, nothing is ready.** -/
theorem Queued.not_ready (hover : x.PassOver) (id : RawId) (f : Nat) :
    x.slabs.slot id ≠ some (.ready f) := by
  obtain ⟨p, hpass, -, hcursor⟩ := hover
  intro hready
  have hcoming := h.coming id f hready
  rw [Coming, hpass] at hcoming
  obtain ⟨i, hi, hle, -⟩ := hcoming
  have hlt := (List.getElem?_eq_some_iff.mp hi).1
  omega

theorem Queued.closes (hpass : x.pass = some p) (hover : x.PassOver) (hcloses : Closes x x' p) :
    Queued x' := by
  have hdedup : ∀ j, x'.dedup j ≠ some true := by
    intro j hj
    obtain ⟨hbit, hnot⟩ := hcloses.dedup j hj
    obtain ⟨q, hq, hmem⟩ := h.bits j hbit
    cases (hpass.symm.trans hq)
    exact hnot hmem
  refine ⟨fun _ => hcloses.polling, fun j g k hj => ?_, fun j g hj => ?_,
    fun j hj => absurd hj (hdedup j), fun q hq => by cases hcloses.pass.symm.trans hq⟩
  · cases hcloses.polling.symm.trans hj
  · exact absurd (hcloses.slabs ▸ hj) (h.not_ready hover j g)

end

/-! ## Both together -/

/-- A future is in one place, and what is ready stands in the queue. -/
structure Ordered (done : List Nat) (x : Executor) : Prop extends Placed done x, Queued x

variable {done : List Nat}

theorem slot_of_remove {j : RawId} {s : TaskSlot Nat} (hs : (x.remove id).slabs.slot j = some s) :
    s = .empty ∨ x.slabs.slot j = some s := by
  rw [Executor.remove] at hs
  rw [Slabs.slot_remove] at hs
  split at hs
  · obtain ⟨-, -, rfl⟩ := Option.map_eq_some_iff.mp hs
    exact .inl rfl
  · exact .inr hs

section

variable (h : Ordered done x)

include h

theorem Ordered.wakeTask (id : RawId) : Ordered done (x.wakeTask id) :=
  ⟨h.toPlaced.wakeTask id, h.toQueued.wakeTask id⟩

theorem Ordered.collectWakeups : Ordered done x.collectWakeups := by
  refine collectWakeups_induction (P := Ordered done) ⟨?_, ?_⟩ fun y id _ hy => hy.wakeTask id
  · exact h.toPlaced.shrink (fun _ _ => id) (fun _ => id) rfl
  · exact h.toQueued.shrink (fun _ _ hs => .inr hs) rfl rfl rfl (.inr rfl)

theorem Ordered.remove (id : RawId) : Ordered done (x.remove id) :=
  ⟨h.toPlaced.shrink (fun _ _ hs => (stored_remove.mp hs).2) (fun _ hq => hq) rfl,
    h.toQueued.shrink (fun _ _ => slot_of_remove) rfl rfl rfl (.inr rfl)⟩

/-- A poll ends. -/
theorem Ordered.finish (outcome : Outcome) : Ordered done (x.finish outcome) := by
  rw [Executor.finish]
  cases hpolling : x.polling with
  | none => exact h
  | some q =>
    obtain ⟨id, f⟩ := q
    have hquiet : Ordered done { x with polling := none } :=
      ⟨h.toPlaced.shrink (fun _ _ hs => hs) nofun rfl,
        h.toQueued.shrink (fun _ _ hs => .inr hs) rfl rfl rfl (.inl rfl)⟩
    have hparked : Ordered done { x with polling := none, slabs := x.slabs.park id f } :=
      ⟨h.toPlaced.park hpolling, h.toQueued.park id f⟩
    cases outcome with
    | ready => exact hquiet.remove id
    | panic => exact hquiet.remove id
    | pending =>
      dsimp only
      split
      · exact hparked.wakeTask id
      · exact hparked

/-- A future that returned `Ready` is gone. -/
theorem Ordered.finish_ready (hpolling : x.polling = some (id, f)) :
    Ordered (f :: done) (x.finish .ready) := by
  refine { h.finish .ready with isOver := fun g hg => ?_ }
  have heq : x.finish .ready = Executor.remove { x with polling := none } id := by
    rw [Executor.finish, hpolling]
  rcases mem_cons.mp hg with rfl | hg
  · refine ⟨?_, fun j hh => ?_⟩
    · rw [heq]
      exact h.old id g (.inr hpolling)
    · rw [heq] at hh
      rcases hh with hh | hh
      · exact h.out id g hpolling j (stored_remove.mp hh).2
      · cases hh
  · exact (h.finish .ready).isOver g hg

theorem Ordered.endPass : Ordered done x.endPass := by
  rcases x.endPass_cases with ⟨heq, -⟩ | ⟨p, x', hpass, hover, hcloses, heq⟩
  · rw [heq]
    exact h
  · rw [heq]
    refine Ordered.collectWakeups ⟨?_, h.toQueued.closes hpass hover hcloses⟩
    refine h.toPlaced.shrink (fun j g => ?_) (fun q hq => ?_) hcloses.spawned
    · exact (stored_of_slot hcloses.slabs fun _ => rfl).mp
    · cases hcloses.polling.symm.trans hq

end

end

end Executor
end Ringline.Mio
