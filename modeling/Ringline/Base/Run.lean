import Mathlib.Data.List.Basic

/-!
# Runs of a machine

A machine takes a step for each input.  `run` is where it ends, and `trace` lists the steps it takes
on the way, each with the state it starts from, so that a condition on a run is a condition on the
members of its trace.  `run_invariant` is induction along a run, for a property that the steps of
*this* run preserve, and `trace_invariant` says the same about every state on the way.

A property of runs often speaks about the past: what was sent so far, which inputs were seen.
`withHistory step upd` is the machine together with an observer, who updates a history from the
state and the input of every step and does not disturb the machine (`run_withHistory`).
-/

set_option autoImplicit false

namespace Ringline.Machine

variable {σ α γ : Type} (step : σ → α → σ)

/-- The state after some inputs. -/
def run (s : σ) (inputs : List α) : σ := inputs.foldl step s

/-- The steps of a run, with the states they start from. -/
def trace (step : σ → α → σ) : σ → List α → List (σ × α)
  | _, [] => []
  | s, a :: rest => (s, a) :: trace step (step s a) rest

section

variable {step : σ → α → σ} {s : σ}

@[simp] theorem run_cons (a : α) (rest : List α) :
    run step s (a :: rest) = run step (step s a) rest := rfl

@[simp] theorem run_append (as bs : List α) :
    run step s (as ++ bs) = run step (run step s as) bs := List.foldl_append

@[simp] theorem trace_append (as bs : List α) :
    trace step s (as ++ bs) = trace step s as ++ trace step (run step s as) bs := by
  induction as generalizing s with
  | nil => rfl
  | cons a as ih => rw [List.cons_append, trace, trace, ih, List.cons_append, run_cons]

/-- A step of the trace is reached by the inputs before it. -/
theorem mem_trace_iff {as : List α} {t : σ} {a : α} :
    (t, a) ∈ trace step s as ↔ ∃ before after, as = before ++ a :: after ∧ run step s before = t := by
  constructor
  · intro h
    induction as generalizing s with
    | nil => exact absurd h List.not_mem_nil
    | cons b as ih =>
      rw [trace, List.mem_cons] at h
      rcases h with h | h
      · obtain ⟨rfl, rfl⟩ := Prod.mk.inj h
        exact ⟨[], as, rfl, rfl⟩
      · obtain ⟨before, after, rfl, hrun⟩ := ih h
        exact ⟨b :: before, after, rfl, hrun⟩
  · rintro ⟨before, after, rfl, rfl⟩
    rw [trace_append, trace]
    exact List.mem_append_right _ List.mem_cons_self

theorem mem_of_mem_trace {as : List α} {x : σ × α} (h : x ∈ trace step s as) : x.2 ∈ as := by
  obtain ⟨before, after, rfl, -⟩ := mem_trace_iff.mp h
  simp

/-- **Induction along a run.** -/
theorem run_invariant {P : σ → Prop} {inputs : List α} (hinit : P s)
    (hstep : ∀ x ∈ trace step s inputs, P x.1 → P (step x.1 x.2)) : P (run step s inputs) := by
  induction inputs generalizing s with
  | nil => exact hinit
  | cons a rest ih =>
    rw [trace, List.forall_mem_cons] at hstep
    exact ih (hstep.1 hinit) hstep.2

/-- What holds along a run holds wherever a step of it starts. -/
theorem trace_invariant {P : σ → Prop} {inputs : List α} (hinit : P s)
    (hstep : ∀ x ∈ trace step s inputs, P x.1 → P (step x.1 x.2)) :
    ∀ x ∈ trace step s inputs, P x.1 := by
  rintro ⟨t, a⟩ hx
  obtain ⟨before, after, rfl, rfl⟩ := mem_trace_iff.mp hx
  refine run_invariant hinit fun y hy => hstep y ?_
  rw [trace_append]
  exact List.mem_append_left _ hy

end

/-! ## Histories -/

/-- The machine with an observer. -/
def withHistory (upd : γ → σ → α → γ) (p : γ × σ) (a : α) : γ × σ :=
  (upd p.1 p.2 a, step p.2 a)

/-- The observer does not disturb the machine. -/
@[simp] theorem run_withHistory (upd : γ → σ → α → γ) (p : γ × σ) (inputs : List α) :
    (run (withHistory step upd) p inputs).2 = run step p.2 inputs := by
  induction inputs generalizing p with
  | nil => rfl
  | cons a rest ih =>
    rw [run_cons, run_cons, ih]
    rfl

/-- What the observer watches is the trace of the machine. -/
theorem mem_trace_of_withHistory {step : σ → α → σ} {upd : γ → σ → α → γ} {p q : γ × σ} {a : α}
    {inputs : List α} (h : (q, a) ∈ trace (withHistory step upd) p inputs) :
    (q.2, a) ∈ trace step p.2 inputs := by
  obtain ⟨before, after, rfl, rfl⟩ := mem_trace_iff.mp h
  exact mem_trace_iff.mpr ⟨before, after, rfl, (run_withHistory step upd p before).symm⟩

end Ringline.Machine
