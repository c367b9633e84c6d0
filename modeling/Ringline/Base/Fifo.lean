import Mathlib.Data.List.Basic
import Mathlib.Logic.Function.Basic

/-!
# Accounts of first-in first-out queues

A journal lists what happens to some queues, one for each key, in the order in which it happens:
symbols are put into a queue, the first ones of it are taken, and a queue is declared finished.
`Orderly` says that a journal is that of honest queues.  What is taken is a prefix of what was put
there, at every moment; a queue is declared finished only when everything has been taken; and what
waits in a queue is what has been put there and not been taken.
-/

set_option autoImplicit false

namespace Ringline.Fifo

open List

variable {κ β : Type} [DecidableEq κ]

inductive Entry (κ β : Type) where
  | queued (k : κ) (data : List β)
  | taken (k : κ) (data : List β)
  | finished (k : κ)

/-- What has been put into a queue. -/
def queuedOf (j : List (Entry κ β)) (k : κ) : List β :=
  j.flatMap fun
    | .queued i data => if i = k then data else []
    | _ => []

/-- What has been taken from a queue. -/
def takenOf (j : List (Entry κ β)) (k : κ) : List β :=
  j.flatMap fun
    | .taken i data => if i = k then data else []
    | _ => []

/-- The journal is that of honest queues, in which this waits. -/
structure Orderly (waiting : κ → List β) (j : List (Entry κ β)) : Prop where
  account : ∀ k, queuedOf j k = takenOf j k ++ waiting k
  taken : ∀ before after, j = before ++ after → ∀ k, takenOf before k <+: queuedOf before k
  finished : ∀ before k after, j = before ++ .finished k :: after →
    takenOf before k = queuedOf before k

theorem orderly_nil : Orderly (fun _ : κ => ([] : List β)) [] where
  account _ := rfl
  taken before after h k := by
    obtain ⟨rfl, rfl⟩ := append_eq_nil_iff.mp h.symm
    exact nil_prefix
  finished before k after h := absurd h.symm (append_ne_nil_of_right_ne_nil _ nofun)

/-- A prefix of a list with one more element. -/
theorem snoc_eq_append {α : Type} {l before after : List α} {a : α} (h : l ++ [a] = before ++ after) :
    (before = l ++ [a] ∧ after = []) ∨ ∃ rest, after = rest ++ [a] ∧ l = before ++ rest := by
  rcases eq_nil_or_concat after with rfl | ⟨rest, b, rfl⟩
  · exact .inl ⟨(append_nil before ▸ h).symm, rfl⟩
  · rw [concat_eq_append, ← append_assoc] at h
    obtain ⟨hl, ha⟩ := append_inj' h rfl
    rw [concat_eq_append, singleton_inj.mp ha]
    exact .inr ⟨rest, rfl, hl⟩

/-- One more entry keeps the account, if it is honest. -/
theorem Orderly.snoc {waiting waiting' : κ → List β} {j : List (Entry κ β)} {e : Entry κ β}
    (h : Orderly waiting j) (haccount : ∀ k, queuedOf (j ++ [e]) k = takenOf (j ++ [e]) k ++ waiting' k)
    (hfinished : ∀ k, e = .finished k → waiting k = []) : Orderly waiting' (j ++ [e]) where
  account := haccount
  taken before after heq k := by
    rcases snoc_eq_append heq with ⟨rfl, -⟩ | ⟨rest, -, hj⟩
    · exact ⟨waiting' k, (haccount k).symm⟩
    · exact h.taken before rest hj k
  finished before k after heq := by
    rcases snoc_eq_append heq with ⟨-, hnil⟩ | ⟨rest, hrest, hj⟩
    · cases hnil
    · rcases rest with _ | ⟨e', rest⟩
      · -- the entry that is new
        obtain ⟨rfl, -⟩ := cons.inj hrest
        rw [append_nil] at hj
        rw [← hj, h.account k, hfinished k rfl, append_nil]
      · obtain ⟨rfl, -⟩ := cons.inj hrest
        exact h.finished before k rest hj

section
variable {waiting : κ → List β} {j : List (Entry κ β)}

theorem Orderly.put (h : Orderly waiting j) (k : κ) (data : List β) :
    Orderly (Function.update waiting k (waiting k ++ data)) (j ++ [.queued k data]) := by
  refine h.snoc (fun i => ?_) nofun
  have haccount := h.account i
  rcases eq_or_ne i k with rfl | hne
  · rw [Function.update_self]
    simp [queuedOf, takenOf] at haccount ⊢
    rw [haccount]
    simp
  · rw [Function.update_of_ne hne]
    simpa [queuedOf, takenOf, Ne.symm hne] using haccount

theorem Orderly.take (h : Orderly waiting j) {k : κ} {data rest : List β}
    (hk : waiting k = data ++ rest) :
    Orderly (Function.update waiting k rest) (j ++ [.taken k data]) := by
  refine h.snoc (fun i => ?_) nofun
  have haccount := h.account i
  rcases eq_or_ne i k with rfl | hne
  · rw [hk] at haccount
    rw [Function.update_self]
    simpa [queuedOf, takenOf] using haccount
  · rw [Function.update_of_ne hne]
    simpa [queuedOf, takenOf, Ne.symm hne] using haccount

theorem Orderly.finish (h : Orderly waiting j) {k : κ} (hk : waiting k = []) :
    Orderly waiting (j ++ [.finished k]) := by
  refine h.snoc (fun i => ?_) fun i hi => ?_
  · have haccount := h.account i
    simpa [queuedOf, takenOf] using haccount
  · injection hi with hi
    rw [← hi, hk]

end

end Ringline.Fifo
