import Mathlib.Data.List.Infix
import Mathlib.Tactic.Ring

/-!
# The longest beginning that fits

A store of bounded size that takes new elements at the front and drops old ones from the back holds
the longest beginning of its history that fits.  `fit room l` is that beginning, for elements of
different sizes.

What matters is that it is monotone (`fit_mono`): with more room, and a longer history, it only gets
longer.  So a store with less room than another one knows nothing that the other one does not know,
and what it knows has the same positions there.
-/

set_option autoImplicit false

namespace Ringline.Fit

variable {α : Type} (size : α → Nat)

/-- The size of a list. -/
def total (l : List α) : Nat := (l.map size).sum

/-- The longest beginning of `l` whose size is at most `room`. -/
def fit (room : Nat) : List α → List α
  | [] => []
  | a :: l => if size a ≤ room then a :: fit (room - size a) l else []

variable {size}

theorem total_cons (a : α) (l : List α) : total size (a :: l) = size a + total size l := by
  rw [total, total, List.map_cons, List.sum_cons]

theorem total_concat (l : List α) (a : α) : total size (l ++ [a]) = total size l + size a := by
  simp [total]

/-- A list that fits is kept. -/
theorem fit_of_le {room : Nat} {l : List α} (h : total size l ≤ room) : fit size room l = l := by
  induction l generalizing room with
  | nil => rfl
  | cons a l ih =>
    rw [total_cons] at h
    rw [fit, if_pos (by omega), ih (by omega)]

/-- **More room and a longer history keep more.** -/
theorem fit_mono {room room' : Nat} {l l' : List α} (hroom : room ≤ room') (hl : l <+: l') :
    fit size room l <+: fit size room' l' := by
  induction l generalizing room room' l' with
  | nil => exact List.nil_prefix
  | cons a l ih =>
    obtain ⟨rest, rfl⟩ := hl
    rw [List.cons_append, fit, fit]
    split
    · rw [if_pos (by omega), List.cons_prefix_cons]
      exact ⟨rfl, ih (by omega) (List.prefix_append l rest)⟩
    · exact List.nil_prefix

/-- The last element is the first to go. -/
theorem fit_concat {room : Nat} {l : List α} {a : α} (h : room < total size (l ++ [a])) :
    fit size room (l ++ [a]) = fit size room l := by
  induction l generalizing room with
  | nil =>
    rw [total_concat, total, List.map_nil, List.sum_nil, Nat.zero_add] at h
    change (if size a ≤ room then [a] else []) = []
    rw [if_neg (by omega)]
  | cons b l ih =>
    rw [List.cons_append, total_cons] at h
    rw [List.cons_append, fit, fit]
    split
    · rw [ih (by omega)]
    · rfl

end Ringline.Fit
