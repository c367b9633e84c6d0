import Mathlib.Data.List.Perm.Basic

/-!
# Taking an element out of a vector

`Vec::swap_remove` puts the last element in the place of the one that is taken out.  What is left
is what the vector had, in another order (`swapRemove_perm`).

Where the elements have different keys, a program looks for a key and then works at the position it
found.  What it does there is one partial function on all elements, which leaves those with other
keys alone (`eraseIdx_eq_filterMap`, `modify_eq_filterMap`).
-/

set_option autoImplicit false

namespace Ringline

open List

/-- `Vec::swap_remove`, for an index of the vector. -/
def swapRemove {α : Type} (l : List α) (i : Nat) : List α :=
  match l.getLast? with
  | none => []
  | some last => (l.set i last).dropLast

variable {α : Type}

theorem swapRemove_perm {l : List α} {i : Nat} (h : i < l.length) :
    (swapRemove l i).Perm (l.eraseIdx i) := by
  obtain ⟨init, last, rfl⟩ : ∃ init last, l = init ++ [last] := by
    rcases eq_nil_or_concat l with rfl | ⟨init, last, rfl⟩
    · exact absurd h (Nat.not_lt_zero i)
    · exact ⟨init, last, concat_eq_append⟩
  rw [length_append, length_singleton] at h
  rw [swapRemove, getLast?_concat]
  dsimp only
  rcases Nat.lt_succ_iff_lt_or_eq.mp h with hlt | rfl
  · rw [set_append_left i last hlt, dropLast_concat,
      eraseIdx_append_of_lt_length hlt]
    exact (set_perm_cons_eraseIdx hlt last).trans (perm_append_singleton last _).symm
  · rw [set_append_right _ _ (Nat.le_refl _), Nat.sub_self, set_cons_zero,
      dropLast_concat, eraseIdx_append_of_length_le (Nat.le_refl _), Nat.sub_self]
    simp

/-- Taking out the first occurrence of an element. -/
theorem swapRemove_idxOf_perm [DecidableEq α] {l : List α} {a : α} (h : a ∈ l) :
    (swapRemove l (l.idxOf a)).Perm (l.erase a) := by
  rw [← eraseIdx_idxOf_eq_erase]
  exact swapRemove_perm (idxOf_lt_length_of_mem h)

/-! ## Elements with keys -/

/-- Selecting elements and changing them, in one pass. -/
theorem map_filter_eq_filterMap {β : Type} {p : α → Bool} {g : α → β} {f : α → Option β}
    (h : ∀ x, f x = if p x then some (g x) else none) (l : List α) :
    (l.filter p).map g = l.filterMap f := by
  induction l with
  | nil => rfl
  | cons x l ih =>
    by_cases hx : p x = true
    · rw [filter_cons_of_pos hx, map_cons, ih,
        filterMap_cons_some ((h x).trans (if_pos hx))]
    · rw [filter_cons_of_neg hx, ih, filterMap_cons_none ((h x).trans (if_neg hx))]

section

variable {κ : Type} (key : α → κ) {f : α → Option α} {l : List α} {i : Nat} {x : α}

theorem filterMap_eq_self (h : ∀ y ∈ l, f y = some y) : l.filterMap f = l :=
  (filterMap_congr h).trans filterMap_some

section

variable (h : (l.map key).Nodup) (hx : l[i]? = some x)

include h hx

/-- A partial function on a vector whose keys differ, when all that is known of it is its value at
one element and that it agrees with `g` at the others. -/
theorem filterMap_eq_around {β : Type} {f g : α → Option β}
    (hother : ∀ y, key y ≠ key x → f y = g y) :
    l.filterMap f = (l.take i).filterMap g ++ (f x).toList ++ (l.drop (i + 1)).filterMap g := by
  obtain ⟨hlt, rfl⟩ := List.getElem?_eq_some_iff.mp hx
  have hl : l = l.take i ++ l[i] :: l.drop (i + 1) := by
    rw [← drop_eq_getElem_cons hlt, take_append_drop]
  have hnodup := ((Perm.of_eq hl |>.trans perm_middle).map key).nodup_iff.mp h
  rw [map_cons, nodup_cons] at hnodup
  obtain ⟨hbefore, hbehind⟩ := forall_mem_append.mp fun y hy =>
    hother y fun heq => hnodup.1 (heq ▸ mem_map_of_mem hy)
  calc l.filterMap f = (l.take i ++ l[i] :: l.drop (i + 1)).filterMap f := congrArg _ hl
    _ = _ := by
      rw [filterMap_append, filterMap_congr hbefore, filterMap_cons, filterMap_congr hbehind,
        append_assoc]
      cases f l[i] <;> rfl

theorem eraseIdx_eq_filterMap (hself : f x = none) (hother : ∀ y, key y ≠ key x → f y = some y) :
    l.eraseIdx i = l.filterMap f := by
  rw [filterMap_eq_around key h hx hother, hself, eraseIdx_eq_take_drop_succ]
  simp

/-- A partial function that is defined at one element only. -/
theorem filterMap_eq_singleton {β : Type} {f : α → Option β} {b : β} (hself : f x = some b)
    (hother : ∀ y, key y ≠ key x → f y = none) : l.filterMap f = [b] := by
  rw [filterMap_eq_around key h hx hother, hself]
  simp

theorem modify_eq_filterMap {g : α → α} (hself : f x = some (g x))
    (hother : ∀ y, key y ≠ key x → f y = some y) : l.modify i g = l.filterMap f := by
  obtain ⟨hlt, rfl⟩ := List.getElem?_eq_some_iff.mp hx
  rw [filterMap_eq_around key h hx hother, hself, modify_eq_take_cons_drop hlt]
  simp

/-- What `swap_remove` leaves, up to the order. -/
theorem swapRemove_perm_filterMap (hself : f x = none)
    (hother : ∀ y, key y ≠ key x → f y = some y) : (swapRemove l i).Perm (l.filterMap f) := by
  rw [← eraseIdx_eq_filterMap key h hx hself hother]
  exact swapRemove_perm (List.getElem?_eq_some_iff.mp hx).1

end

/-- The element that a search finds. -/
theorem getElem?_of_findIdx? {p : α → Bool} (h : l.findIdx? p = some i) :
    ∃ x, l[i]? = some x ∧ p x = true := by
  obtain ⟨hlt, hp, -⟩ := findIdx?_eq_some_iff_getElem.mp h
  exact ⟨l[i], getElem?_eq_getElem hlt, hp⟩

end

end Ringline
