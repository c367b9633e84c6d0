import Mathlib.Data.List.Nodup
import Mathlib.Data.List.Basic

/-!
# A slab

`slab::Slab` stores values under small numbers.  A key that was removed is given to the next value
that is inserted, the last one first; a slab without such keys grows.  That the keys on the list are
vacant is part of the structure, so that an insertion never overwrites a value.
-/

set_option autoImplicit false

namespace Ringline

open List

/-- `Slab<T>`: the entries, and the vacant keys in the order in which they will be used again. -/
structure Slab (α : Type) where
  entries : List (Option α)
  vacant : List Nat
  vacant_none : ∀ k ∈ vacant, entries[k]? = some none
  nodup : vacant.Nodup

namespace Slab

variable {α : Type}

def empty : Slab α := ⟨[], [], nofun, nodup_nil⟩

variable (t : Slab α)

def get? (k : Nat) : Option α := (t.entries[k]?).join

def contains (k : Nat) : Bool := (t.get? k).isSome

/-- `Slab::iter`, its keys. -/
def keys : List Nat := (range t.entries.length).filter t.contains

/-- The key of the next value. -/
def nextKey : Nat := t.vacant.head?.getD t.entries.length

/-- `Slab::insert`, without the key. -/
def insert (v : α) : Slab α :=
  match h : t.vacant with
  | [] =>
    { entries := t.entries ++ [some v]
      vacant := []
      vacant_none := nofun
      nodup := nodup_nil }
  | k :: rest =>
    { entries := t.entries.set k (some v)
      vacant := rest
      vacant_none := by
        have hnodup := t.nodup
        rw [h, nodup_cons] at hnodup
        intro j hj
        have hne : k ≠ j := fun heq => hnodup.1 (heq ▸ hj)
        rw [getElem?_set_ne hne]
        exact t.vacant_none j (h ▸ mem_cons_of_mem k hj)
      nodup := (nodup_cons.mp (h ▸ t.nodup)).2 }

/-- A change of the value under a key. -/
def modify (t : Slab α) (k : Nat) (f : α → α) : Slab α where
  entries := t.entries.modify k (Option.map f)
  vacant := t.vacant
  vacant_none j hj := by
    rw [getElem?_modify, t.vacant_none j hj]
    split <;> rfl
  nodup := t.nodup

/-- `Slab::remove`. -/
def remove (k : Nat) : Slab α :=
  if h : t.contains k then
    { entries := t.entries.set k none
      vacant := k :: t.vacant
      vacant_none := by
        have hlt : k < t.entries.length := by
          rw [contains, get?] at h
          by_contra hge
          rw [getElem?_eq_none (Nat.not_lt.mp hge)] at h
          cases h
        intro j hj
        rcases mem_cons.mp hj with rfl | hj
        · rw [getElem?_set_self hlt]
        · rw [getElem?_set]
          split
          · rfl
          · exact t.vacant_none j hj
      nodup := by
        refine nodup_cons.mpr ⟨fun hmem => ?_, t.nodup⟩
        rw [contains, get?, t.vacant_none k hmem] at h
        exact nomatch h }
  else t

theorem contains_iff {t : Slab α} {k : Nat} : t.contains k = true ↔ ∃ v, t.get? k = some v :=
  Option.isSome_iff_exists

theorem mem_keys_iff {t : Slab α} {k : Nat} : k ∈ t.keys ↔ t.contains k = true := by
  rw [keys, mem_filter, mem_range]
  refine and_iff_right_of_imp fun h => ?_
  by_contra hge
  rw [contains, get?, getElem?_eq_none (Nat.not_lt.mp hge)] at h
  cases h

theorem nodup_keys : t.keys.Nodup := nodup_range.filter _

/-- **A value is inserted where there was none.** -/
theorem get?_nextKey : t.get? t.nextKey = none := by
  rw [nextKey, get?]
  cases h : t.vacant with
  | nil => rw [head?_nil, Option.getD_none, getElem?_eq_none (Nat.le_refl _)]; rfl
  | cons k rest =>
    rw [head?_cons, Option.getD_some, t.vacant_none k (h ▸ mem_cons_self)]
    rfl

theorem get?_insert_self (v : α) : (t.insert v).get? t.nextKey = some v := by
  obtain ⟨entries, vacant, hvacant, hnodup⟩ := t
  cases vacant with
  | nil =>
    simp only [insert, get?, nextKey, head?_nil, Option.getD_none]
    rw [getElem?_append_right (Nat.le_refl _), Nat.sub_self]
    rfl
  | cons k rest =>
    simp only [insert, get?, nextKey, head?_cons, Option.getD_some]
    have hlt := (List.getElem?_eq_some_iff.mp (hvacant k List.mem_cons_self)).1
    rw [getElem?_set_self hlt]
    rfl

theorem get?_insert_of_ne {t : Slab α} {v : α} {j : Nat} (h : j ≠ t.nextKey) :
    (t.insert v).get? j = t.get? j := by
  obtain ⟨entries, vacant, hvacant, hnodup⟩ := t
  cases vacant with
  | nil =>
    simp only [nextKey, head?_nil, Option.getD_none] at h
    simp only [insert, get?]
    rw [getElem?_append]
    split
    · rfl
    · rw [getElem?_eq_none (by rw [length_singleton]; omega),
        getElem?_eq_none (by omega)]
  | cons k rest =>
    simp only [nextKey, head?_cons, Option.getD_some] at h
    simp only [insert, get?]
    rw [getElem?_set_ne h.symm]

@[simp] theorem get?_insert (v : α) (j : Nat) :
    (t.insert v).get? j = if j = t.nextKey then some v else t.get? j := by
  split
  · rename_i heq
    rw [heq, get?_insert_self]
  · rename_i hne
    exact get?_insert_of_ne hne

@[simp] theorem get?_modify (k : Nat) (f : α → α) (j : Nat) :
    (t.modify k f).get? j = if j = k then (t.get? j).map f else t.get? j := by
  rw [modify, get?, get?, getElem?_modify]
  split
  · rename_i heq
    rw [if_pos heq.symm]
    cases t.entries[j]? with
    | none => rfl
    | some v => cases v <;> rfl
  · rename_i hne
    rw [if_neg (Ne.symm hne)]
    cases t.entries[j]? <;> rfl

/-- The number of keys that were ever used. -/
def size : Nat := t.entries.length

@[simp] theorem size_modify (k : Nat) (f : α → α) : (t.modify k f).size = t.size :=
  length_modify ..

@[simp] theorem get?_remove (k j : Nat) :
    (t.remove k).get? j = if j = k then none else t.get? j := by
  rw [remove]
  split
  · rw [get?, getElem?_set]
    split
    · rename_i heq
      rw [if_pos heq.symm]
      split <;> rfl
    · rename_i hne
      rw [if_neg (Ne.symm hne)]
      rfl
  · rename_i hnone
    split
    · rename_i heq
      rw [heq]
      cases h : t.get? k with
      | none => rfl
      | some v => exact absurd (contains_iff.mpr ⟨v, h⟩) hnone
    · rfl

end Slab
end Ringline
