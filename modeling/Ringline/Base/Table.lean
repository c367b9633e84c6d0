import Mathlib.Algebra.GroupWithZero.Nat
import Mathlib.Data.List.Nodup
import Mathlib.Data.List.Sublists

/-!
# Tables with an iteration order

A `Table` is a finite map from keys to values that is also walked through: its entries come in some
order, which updating a value in place and removing an entry do not change.  Everything said about
single keys goes through `get?`, with one equation per operation (`get?_insert`, `get?_modify`,
`get?_erase`), and `Backed` relates the entries of a table to those it came from; `tryMap` is the walk
that updates every value and stops at the first failure.  An `Order` is a way to choose the order of a
walk from the table, as a hash map does.
-/

set_option autoImplicit false

namespace Ringline

open List

/-- A finite map with an order on its entries; no key occurs twice. -/
structure Table (κ α : Type) where
  entries : List (κ × α)
  nodup : (entries.map Prod.fst).Nodup

namespace Table

variable {κ α ε : Type} [DecidableEq κ]
variable {t : Table κ α}

def empty : Table κ α := ⟨[], nodup_nil⟩

def keys (t : Table κ α) : List κ := t.entries.map Prod.fst

def values (t : Table κ α) : List α := t.entries.map Prod.snd

def get? (t : Table κ α) (k : κ) : Option α := t.entries.lookup k

theorem lookup_eq_some_iff {l : List (κ × α)} (h : (l.map Prod.fst).Nodup) {k : κ} {v : α} :
    l.lookup k = some v ↔ (k, v) ∈ l := by
  induction l with
  | nil => simp
  | cons e l ih =>
    rw [map_cons, nodup_cons] at h
    obtain ⟨j, u⟩ := e
    rw [lookup_cons]
    rcases eq_or_ne k j with rfl | hne
    · have hnot : (k, v) ∉ l := fun hmem => h.1 (mem_map.mpr ⟨_, hmem, rfl⟩)
      simp [hnot, eq_comm]
    · rw [beq_eq_false_iff_ne.mpr hne]
      simp [ih h.2, hne]

theorem get?_eq_some_iff {k : κ} {v : α} :
    t.get? k = some v ↔ (k, v) ∈ t.entries :=
  lookup_eq_some_iff t.nodup

theorem mem_keys_iff {k : κ} : k ∈ t.keys ↔ (t.get? k).isSome = true := by
  rw [keys, mem_map, Option.isSome_iff_exists]
  constructor
  · rintro ⟨⟨j, v⟩, hmem, rfl⟩
    exact ⟨v, get?_eq_some_iff.mpr hmem⟩
  · rintro ⟨v, hv⟩
    exact ⟨(k, v), get?_eq_some_iff.mp hv, rfl⟩

/-- Tables with the same values at every key agree on which keys they have. -/
theorem get?_eq_none_iff {k : κ} : t.get? k = none ↔ k ∉ t.keys := by
  rw [mem_keys_iff, Option.not_isSome_iff_eq_none]

@[simp] theorem get?_empty (k : κ) : (empty : Table κ α).get? k = none := rfl

/-! ## Updating a value in place -/

/-- Apply `f` to the value at `k`. -/
def modify (t : Table κ α) (k : κ) (f : α → α) : Table κ α where
  entries := t.entries.map fun e => if e.1 = k then (e.1, f e.2) else e
  nodup := by
    have hkeys : (t.entries.map fun e => if e.1 = k then (e.1, f e.2) else e).map Prod.fst =
        t.entries.map Prod.fst := by
      rw [map_map]
      refine map_congr_left fun e _ => ?_
      rw [Function.comp_apply]
      split <;> rfl
    rw [hkeys]
    exact t.nodup

@[simp] theorem get?_modify (t : Table κ α) (k : κ) (f : α → α) (j : κ) :
    (t.modify k f).get? j = if j = k then (t.get? j).map f else t.get? j := by
  rw [get?, get?, modify]
  simp only
  induction t.entries with
  | nil => simp
  | cons e l ih =>
    obtain ⟨i, v⟩ := e
    rw [map_cons, lookup_cons]
    by_cases hik : i = k
    · subst hik
      rw [if_pos rfl, lookup_cons]
      by_cases hji : j = i
      · subst hji
        simp
      · rw [beq_eq_false_iff_ne.mpr hji]
        exact ih
    · rw [if_neg hik, lookup_cons]
      by_cases hji : j = i
      · subst hji
        simp [hik]
      · rw [beq_eq_false_iff_ne.mpr hji]
        exact ih

/-- A value after `modify` is the changed one, or it was there before under another key. -/
theorem get?_modify_eq_some {k j : κ} {f : α → α} {v v' : α} (hv : t.get? k = some v)
    (h : (t.modify k f).get? j = some v') : j = k ∧ v' = f v ∨ j ≠ k ∧ t.get? j = some v' := by
  rw [get?_modify] at h
  split at h
  · rename_i heq
    rw [heq, hv] at h
    exact .inl ⟨heq, (Option.some.inj h).symm⟩
  · rename_i hne
    exact .inr ⟨hne, h⟩

/-- Apply `f` to every value. -/
def map (t : Table κ α) (f : α → α) : Table κ α where
  entries := t.entries.map fun e => (e.1, f e.2)
  nodup := by
    rw [map_map]
    exact t.nodup

@[simp] theorem get?_map (t : Table κ α) (f : α → α) (k : κ) :
    (t.map f).get? k = (t.get? k).map f := by
  rw [get?, get?, map]
  simp only
  induction t.entries with
  | nil => rfl
  | cons e l ih =>
    obtain ⟨j, v⟩ := e
    rw [map_cons, lookup_cons, lookup_cons]
    rcases k == j with _ | _
    · exact ih
    · rfl

/-! ## Removing an entry -/

def erase (t : Table κ α) (k : κ) : Table κ α where
  entries := t.entries.filter fun e => e.1 ≠ k
  nodup := t.nodup.sublist (filter_sublist.map _)

@[simp] theorem get?_erase (t : Table κ α) (k j : κ) :
    (t.erase k).get? j = if j = k then none else t.get? j := by
  rcases eq_or_ne j k with rfl | hne
  · rw [if_pos rfl, get?_eq_none_iff, keys, erase]
    simp
  · rw [if_neg hne]
    ext v
    rw [get?_eq_some_iff, get?_eq_some_iff, erase, mem_filter]
    simp [hne]

theorem get?_erase_eq_some {k j : κ} {v : α} (h : (t.erase k).get? j = some v) :
    j ≠ k ∧ t.get? j = some v := by
  rw [get?_erase] at h
  split at h
  · cases h
  · rename_i hne
    exact ⟨hne, h⟩

theorem erase_of_get?_none {k : κ} (h : t.get? k = none) : t.erase k = t := by
  have hkeys : ∀ e ∈ t.entries, e.1 ≠ k := by
    rintro e he rfl
    exact get?_eq_none_iff.mp h (mem_map.mpr ⟨e, he, rfl⟩)
  obtain ⟨entries, nodup⟩ := t
  simp only [erase, mk.injEq, filter_eq_self]
  simpa using hkeys

variable (t)

/-- Remove the entries of all these keys. -/
def eraseAll (ks : List κ) : Table κ α := ks.foldl erase t

@[simp] theorem get?_eraseAll (ks : List κ) (j : κ) :
    (t.eraseAll ks).get? j = if j ∈ ks then none else t.get? j := by
  induction ks generalizing t with
  | nil => rfl
  | cons k ks ih =>
    rw [eraseAll, foldl_cons, ← eraseAll, ih, get?_erase]
    by_cases hj : j ∈ ks
    · simp [hj]
    · simp [hj]

/-! ## Adding an entry -/

/-- Set the value at `k`; a new key comes last. -/
def insert (k : κ) (v : α) : Table κ α :=
  if h : k ∈ t.entries.map Prod.fst then t.modify k fun _ => v
  else
    { entries := t.entries ++ [(k, v)]
      nodup := by
        rw [map_append, nodup_append]
        refine ⟨t.nodup, nodup_singleton k, fun a ha b hb => ?_⟩
        rw [map_singleton, mem_singleton] at hb
        rw [hb]
        rintro rfl
        exact h ha }

@[simp] theorem get?_insert (k : κ) (v : α) (j : κ) :
    (t.insert k v).get? j = if j = k then some v else t.get? j := by
  rw [insert]
  split
  · rename_i hmem
    rw [get?_modify]
    rcases eq_or_ne j k with rfl | hne
    · obtain ⟨u, hu⟩ := Option.isSome_iff_exists.mp (mem_keys_iff.mp hmem)
      rw [if_pos rfl, if_pos rfl, hu]
      rfl
    · rw [if_neg hne, if_neg hne]
  · rename_i hmem
    ext u
    rw [get?_eq_some_iff, mem_append, mem_singleton]
    rcases eq_or_ne j k with rfl | hne
    · have hnot : (j, u) ∉ t.entries := fun h => hmem (mem_map.mpr ⟨_, h, rfl⟩)
      simp [hnot, eq_comm]
    · simp [hne, get?_eq_some_iff]

/-! ## Sums over the values -/

/-- The sum of a measure over all values. -/
def weight (f : α → Nat) : Nat := (t.values.map f).sum

variable {t}

omit [DecidableEq κ] in
theorem weight_le_weight (t : Table κ α) {f g : α → Nat} (h : ∀ v, f v ≤ g v) :
    t.weight f ≤ t.weight g := by
  rw [weight, weight]
  induction t.values with
  | nil => exact Nat.le_refl _
  | cons v values ih => exact Nat.add_le_add (h v) ih

theorem weight_eq_zero {f : α → Nat} (h : ∀ k v, t.get? k = some v → f v = 0) :
    t.weight f = 0 := by
  refine List.sum_eq_zero_iff_forall_eq_nat.mpr fun x hx => ?_
  obtain ⟨v, hv, rfl⟩ := List.mem_map.mp hx
  obtain ⟨⟨k, v'⟩, he, rfl⟩ := mem_map.mp hv
  exact h k v' (get?_eq_some_iff.mpr he)

theorem weight_erase (t : Table κ α) (f : α → Nat) (k : κ) :
    (t.erase k).weight f + ((t.get? k).map f).getD 0 = t.weight f := by
  obtain ⟨entries, nodup⟩ := t
  simp only [weight, values, erase, get?]
  induction entries with
  | nil => rfl
  | cons e l ih =>
    obtain ⟨j, v⟩ := e
    rw [map_cons, nodup_cons] at nodup
    have hl := ih nodup.2
    rw [lookup_cons]
    rcases eq_or_ne k j with rfl | hne
    · -- the key is not in the rest of the list
      have hrest : l.filter (fun e => decide (e.1 ≠ k)) = l := by
        refine filter_eq_self.mpr fun e he => decide_eq_true ?_
        rintro rfl
        exact nodup.1 (mem_map.mpr ⟨e, he, rfl⟩)
      rw [filter_cons_of_neg (by simp), hrest]
      simp [Nat.add_comm]
    · rw [filter_cons_of_pos (by simp [Ne.symm hne]), beq_eq_false_iff_ne.mpr hne]
      simp only [map_cons, sum_cons]
      omega

theorem weight_modify (t : Table κ α) (f : α → Nat) (k : κ) (v : α) (h : k ∈ t.keys) :
    (t.modify k fun _ => v).weight f + ((t.get? k).map f).getD 0 = t.weight f + f v := by
  obtain ⟨entries, nodup⟩ := t
  simp only [weight, values, modify, get?, keys] at h ⊢
  induction entries with
  | nil => cases h
  | cons e l ih =>
    obtain ⟨j, u⟩ := e
    rw [map_cons, nodup_cons] at nodup
    rw [lookup_cons]
    rcases eq_or_ne k j with rfl | hne
    · have hrest : l.map (fun e => if e.1 = k then (e.1, v) else e) = l := by
        refine (map_congr_left fun e he => if_neg ?_).trans (map_id l)
        rintro rfl
        exact nodup.1 (mem_map.mpr ⟨e, he, rfl⟩)
      rw [map_cons, hrest]
      simp
      omega
    · have hmem : k ∈ l.map Prod.fst := (mem_cons.mp h).resolve_left hne
      have hl := ih nodup.2 hmem
      rw [beq_eq_false_iff_ne.mpr hne, map_cons, if_neg (Ne.symm hne)]
      simp only [map_cons, sum_cons]
      omega

theorem weight_insert (t : Table κ α) (f : α → Nat) (k : κ) (v : α) :
    (t.insert k v).weight f + ((t.get? k).map f).getD 0 = t.weight f + f v := by
  rw [insert]
  split
  · rename_i hmem
    exact weight_modify t f k v hmem
  · rename_i hmem
    rw [get?_eq_none_iff.mpr hmem]
    simp [weight, values]

/-! ## Tables that come from others -/

/-- Every entry of `t'` comes from an entry of `t`, to which it is related by `R`. -/
def Backed (R : α → α → Prop) (t t' : Table κ α) : Prop :=
  ∀ k v', t'.get? k = some v' → ∃ v, t.get? k = some v ∧ R v v'

namespace Backed

variable {R : α → α → Prop}

theorem refl (hR : ∀ v, R v v) (t : Table κ α) : Backed R t t := fun _ v hv => ⟨v, hv, hR v⟩

theorem trans (hR : ∀ {u v w}, R u v → R v w → R u w) {t₁ t₂ t₃ : Table κ α}
    (h₁ : Backed R t₁ t₂) (h₂ : Backed R t₂ t₃) : Backed R t₁ t₃ := by
  intro k v₃ hv₃
  obtain ⟨v₂, hv₂, hr₂⟩ := h₂ k v₃ hv₃
  obtain ⟨v₁, hv₁, hr₁⟩ := h₁ k v₂ hv₂
  exact ⟨v₁, hv₁, hR hr₁ hr₂⟩

/-- Entries may be removed. -/
theorem erase {t' : Table κ α} (h : Backed R t t') (k : κ) : Backed R t (t'.erase k) := by
  intro j v' hv'
  rw [get?_erase] at hv'
  split at hv'
  · cases hv'
  · exact h j v' hv'

theorem modify (hR : ∀ v, R v v) {k : κ} {f : α → α}
    (hf : ∀ v, t.get? k = some v → R v (f v)) : Backed R t (t.modify k f) := by
  intro j v' hv'
  rw [get?_modify] at hv'
  split at hv'
  · rename_i hjk
    obtain ⟨v, hv, rfl⟩ := Option.map_eq_some_iff.mp hv'
    exact ⟨v, hv, hf v (hjk ▸ hv)⟩
  · exact ⟨v', hv', hR v'⟩

theorem get?_eq_none {t' : Table κ α} (h : Backed R t t') {k : κ} (hk : t.get? k = none) :
    t'.get? k = none := by
  rcases hk' : t'.get? k with _ | v'
  · rfl
  · obtain ⟨v, hv, -⟩ := h k v' hk'
    cases hk.symm.trans hv

end Backed

/-! ## Walking through the entries -/

/-- Update the values one after the other, up to the first failure. -/
def tryMapList (f : α → Except ε α) : List (κ × α) → List (κ × α) × Except ε Unit
  | [] => ([], .ok ())
  | (k, v) :: rest =>
    match f v with
    | .error e => ((k, v) :: rest, .error e)
    | .ok v' => ((k, v') :: (tryMapList f rest).1, (tryMapList f rest).2)

omit [DecidableEq κ] in
theorem tryMapList_keys (f : α → Except ε α) (l : List (κ × α)) :
    (tryMapList f l).1.map Prod.fst = l.map Prod.fst := by
  induction l with
  | nil => rfl
  | cons e l ih =>
    rw [tryMapList]
    split
    · rfl
    · rw [map_cons, map_cons, ih]

/-- Update all values in order, up to the first failure. -/
def tryMap (t : Table κ α) (f : α → Except ε α) : Table κ α × Except ε Unit :=
  (⟨(tryMapList f t.entries).1, tryMapList_keys f t.entries ▸ t.nodup⟩,
    (tryMapList f t.entries).2)

/-- A value is updated or, once there is a failure, possibly left alone. -/
theorem get?_tryMap (t : Table κ α) (f : α → Except ε α) (k : κ) :
    ((t.tryMap f).1.get? k = t.get? k ∧ ((t.tryMap f).2 = .ok () → t.get? k = none)) ∨
      ∃ v v', t.get? k = some v ∧ f v = .ok v' ∧ (t.tryMap f).1.get? k = some v' := by
  simp only [get?, tryMap]
  induction t.entries with
  | nil => exact .inl ⟨rfl, fun _ => rfl⟩
  | cons e l ih =>
    obtain ⟨j, v⟩ := e
    rw [tryMapList]
    rcases hf : f v with e | v'
    · exact .inl ⟨rfl, nofun⟩
    · simp only [lookup_cons]
      rcases eq_or_ne k j with rfl | hne
      · exact .inr ⟨v, v', by simp, hf, by simp⟩
      · rw [beq_eq_false_iff_ne.mpr hne]
        exact ih

/-- A failure comes from some value. -/
theorem exists_of_tryMap_error {f : α → Except ε α} {e : ε} (h : (t.tryMap f).2 = .error e) :
    ∃ k v, t.get? k = some v ∧ f v = .error e := by
  have hlist : ∀ l : List (κ × α), (tryMapList f l).2 = .error e →
      ∃ k v, (k, v) ∈ l ∧ f v = .error e := by
    intro l
    induction l with
    | nil => exact fun h => by cases h
    | cons p l ih =>
      obtain ⟨k, v⟩ := p
      rw [tryMapList]
      rcases hf : f v with e' | v'
      · intro h
        obtain rfl := Except.error.inj h
        exact ⟨k, v, mem_cons_self, hf⟩
      · intro h
        obtain ⟨k, v, hmem, hv⟩ := ih h
        exact ⟨k, v, mem_cons_of_mem _ hmem, hv⟩
  obtain ⟨k, v, hmem, hv⟩ := hlist t.entries h
  exact ⟨k, v, get?_eq_some_iff.mpr hmem, hv⟩

/-- Of the values made from some keys, one belongs to each key. -/
theorem filter_map_of_nodup {β : Type} (f : κ → β) (key : β → Option κ)
    (hkey : ∀ k, key (f k) = some k) {ks : List κ} (h : ks.Nodup) (j : κ) :
    (ks.map f).filter (key · = some j) = if j ∈ ks then [f j] else [] := by
  induction ks with
  | nil => rfl
  | cons k ks ih =>
    rw [nodup_cons] at h
    rw [map_cons, filter_cons, ih h.2]
    by_cases hk : k = j
    · subst hk
      simp [hkey, h.1]
    · simp [hkey, hk, Ne.symm hk]

/-- An order in which the entries of a table are visited: the same entries, rearranged. -/
structure Order (κ α : Type) [DecidableEq κ] where
  walk : Table κ α → Table κ α
  /-- The walk changes no value. -/
  get?_walk : ∀ (t : Table κ α) (k : κ), (walk t).get? k = t.get? k

attribute [simp] Order.get?_walk

/-- The order of the entries themselves. -/
def Order.listed : Order κ α := ⟨id, fun _ _ => rfl⟩

end Table
end Ringline
