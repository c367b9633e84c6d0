import Mathlib.Data.List.Nodup
import Mathlib.Logic.Function.Basic

/-!
# A table of cells with a stack of the free ones

Fixed pools are all built alike: cells `0 … bound - 1`, a stack of free indices, and a flag in each
cell that says whether it is in use.  `Sound` is what keeps an index from being handed out twice —
no duplicates on the stack, and nothing on it that is in use — together with how popping, pushing
and updating a cell keep it.
-/

set_option autoImplicit false

namespace Ringline.FreeStack

/-- The stack `free` has no duplicates and holds only cells below `bound` that are not in use. -/
structure Sound (free : List Nat) (bound : Nat) (used : Nat → Bool) : Prop where
  nodup : free.Nodup
  unused : ∀ i ∈ free, i < bound ∧ used i = false

variable {free rest : List Nat} {bound i : Nat} {used used' : Nat → Bool}

theorem sound_range (bound : Nat) : Sound (List.range bound) bound fun _ => false :=
  ⟨List.nodup_range, fun _ hi => ⟨List.mem_range.mp hi, rfl⟩⟩

section

variable (h : Sound free bound used)

include h

theorem Sound.notMem (hi : used i = true) : i ∉ free := by
  intro hmem
  rw [(h.unused i hmem).2] at hi
  exact Bool.false_ne_true hi

/-- Only the flags of the cells on the stack matter. -/
theorem Sound.congr (hu : ∀ j ∈ free, used' j = used j) : Sound free bound used' :=
  ⟨h.nodup, fun j hj => ⟨(h.unused j hj).1, (hu j hj).trans (h.unused j hj).2⟩⟩

/-- The order of the stack does not matter. -/
theorem Sound.perm (hp : free.Perm rest) : Sound rest bound used :=
  ⟨hp.nodup_iff.mp h.nodup, fun j hj => h.unused j (hp.mem_iff.mpr hj)⟩

/-- A cell in use may be updated at will. -/
theorem Sound.update (hi : used i = true) (hu : ∀ j, j ≠ i → used' j = used j) :
    Sound free bound used' :=
  h.congr fun j hj => hu j fun hji => h.notMem (hji ▸ hi) hj

end

/-- Pop a cell and do what one likes with it. -/
theorem Sound.pop (h : Sound (i :: rest) bound used) (hu : ∀ j, j ≠ i → used' j = used j) :
    Sound rest bound used' := by
  obtain ⟨hi, hrest⟩ := List.nodup_cons.mp h.nodup
  refine ⟨hrest, fun j hj => ?_⟩
  obtain ⟨hlt, hfree⟩ := h.unused j (List.mem_cons_of_mem _ hj)
  exact ⟨hlt, (hu j fun hji => hi (hji ▸ hj)).trans hfree⟩

/-- Push a cell that was in use, with its flag cleared. -/
theorem Sound.push (h : Sound free bound used) (hlt : i < bound) (hi : used i = true)
    (hclear : used' i = false) (hu : ∀ j, j ≠ i → used' j = used j) :
    Sound (i :: free) bound used' := by
  refine ⟨List.nodup_cons.mpr ⟨h.notMem hi, h.nodup⟩, fun j hj => ?_⟩
  rcases List.mem_cons.mp hj with rfl | hj
  · exact ⟨hlt, hclear⟩
  · exact ⟨(h.unused j hj).1, (hu j fun hji => h.notMem (hji ▸ hi) hj).trans (h.unused j hj).2⟩

end Ringline.FreeStack
