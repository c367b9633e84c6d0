import Mathlib.Data.Nat.Bitwise
import Mathlib.Data.List.Basic
import Mathlib.Tactic.Ring

/-!
# Bit strings, most significant bit first

Byte-oriented codecs that are not byte-aligned think of a number as the string of its bits, most
significant first, and of a byte buffer as the concatenation of such strings.  This file has that
one notion, `natBits n v`, and the handful of facts the codecs rest on:

* `natBits_add` splits a bit string at any point, so shifting bits out of an accumulator is
  reading a prefix of it;
* `natBits_shiftLeft_or` appends a code to an accumulator;
* `natBits_mod_two_pow` says that the bits above a machine word's width never mattered;
* `natBits_prefix_iff` turns "is a prefix of" into one shift and one comparison, which is what
  makes prefix-freeness of a code table a computation on numbers.
-/

set_option autoImplicit false

namespace Ringline
namespace Bits

/-- The `n` low bits of `v`, most significant first. -/
def natBits : Nat → Nat → List Bool
  | 0, _ => []
  | n + 1, v => v.testBit n :: natBits n v

@[simp] theorem length_natBits (n v : Nat) : (natBits n v).length = n := by
  induction n with
  | zero => rfl
  | succ n ih => simp [natBits, ih]

/-- Two numbers with the same low bits have the same bit strings. -/
theorem natBits_congr {n v w : Nat} (h : ∀ i, i < n → v.testBit i = w.testBit i) :
    natBits n v = natBits n w := by
  induction n with
  | zero => rfl
  | succ n ih =>
    rw [natBits, natBits, h n (Nat.lt_succ_self n), ih fun i hi => h i (by omega)]

/-- Bits at or above position `w` do not reach a bit string of length at most `w`. -/
theorem natBits_mod_two_pow {n w : Nat} (v : Nat) (h : n ≤ w) :
    natBits n (v % 2 ^ w) = natBits n v := by
  refine natBits_congr fun i hi => ?_
  rw [Nat.testBit_mod_two_pow]
  simp [show i < w by omega]

/-- Splitting a bit string: the high part is the bit string of the shifted number. -/
theorem natBits_add (m n v : Nat) : natBits (m + n) v = natBits m (v >>> n) ++ natBits n v := by
  induction m with
  | zero => simp [natBits]
  | succ m ih =>
    rw [show m + 1 + n = (m + n) + 1 by omega, natBits, natBits, ih, Nat.testBit_shiftRight,
      Nat.add_comm n m]
    rfl

/-- Shifting an accumulator left by `n` and putting an `n`-bit code in the gap appends the code. -/
theorem natBits_shiftLeft_or {n c : Nat} (m v : Nat) (hc : c < 2 ^ n) :
    natBits (m + n) (v <<< n ||| c) = natBits m v ++ natBits n c := by
  rw [natBits_add]
  congr 1
  · refine natBits_congr fun i _ => ?_
    have hci : c.testBit (n + i) = false :=
      Nat.testBit_lt_two_pow (Nat.lt_of_lt_of_le hc (Nat.pow_le_pow_right (by omega) (by omega)))
    simp [Nat.testBit_shiftRight, Nat.testBit_or, Nat.testBit_shiftLeft, hci]
  · refine natBits_congr fun i hi => ?_
    simp [Nat.testBit_or, Nat.testBit_shiftLeft, show ¬ n ≤ i by omega]

/-- The bit string of `2 ^ n - 1` is all ones. -/
theorem natBits_two_pow_sub_one (n : Nat) : natBits n (2 ^ n - 1) = List.replicate n true := by
  suffices h : ∀ m, m ≤ n → natBits m (2 ^ n - 1) = List.replicate m true from h n le_rfl
  intro m hm
  induction m with
  | zero => rfl
  | succ m ih =>
    rw [natBits, ih (by omega), Nat.testBit_two_pow_sub_one, List.replicate_succ]
    simp [show m < n by omega]

/-- Within `n` bits, a number is determined by its bit string. -/
theorem natBits_injective {n v w : Nat} (hv : v < 2 ^ n) (hw : w < 2 ^ n)
    (h : natBits n v = natBits n w) : v = w := by
  have hlow : ∀ m, natBits m v = natBits m w → ∀ i, i < m → v.testBit i = w.testBit i := by
    intro m
    induction m with
    | zero => exact fun _ i hi => absurd hi (by omega)
    | succ m ih =>
      intro h i hi
      obtain ⟨hm, hrest⟩ := List.cons_eq_cons.mp h
      by_cases him : i = m
      · rw [him, hm]
      · exact ih hrest i (by omega)
  refine Nat.eq_of_testBit_eq fun i => ?_
  by_cases hi : i < n
  · exact hlow n h i hi
  · have hpow : 2 ^ n ≤ 2 ^ i := Nat.pow_le_pow_right (by omega) (by omega)
    rw [Nat.testBit_lt_two_pow (by omega), Nat.testBit_lt_two_pow (by omega)]

/-- A bit string is a prefix of another exactly when it is no longer and shifting the longer
number down to its length gives the shorter one. -/
theorem natBits_prefix_iff {m n v w : Nat} (hv : v < 2 ^ m) (hw : w < 2 ^ n) :
    natBits m v <+: natBits n w ↔ m ≤ n ∧ v = w >>> (n - m) := by
  constructor
  · intro h
    have hmn : m ≤ n := by simpa using h.length_le
    refine ⟨hmn, ?_⟩
    have hsplit := natBits_add m (n - m) w
    rw [show m + (n - m) = n by omega] at hsplit
    have heq : natBits m v = natBits m (w >>> (n - m)) := by
      rw [List.prefix_iff_eq_take, hsplit, length_natBits] at h
      simpa using h
    refine natBits_injective hv ?_ heq
    rw [Nat.shiftRight_eq_div_pow, Nat.div_lt_iff_lt_mul (Nat.two_pow_pos _), ← Nat.pow_add,
      show m + (n - m) = n by omega]
    exact hw
  · rintro ⟨hmn, rfl⟩
    have hsplit := natBits_add m (n - m) w
    rw [show m + (n - m) = n by omega] at hsplit
    rw [hsplit]
    exact List.prefix_append _ _

end Bits

/-- The bytes of a string literal. -/
def bytesOf (s : String) : List UInt8 := s.toUTF8.data.toList

instance decidableMemNames (name : List UInt8) (names : List (List UInt8)) :
    Decidable (name ∈ names) := inferInstance

end Ringline
