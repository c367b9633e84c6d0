import Mathlib.Data.Nat.Bitwise
import Mathlib.Tactic.Ring

/-!
# HPACK prefix integers

The integer codec of RFC 7541 Section 5.1 as `ringline-h2/src/hpack.rs` implements it: the low
`prefixBits` bits of a byte whose high bits are a pattern, followed, for larger values, by groups
of seven bits, least significant group first, with the top bit of a group saying that another one
follows.

The decoder adds the groups up in a `u64` and gives up with "overflow protection" when a ninth
group still asks for another one.  So nine groups are the most it reads, and the round trip
`decodePrefixInt_encodePrefixInt` is for values whose remainder after the prefix fits 63 bits; the
encoder writes a tenth group for larger ones.
-/

set_option autoImplicit false

namespace Ringline.H2

/-- The loop of `encode_prefix_int` over the remainder.  The first argument bounds the number of
continuation groups; a `u64` has at most nine before its last group. -/
def encodeContinuation : Nat → Nat → List UInt8
  | 0, remaining => [UInt8.ofNat remaining]
  | k + 1, remaining =>
    if remaining ≥ 128 then
      (0x80 ||| UInt8.ofNat (remaining &&& 0x7f)) :: encodeContinuation k (remaining >>> 7)
    else [UInt8.ofNat remaining]

/-- `encode_prefix_int`: the bytes it appends for the `u64` `value`. -/
def encodePrefixInt (value prefixBits : Nat) (pattern : UInt8) : List UInt8 :=
  let max := 2 ^ prefixBits - 1
  if value < max then [pattern ||| UInt8.ofNat value]
  else (pattern ||| UInt8.ofNat max) :: encodeContinuation 9 (value - max)

/-- The loop of `decode_prefix_int` over the bytes after the first one, with the `u64` sum so far,
the shift of the next group and the position. -/
def decodeContinuation : Nat → Nat → Nat → List UInt8 → Option (Nat × Nat)
  | _, _, _, [] => none -- incomplete
  | value, shift, i, b :: rest =>
    let value := (value + (b &&& 0x7f).toNat <<< shift) % 2 ^ 64
    let shift := shift + 7
    if b &&& 0x80 = 0 then some (value, i + 2)
    else if shift > 56 then none -- overflow protection
    else decodeContinuation value shift (i + 1) rest

/-- `decode_prefix_int`: the value and the number of bytes it takes. -/
def decodePrefixInt (buf : List UInt8) (prefixBits : Nat) : Option (Nat × Nat) :=
  match buf with
  | [] => none
  | first :: rest =>
    let max := 2 ^ prefixBits - 1
    let value := first.toNat &&& max
    if value < max then some (value, 1)
    else decodeContinuation max 0 0 rest

/-! ## Round trip -/

/-- A group that asks for another one: its seven bits and its flag. -/
theorem continuation_byte (r : Nat) :
    (((0x80 : UInt8) ||| UInt8.ofNat (r &&& 0x7f)) &&& 0x7f).toNat = r % 128 ∧
      ((0x80 : UInt8) ||| UInt8.ofNat (r &&& 0x7f)) &&& 0x80 ≠ 0 := by
  have hr : r &&& 0x7f = r % 128 := Nat.and_two_pow_sub_one_eq_mod r 7
  have hlt : r % 128 < 128 := Nat.mod_lt _ (by omega)
  rw [hr]
  generalize r % 128 = m at hlt
  revert m
  decide

/-- The last group: its seven bits and its flag. -/
theorem final_byte {r : Nat} (hr : r < 128) :
    (UInt8.ofNat r &&& 0x7f).toNat = r ∧ UInt8.ofNat r &&& 0x80 = 0 := by
  revert r
  decide

/-- With `g` groups left to the decoder, it reads back every remainder below `2 ^ (7 * g)`. -/
theorem decodeContinuation_encodeContinuation (rest : List UInt8) :
    ∀ (g k remaining value shift i : Nat), 1 ≤ g → g ≤ k + 1 → shift + 7 * g = 63 →
      remaining < 2 ^ (7 * g) → value + remaining * 2 ^ shift < 2 ^ 64 →
      decodeContinuation value shift i (encodeContinuation k remaining ++ rest) =
        some (value + remaining * 2 ^ shift, i + 1 + (encodeContinuation k remaining).length) := by
  intro g
  induction g with
  | zero => exact fun _ _ _ _ _ h => absurd h (by omega)
  | succ g ih =>
    intro k remaining value shift i _ hk hshift hr hv
    by_cases hlast : remaining < 128
    · -- the last group, whatever the bound on their number
      have henc : encodeContinuation k remaining = [UInt8.ofNat remaining] := by
        cases k with
        | zero => rfl
        | succ k => rw [encodeContinuation, if_neg (by omega)]
      obtain ⟨hlow, hflag⟩ := final_byte hlast
      rw [henc, List.singleton_append, decodeContinuation]
      simp only [hlow, hflag, if_true, Nat.shiftLeft_eq, Nat.mod_eq_of_lt hv, List.length_singleton]
    · have hg : 1 ≤ g := by
        by_contra hg
        have : g = 0 := by omega
        subst this
        omega
      obtain ⟨k, rfl⟩ : ∃ k', k = k' + 1 := ⟨k - 1, by omega⟩
      obtain ⟨hlow, hflag⟩ := continuation_byte remaining
      have hsplit : remaining % 128 * 2 ^ shift + remaining / 128 * 2 ^ (shift + 7)
          = remaining * 2 ^ shift := by
        calc remaining % 128 * 2 ^ shift + remaining / 128 * 2 ^ (shift + 7)
            = (remaining % 128 + 128 * (remaining / 128)) * 2 ^ shift := by rw [Nat.pow_add]; ring
          _ = remaining * 2 ^ shift := by rw [Nat.mod_add_div]
      have hdiv : remaining >>> 7 = remaining / 128 := Nat.shiftRight_eq_div_pow remaining 7
      have hdivlt : remaining / 128 < 2 ^ (7 * g) := by
        rw [Nat.div_lt_iff_lt_mul (by omega)]
        calc remaining < 2 ^ (7 * (g + 1)) := hr
          _ = 2 ^ (7 * g) * 128 := by rw [Nat.mul_succ, Nat.pow_add]
      rw [encodeContinuation, if_pos (by omega), List.cons_append, decodeContinuation]
      simp only [hlow, hflag, if_false, Nat.shiftLeft_eq, hdiv]
      rw [if_neg (by omega), Nat.mod_eq_of_lt (by omega),
        ih k (remaining / 128) _ (shift + 7) (i + 1) hg (by omega) (by omega) hdivlt (by omega),
        List.length_cons]
      refine congrArg some (Prod.ext ?_ ?_)
      · simp only
        omega
      · simp only
        omega

/-- The low bits of a byte whose high bits are a pattern. -/
theorem pattern_or_and {pattern : UInt8} {p v : Nat} (hp : p ≤ 8) (hpat : pattern.toNat % 2 ^ p = 0)
    (hv : v < 2 ^ p) : (pattern ||| UInt8.ofNat v).toNat &&& (2 ^ p - 1) = v := by
  have hpow : 2 ^ p ≤ 2 ^ 8 := Nat.pow_le_pow_right (by omega) hp
  rw [UInt8.toNat_or, UInt8.toNat_ofNat', Nat.mod_eq_of_lt (by omega : v < 2 ^ 8),
    Nat.and_two_pow_sub_one_eq_mod, Nat.or_mod_two_pow, hpat, Nat.zero_or, Nat.mod_eq_of_lt hv]

/-- An encoded integer starts with a byte that has the pattern in its high bits. -/
theorem encodePrefixInt_head {p : Nat} (value : Nat) (pattern : UInt8) :
    ∃ v tail, v < 2 ^ p ∧
      encodePrefixInt value p pattern = (pattern ||| UInt8.ofNat v) :: tail := by
  have hpos : 0 < 2 ^ p := Nat.two_pow_pos p
  simp only [encodePrefixInt]
  split
  · exact ⟨value, [], by omega, rfl⟩
  · exact ⟨2 ^ p - 1, _, by omega, rfl⟩

/-- **Round trip.**  A value whose remainder after the prefix fits 63 bits is read back, whatever
follows it, and the decoder consumes exactly what the encoder wrote. -/
theorem decodePrefixInt_encodePrefixInt (value p : Nat) (pattern : UInt8) (hp : p ≤ 8)
    (hpat : pattern.toNat % 2 ^ p = 0) (hv : value < 2 ^ 63 + (2 ^ p - 1)) (rest : List UInt8) :
    decodePrefixInt (encodePrefixInt value p pattern ++ rest) p =
      some (value, (encodePrefixInt value p pattern).length) := by
  have hpow : 2 ^ p ≤ 2 ^ 8 := Nat.pow_le_pow_right (by omega) hp
  unfold encodePrefixInt
  by_cases hsmall : value < 2 ^ p - 1
  · simp only [hsmall, if_true, List.singleton_append, decodePrefixInt, List.length_singleton,
      pattern_or_and hp hpat (show value < 2 ^ p by omega)]
  · simp only [hsmall, if_false, List.cons_append, decodePrefixInt,
      pattern_or_and hp hpat (show 2 ^ p - 1 < 2 ^ p by omega), Nat.lt_irrefl, List.length_cons]
    rw [decodeContinuation_encodeContinuation rest 9 9 (value - (2 ^ p - 1)) (2 ^ p - 1) 0 0
      (by omega) (by omega) (by omega) (by omega) (by omega)]
    refine congrArg some (Prod.ext ?_ ?_)
    · simp only
      omega
    · simp only
      omega

/-! ## What the decoder returns -/

/-- The number that the groups of seven bits stand for, least significant group first. -/
def groupsValue : List UInt8 → Nat
  | [] => 0
  | b :: groups => (b &&& 0x7f).toNat + 128 * groupsValue groups

/-- The number that the bytes of an integer with a prefix of `p` bits stand for. -/
def denoted (p : Nat) : List UInt8 → Nat
  | [] => 0
  | first :: groups => first.toNat % 2 ^ p + groupsValue groups

/-- As long as the groups read so far left room for the remaining ones, the loop adds up what the
groups it takes stand for, and the sum never reaches the width of a `u64`. -/
theorem decodeContinuation_exact {v n : Nat} (bytes : List UInt8) :
    ∀ value shift i : Nat, shift ≤ 56 → value < 2 ^ 8 + 2 ^ shift →
      decodeContinuation value shift i bytes = some (v, n) →
      ∃ taken, n = i + 1 + taken ∧ taken ≤ bytes.length ∧
        v = value + groupsValue (bytes.take taken) * 2 ^ shift := by
  induction bytes with
  | nil => exact fun _ _ _ _ _ h => by cases h
  | cons b bytes ih =>
    intro value shift i hshift hvalue h
    have hlow : (b &&& 0x7f).toNat ≤ 127 := by
      rw [UInt8.toNat_and]
      exact Nat.and_le_right
    have hpow : 2 ^ shift ≤ 2 ^ 56 := Nat.pow_le_pow_right (by omega) hshift
    have hterm : (b &&& 0x7f).toNat * 2 ^ shift ≤ 127 * 2 ^ shift := Nat.mul_le_mul_right _ hlow
    have hnext : 2 ^ (shift + 7) = 128 * 2 ^ shift := by rw [Nat.pow_add]; ring
    have hsum : (value + (b &&& 0x7f).toNat <<< shift) % 2 ^ 64 =
        value + (b &&& 0x7f).toNat * 2 ^ shift := by
      rw [Nat.shiftLeft_eq]
      exact Nat.mod_eq_of_lt (by omega)
    rw [decodeContinuation] at h
    simp only [hsum] at h
    split at h
    · obtain ⟨rfl, rfl⟩ : _ ∧ _ := by simpa using h
      exact ⟨1, rfl, by simp, by simp [groupsValue]⟩
    · split at h
      · cases h
      · obtain ⟨taken, hn, hlen, hv⟩ := ih _ _ _ (by omega) (by omega) h
        refine ⟨taken + 1, by omega, by simpa using hlen, ?_⟩
        rw [hv, hnext, List.take_succ_cons, groupsValue]
        ring

/-- **Prefix integers.**  For every width of the prefix and every value below `2 ^ 63`, whatever
pattern fills the bits above the prefix, the encoding is read back and exactly consumed; and
whatever the decoder returns is the number that the bytes it consumed stand for, so its sum never
wrapped around. -/
theorem prefixInt_exact (p : Nat) (hp : 1 ≤ p ∧ p ≤ 8) :
    (∀ (value high : Nat) (rest : List UInt8), value < 2 ^ 63 →
      decodePrefixInt (encodePrefixInt value p (UInt8.ofNat (high * 2 ^ p)) ++ rest) p =
        some (value, (encodePrefixInt value p (UInt8.ofNat (high * 2 ^ p))).length)) ∧
    ∀ (buf : List UInt8) (v n : Nat), decodePrefixInt buf p = some (v, n) →
      1 ≤ n ∧ n ≤ buf.length ∧ v = denoted p (buf.take n) := by
  constructor
  · intro value high rest hvalue
    refine decodePrefixInt_encodePrefixInt value p _ hp.2 ?_ (by omega) rest
    rw [UInt8.toNat_ofNat', Nat.mod_mod_of_dvd _ (Nat.pow_dvd_pow 2 hp.2), Nat.mul_mod_left]
  · intro buf v n h
    rcases buf with _ | ⟨first, rest⟩
    · cases h
    simp only [decodePrefixInt, Nat.and_two_pow_sub_one_eq_mod] at h
    split at h
    · obtain ⟨rfl, rfl⟩ : _ ∧ _ := by simpa using h
      exact ⟨le_rfl, by simp, rfl⟩
    · rename_i hfull
      have hpow : 2 ^ p ≤ 2 ^ 8 := Nat.pow_le_pow_right (by omega) hp.2
      have hlt : first.toNat % 2 ^ p < 2 ^ p := Nat.mod_lt _ (Nat.two_pow_pos p)
      obtain ⟨taken, rfl, hlen, hv⟩ :=
        decodeContinuation_exact rest _ 0 0 (by omega) (by omega) h
      refine ⟨by omega, by simp only [List.length_cons]; omega, ?_⟩
      rw [hv, show 0 + 1 + taken = taken + 1 by omega, List.take_succ_cons, denoted]
      omega

theorem prefixInt_exact_seven :
    decodePrefixInt (encodePrefixInt 1337 7 (UInt8.ofNat (1 * 2 ^ 7)) ++ [5]) 7 =
      some (1337, (encodePrefixInt 1337 7 (UInt8.ofNat (1 * 2 ^ 7))).length) ∧
    2000 = denoted 7 [0xff, 0xd1, 0x0e] :=
  ⟨(prefixInt_exact 7 (by omega)).1 1337 1 [5] (by omega),
    ((prefixInt_exact 7 (by omega)).2 [0xff, 0xd1, 0x0e, 1] 2000 3 (by decide)).2.2⟩

end Ringline.H2
