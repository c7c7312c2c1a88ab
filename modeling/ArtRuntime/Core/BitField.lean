import ArtRuntime.Core.BitScan
import Mathlib.Data.Nat.Size
import Mathlib.Data.Nat.Factorization.Basic

/-!
# Bit Fields, Runs and Rotations

Encoders of instruction immediates take a word apart into fields with a mask
and a shift, put fields back together with shifts and ors, find the run of
set bits by counting the zeros at both of its ends, and rotate a byte into
place. Each of these is arithmetic in disguise: a masked and shifted field
is a quotient taken modulo its width, an or of a low part and a multiple of
a power of two above it is their sum, the leading zeros of a word are its
width less `Nat.size`, and `~x & (x - 1)` is the mask of the zeros below the
lowest set bit. Stated so, the correctness of an encoder becomes linear
arithmetic over literal powers of two, which `omega` decides.

## Theorems

* `and_mask_shiftRight`, `toNat_and_shiftRight32`, `toNat_and_shiftRight64`:
  A field masked in place and shifted down.
* `toNat_shiftLeft32`: A left shift that does not overflow multiplies.
* `or_eq_add_of_dvd`: An or that does not overlap is a sum.
* `or_field`, `or_eq_left_of_eq_zero`, `or_eq_right_of_eq_zero`: A field of
  an or is the or of the fields, where all but one part are clear.
* `toNat_field_shiftLeft32`: A field taken out of one word and put in place
  in another.
* `mod_two_pow_split`: The low bits of a number are a field above the bits
  below it.
* `size_div_two_pow`, `size_two_pow_sub_one`, `size_eq_of_bounds`:
  `Nat.size` under a right shift, of a low mask, and between two powers.
* `le_of_two_pow_dvd`: A power of two dividing `2 ^ t` times an odd number
  is at most `2 ^ t`.
* `toNat_not_and_sub_one`: `~x & (x - 1)` is the mask of the trailing zeros.
* `toNat_rotateRight_byte`: A byte rotated right by 8 to 31 places within
  32 bits is shifted left, with no bit wrapping around.
-/

namespace BitField

/-! ### Fields -/

/-- A field masked in place and shifted down is a quotient modulo its width. -/
theorem and_mask_shiftRight (x k w : Nat) : (x &&& (2 ^ w - 1) * 2 ^ k) >>> k = x / 2 ^ k % 2 ^ w := by
  apply Nat.eq_of_testBit_eq
  intro i
  rw [Nat.testBit_shiftRight, Nat.testBit_and, Nat.testBit_mul_two_pow, Nat.testBit_mod_two_pow,
    Nat.testBit_div_two_pow, Nat.testBit_two_pow_sub_one, Nat.add_sub_cancel_left, Nat.add_comm i k]
  simp only [Nat.le_add_right, decide_true, Bool.true_and, Bool.and_comm]

theorem toNat_and_shiftRight32 (x m s : UInt32) (k w : Nat) (hs : s.toNat = k) (hk : k < 32)
    (hm : m.toNat = (2 ^ w - 1) * 2 ^ k) : ((x &&& m) >>> s).toNat = x.toNat / 2 ^ k % 2 ^ w := by
  rw [UInt32.toNat_shiftRight, UInt32.toNat_and, hs, Nat.mod_eq_of_lt hk, hm, and_mask_shiftRight]

theorem toNat_and_shiftRight64 (x m s : UInt64) (k w : Nat) (hs : s.toNat = k) (hk : k < 64)
    (hm : m.toNat = (2 ^ w - 1) * 2 ^ k) : ((x &&& m) >>> s).toNat = x.toNat / 2 ^ k % 2 ^ w := by
  rw [UInt64.toNat_shiftRight, UInt64.toNat_and, hs, Nat.mod_eq_of_lt hk, hm, and_mask_shiftRight]

theorem toNat_shiftLeft32 (y s : UInt32) (k : Nat) (hs : s.toNat = k) (hk : k < 32)
    (hy : y.toNat * 2 ^ k < 2 ^ 32) : (y <<< s).toNat = y.toNat * 2 ^ k := by
  rw [UInt32.toNat_shiftLeft, hs, Nat.mod_eq_of_lt hk, Nat.shiftLeft_eq, Nat.mod_eq_of_lt hy]

/-- Or-ing a number below `2 ^ k` onto a multiple of `2 ^ k` adds it. -/
theorem or_eq_add_of_dvd {x y k : Nat} (hx : x < 2 ^ k) (hy : 2 ^ k ∣ y) : y ||| x = y + x := by
  obtain ⟨q, rfl⟩ := hy
  exact (Nat.two_pow_add_eq_or_of_lt hx q).symm

/-- A field of an or is the or of the fields, so a field of a word put
    together from parts is read part by part. -/
theorem or_field (a b s w : Nat) :
    (a ||| b) / 2 ^ s % 2 ^ w = a / 2 ^ s % 2 ^ w ||| b / 2 ^ s % 2 ^ w := by
  rw [Nat.or_div_two_pow, Nat.or_mod_two_pow]

/-- A part that is clear in a field drops out of its or. -/
theorem or_eq_left_of_eq_zero {a b : Nat} (h : b = 0) : a ||| b = a := by
  rw [h, Nat.or_zero]

theorem or_eq_right_of_eq_zero {a b : Nat} (h : a = 0) : a ||| b = b := by
  rw [h, Nat.zero_or]

/-- A field masked in place, shifted down, and shifted up into its place in
    another word: how an encoder moves a bit group of an operand. -/
theorem toNat_field_shiftLeft32 (x m s t : UInt32) (k w j : Nat) (hs : s.toNat = k) (hk : k < 32)
    (hm : m.toNat = (2 ^ w - 1) * 2 ^ k) (ht : t.toNat = j) (hj : j < 32) (hwj : w + j ≤ 32) :
    (((x &&& m) >>> s) <<< t).toNat = x.toNat / 2 ^ k % 2 ^ w * 2 ^ j := by
  have hfield := toNat_and_shiftRight32 x m s k w hs hk hm
  have hbound : x.toNat / 2 ^ k % 2 ^ w * 2 ^ j < 2 ^ 32 :=
    calc x.toNat / 2 ^ k % 2 ^ w * 2 ^ j < 2 ^ w * 2 ^ j :=
          Nat.mul_lt_mul_of_pos_right (Nat.mod_lt _ (Nat.two_pow_pos w)) (Nat.two_pow_pos j)
      _ = 2 ^ (w + j) := (Nat.pow_add 2 w j).symm
      _ ≤ 2 ^ 32 := Nat.pow_le_pow_right (by decide) hwj
  rw [toNat_shiftLeft32 _ t j ht hj (by rw [hfield]; exact hbound), hfield]

/-- The low `b` bits of a number: the field from bit `a` to bit `b`, above
    the low `a` bits. Splitting so, field by field, is how the fields a
    decoder reads are put back together into one number. -/
theorem mod_two_pow_split (x : Nat) {a b : Nat} (hab : a ≤ b) :
    x % 2 ^ b = x / 2 ^ a % 2 ^ (b - a) * 2 ^ a + x % 2 ^ a := by
  have hpow : 2 ^ b = 2 ^ a * 2 ^ (b - a) := by rw [← Nat.pow_add, Nat.add_sub_cancel' hab]
  have hsplit := Nat.div_add_mod (x % 2 ^ b) (2 ^ a)
  rw [Nat.mod_mod_of_dvd _ (Nat.pow_dvd_pow 2 hab), hpow, Nat.mod_mul_right_div_self] at hsplit
  rw [hpow, ← hsplit, Nat.mul_comm]

/-! ### Leading and trailing zeros -/

/-- Shifting right by `c` drops `c` from the bit length. -/
theorem size_div_two_pow (x c : Nat) : (x / 2 ^ c).size = x.size - c := by
  apply le_antisymm
  · rw [Nat.size_le, Nat.div_lt_iff_lt_mul (Nat.two_pow_pos c), ← Nat.pow_add]
    exact lt_of_lt_of_le (Nat.lt_size_self x) (Nat.pow_le_pow_right (by decide) (by omega))
  · rw [Nat.sub_le_iff_le_add, Nat.size_le]
    have hq : x / 2 ^ c < 2 ^ (x / 2 ^ c).size := Nat.lt_size_self _
    calc x < 2 ^ c * (x / 2 ^ c + 1) := Nat.lt_mul_div_succ x (Nat.two_pow_pos c)
      _ ≤ 2 ^ c * 2 ^ (x / 2 ^ c).size := Nat.mul_le_mul_left _ hq
      _ = 2 ^ ((x / 2 ^ c).size + c) := by rw [Nat.pow_add, Nat.mul_comm]

/-- A number between `2 ^ n` and `2 ^ (n + 1)` has `n + 1` bits. -/
theorem size_eq_of_bounds {x n : Nat} (hlo : 2 ^ n ≤ x) (hhi : x < 2 ^ (n + 1)) : x.size = n + 1 :=
  le_antisymm (Nat.size_le.2 hhi) (Nat.lt_size.2 hlo)

/-- The mask of the low `t` bits has `t` bits. -/
theorem size_two_pow_sub_one (t : Nat) : (2 ^ t - 1).size = t := by
  cases t with
  | zero => rfl
  | succ t =>
    have hpos := Nat.two_pow_pos t
    apply size_eq_of_bounds <;> rw [Nat.pow_succ] <;> omega

/-- No higher power of two than `2 ^ t` divides `2 ^ t` times an odd number. -/
theorem le_of_two_pow_dvd {s t m : Nat} (h : 2 ^ s ∣ 2 ^ t * (2 * m + 1)) : s ≤ t := by
  by_contra hlt
  have hstep : 2 ^ t * 2 ∣ 2 ^ s := by
    rw [← Nat.pow_succ]
    exact Nat.pow_dvd_pow 2 (by omega)
  have hodd := (Nat.mul_dvd_mul_iff_left (Nat.two_pow_pos t)).1 (Nat.dvd_trans hstep h)
  omega

/-- `~x & (x - 1)`: the zeros below the lowest set bit, as a mask. -/
theorem toNat_not_and_sub_one (x : UInt32) {t m : Nat} (hx : x.toNat = 2 ^ t * (2 * m + 1)) :
    (~~~x &&& (x - 1)).toNat = 2 ^ t - 1 := by
  have hpow := Nat.two_pow_pos t
  have hlow : 2 ^ t ≤ x.toNat := by
    rw [hx]
    exact Nat.le_mul_of_pos_right _ (by omega)
  have ht : t < 32 := (Nat.pow_lt_pow_iff_right (by decide)).1 (lt_of_le_of_lt hlow x.toNat_lt)
  -- `x - 1` keeps the bits of `x` above bit `t`, clears bit `t` and sets those below
  have hsub : (x - 1).toNat = 2 ^ t * (2 * m) + (2 ^ t - 1) := by
    rw [UInt32.toNat_sub_of_le _ _ (UInt32.le_iff_toNat_le.2 (by rw [UInt32.toNat_one]; omega)),
      UInt32.toNat_one, hx, Nat.mul_add, Nat.mul_one]
    omega
  rw [UInt32.toNat_and, hsub]
  apply Nat.eq_of_testBit_eq
  intro i
  rw [Nat.testBit_and, WordBits.testBit_not, hx, Nat.testBit_two_pow_mul,
    Nat.testBit_two_pow_mul_add _ (by omega), Nat.testBit_two_pow_sub_one]
  by_cases hit : i < t
  · simp [hit, show i < 32 by omega, show ¬ t ≤ i by omega]
  · obtain ⟨j, rfl⟩ : ∃ j, i = t + j := ⟨i - t, by omega⟩
    rw [Nat.add_sub_cancel_left]
    cases j with
    | zero => simp [Nat.testBit_zero]
    | succ j =>
      -- above bit `t` the two words agree, so the complement clears every bit
      have hhalf : (2 * m + 1) / 2 = (2 * m) / 2 := by omega
      rw [Nat.testBit_succ, Nat.testBit_succ, hhalf]
      simp [hit]

/-! ### Rotations -/

/-- A byte rotated right by 8 to 31 places within 32 bits lands whole in the
    high bits: the rotation is a left shift by the rest of the word. -/
theorem toNat_rotateRight_byte {y r : Nat} (hy : y < 2 ^ 8) (hr : 8 ≤ r) (hr32 : r < 32) :
    ((BitVec.ofNat 32 y).rotateRight r).toNat = y * 2 ^ (32 - r) := by
  have hy32 : y < 2 ^ 32 := lt_of_lt_of_le hy (Nat.pow_le_pow_right (by decide) (by decide))
  have hshift : y * 2 ^ (32 - r) < 2 ^ 32 :=
    calc y * 2 ^ (32 - r) < 2 ^ 8 * 2 ^ (32 - r) :=
          Nat.mul_lt_mul_of_pos_right hy (Nat.two_pow_pos _)
      _ ≤ 2 ^ 8 * 2 ^ 24 := Nat.mul_le_mul_left _ (Nat.pow_le_pow_right (by decide) (by omega))
      _ = 2 ^ 32 := by rw [← Nat.pow_add]
  -- nothing is left below bit `r` to wrap around
  have hlow : y >>> r = 0 := by
    rw [Nat.shiftRight_eq_div_pow, Nat.div_eq_zero_iff_lt (Nat.two_pow_pos r)]
    exact lt_of_lt_of_le hy (Nat.pow_le_pow_right (by decide) hr)
  rw [BitVec.toNat_rotateRight, BitVec.toNat_ofNat, Nat.mod_eq_of_lt hy32, Nat.mod_eq_of_lt hr32,
    hlow, Nat.zero_or, Nat.shiftLeft_eq, Nat.mod_eq_of_lt hshift]

end BitField
