import Mathlib.Data.Nat.Bitwise
import Mathlib.Data.List.Sort

/-!
# Leading-Zero Scans of 32-bit Words

A 32-bit word read as a set of bit positions, highest first. `clz` names the
highest set bit by its count of leading zeros, and the word with that bit
cleared has every other bit of the first and a lower highest bit, so a loop
that reports `clz` and clears the bit it names meets every set bit once and
stops after at most 32 rounds.

## Main definitions

* `clz`: `__builtin_clz` of a nonzero word.
* `topPositions`: The positions of the set bits counted from the top, in
  increasing order.

## Theorems

* `log2_toNat_lt`: The highest set bit of a word is below `32`.
* `testBit_not`, `testBit_highBit`, `testBit_and_lowMask`: The bits of a
  complement, of the top bit shifted right, and of a word without its top
  bit.
* `testBit_clearHighest`: Clearing the bit `clz` names removes exactly the
  highest set bit.
* `log2_clearHighest_lt`: What is left has a lower highest bit.
* `xor_highBit_clz`: Flipping the highest set bit clears it.
* `topPositions_of_ne_zero`: A scan that reports `clz` and clears that bit
  meets the set bits in increasing position.
-/

namespace WordBits

/-- `__builtin_clz`: the number of zeros above the highest set bit. It is
    meant for nonzero words only. -/
def clz (x : UInt32) : Nat := 31 - x.toNat.log2

theorem toNat_ne_zero {x : UInt32} (hx : x ≠ 0) : x.toNat ≠ 0 := by
  intro h
  exact hx (UInt32.toNat_inj.mp (by rw [h]; rfl))

theorem log2_toNat_lt (x : UInt32) : x.toNat.log2 < 32 := by
  by_cases h : x.toNat = 0
  · rw [h]
    decide
  · exact (Nat.log2_lt h).mpr x.toNat_lt

/-- No bit above the highest set bit is set. -/
theorem testBit_of_log2_lt {x i : Nat} (h : x.log2 < i) : x.testBit i = false :=
  Nat.testBit_lt_two_pow (lt_of_lt_of_le Nat.lt_log2_self (Nat.pow_le_pow_right (by decide) h))

theorem testBit_not (x : UInt32) (i : Nat) :
    (~~~x).toNat.testBit i = (decide (i < 32) && !x.toNat.testBit i) := by
  show (~~~x).toBitVec.getLsbD i = _
  rw [UInt32.toBitVec_not, BitVec.getLsbD_not]
  rfl

/-- The top bit shifted right by `k` is bit `31 - k`. -/
theorem testBit_highBit (k i : Nat) (hk : k < 32) :
    ((0x80000000 : UInt32) >>> k.toUInt32).toNat.testBit i = decide (i = 31 - k) := by
  rw [UInt32.toNat_shiftRight, Nat.testBit_shiftRight]
  have hshift : (k.toUInt32).toNat % 32 = k := by
    rw [Nat.toUInt32_eq, UInt32.toNat_ofNat']
    omega
  rw [hshift, show (0x80000000 : UInt32).toNat = 2 ^ 31 from rfl, Nat.testBit_two_pow]
  by_cases h : i = 31 - k <;> simp [h] <;> omega

/-- `(1 << 31) - 1` keeps every bit but the top one. -/
theorem testBit_and_lowMask (x : UInt32) (i : Nat) :
    (x &&& (((1 : UInt32) <<< 31) - 1)).toNat.testBit i = (x.toNat.testBit i && decide (i < 31)) := by
  rw [UInt32.toNat_and, Nat.testBit_and,
    show (((1 : UInt32) <<< 31) - 1).toNat = 2 ^ 31 - 1 from rfl, Nat.testBit_two_pow_sub_one]

theorem clz_lt {x : UInt32} : clz x < 32 := by
  unfold clz
  omega

/-- Clearing the bit `clz` names leaves every other bit of the word. -/
theorem testBit_clearHighest (x : UInt32) (i : Nat) :
    (x &&& ~~~((0x80000000 : UInt32) >>> (clz x).toUInt32)).toNat.testBit i =
      (x.toNat.testBit i && i != x.toNat.log2) := by
  have hlog := log2_toNat_lt x
  rw [UInt32.toNat_and, Nat.testBit_and, testBit_not, testBit_highBit _ _ clz_lt]
  have hclz : 31 - clz x = x.toNat.log2 := by
    unfold clz
    omega
  rw [hclz]
  by_cases hi : i < 32
  · by_cases he : i = x.toNat.log2 <;> simp [hi, he]
  · -- bits from 32 up are clear in a 32-bit word
    have : x.toNat.testBit i = false := testBit_of_log2_lt (by omega)
    simp [this]

/-- What is left after clearing the highest set bit has a lower highest bit. -/
theorem log2_clearHighest_lt (x : UInt32)
    (hy : x &&& ~~~((0x80000000 : UInt32) >>> (clz x).toUInt32) ≠ 0) :
    (x &&& ~~~((0x80000000 : UInt32) >>> (clz x).toUInt32)).toNat.log2 < x.toNat.log2 := by
  apply (Nat.log2_lt (toNat_ne_zero hy)).mpr
  apply Nat.lt_pow_two_of_testBit
  intro i hi
  rw [testBit_clearHighest]
  by_cases he : i = x.toNat.log2
  · simp [he]
  · simp [testBit_of_log2_lt (show x.toNat.log2 < i by omega)]

/-- Flipping the bit `clz` names clears it: that bit is set. -/
theorem xor_highBit_clz {x : UInt32} (hx : x ≠ 0) :
    x ^^^ ((0x80000000 : UInt32) >>> (clz x).toUInt32) =
      x &&& ~~~((0x80000000 : UInt32) >>> (clz x).toUInt32) := by
  apply UInt32.toNat_inj.mp
  apply Nat.eq_of_testBit_eq
  intro i
  have hclz : 31 - clz x = x.toNat.log2 := by
    have := log2_toNat_lt x
    unfold clz
    omega
  rw [testBit_clearHighest, UInt32.toNat_xor, Nat.testBit_xor, testBit_highBit _ _ clz_lt, hclz]
  by_cases he : i = x.toNat.log2
  · rw [he, Nat.testBit_log2 (toNat_ne_zero hx)]
    simp
  · simp [he]

/-- A one-bit mask at position `k` from the top leaves nothing exactly when
    that bit is clear. -/
theorem and_highBit_eq_zero_iff (x : UInt32) {k : Nat} (hk : k < 32) :
    x &&& ((0x80000000 : UInt32) >>> k.toUInt32) = 0 ↔ x.toNat.testBit (31 - k) = false := by
  rw [← UInt32.toNat_inj, UInt32.toNat_and, UInt32.toNat_zero]
  constructor
  · intro h
    have hb := congrArg (·.testBit (31 - k)) h
    simp only [Nat.testBit_and, testBit_highBit _ _ hk, Nat.zero_testBit] at hb
    simpa using hb
  · intro h
    apply Nat.eq_of_testBit_eq
    intro i
    rw [Nat.testBit_and, testBit_highBit _ _ hk, Nat.zero_testBit]
    by_cases hi : i = 31 - k
    · rw [hi, h, Bool.false_and]
    · simp [hi]

/-! ### The set bits in the order of a leading-zero scan -/

/-- The positions from the top of the set bits of a word, in increasing
    order: position `k` is bit `31 - k`. -/
def topPositions (x : UInt32) : List Nat :=
  (List.range 32).filter fun k => x.toNat.testBit (31 - k)

theorem mem_topPositions {x : UInt32} {k : Nat} :
    k ∈ topPositions x ↔ k < 32 ∧ x.toNat.testBit (31 - k) = true := by
  simp [topPositions]

theorem topPositions_pairwise (x : UInt32) : (topPositions x).Pairwise (· < ·) :=
  (List.pairwise_lt_range).filter _

theorem length_topPositions_le (x : UInt32) : (topPositions x).length ≤ 32 :=
  (List.length_filter_le _ _).trans (List.length_range ▸ le_refl 32)

@[simp] theorem topPositions_zero : topPositions 0 = [] := by
  decide

/-- A leading-zero scan meets the highest set bit first, and then the set
    bits of what is left after clearing it. -/
theorem topPositions_of_ne_zero {x : UInt32} (hx : x ≠ 0) :
    topPositions x = clz x ::
      topPositions (x &&& ~~~((0x80000000 : UInt32) >>> (clz x).toUInt32)) := by
  have hlog := log2_toNat_lt x
  have htop := Nat.testBit_log2 (toNat_ne_zero hx)
  have hclz : clz x = 31 - x.toNat.log2 := rfl
  -- every position left after clearing lies past the highest one
  have hafter : ∀ k ∈ topPositions (x &&& ~~~((0x80000000 : UInt32) >>> (clz x).toUInt32)),
      clz x < k := by
    intro k hk
    rw [mem_topPositions, testBit_clearHighest, Bool.and_eq_true, bne_iff_ne] at hk
    have hle : 31 - k ≤ x.toNat.log2 := by
      by_contra hgt
      rw [testBit_of_log2_lt (by omega)] at hk
      exact Bool.false_ne_true hk.2.1
    omega
  apply (topPositions_pairwise x).eq_of_mem_iff
    (List.pairwise_cons.mpr ⟨hafter, topPositions_pairwise _⟩)
  intro k
  rw [List.mem_cons, mem_topPositions, mem_topPositions, testBit_clearHighest, Bool.and_eq_true,
    bne_iff_ne]
  constructor
  · rintro ⟨hk, hbit⟩
    by_cases he : 31 - k = x.toNat.log2
    · exact Or.inl (by omega)
    · exact Or.inr ⟨hk, hbit, he⟩
  · rintro (rfl | ⟨hk, hbit, -⟩)
    · exact ⟨clz_lt, by rw [hclz, show 31 - (31 - x.toNat.log2) = x.toNat.log2 by omega]; exact htop⟩
    · exact ⟨hk, hbit⟩

end WordBits
