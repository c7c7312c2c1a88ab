import Mathlib

/-!
# The Order of IEEE Floats

Lean's `Float` and `Float32` are bit patterns of the IEEE 754 binary64 and
binary32 formats, with the operations of `Float.Model`. A pattern is unpacked
into a NaN, an infinity, a zero or a finite number `±m * 2 ^ e`, and two
floats are compared by sign, then exponent, then mantissa. That is the order
of the numbers the floats stand for only because `unpack` puts every finite
float in a canonical place: a subnormal at the least exponent with a short
mantissa, a normal number with its leading bit set. This file proves it: for
floats that are numbers, `compare` is the comparison of their values
(`compare_eq_compare_value`), and a comparison with a number has its usual
meaning, infinities and NaN included.

It also gives C's conversion of a float to an integer type: rounding toward
zero, undefined when the result is out of the type's range.

## Main definitions

* `Canonical`: The unpacked floats `unpack` produces.
* `value`: The number a float that is finite or zero stands for.
* `extValue`: The same, with the infinities as the ends of the line.
* `truncate`: Rounding a number toward zero.
* `toIntChecked`: C's float-to-integer conversion, none where it is
  undefined.

## Theorems

* `canonical_unpack`: `unpack` gives canonical floats.
* `compare_eq_compare_value`: Floats that are numbers compare as their
  values.
* `compare_eq_compare_extValue`: Floats that are not NaN compare as their
  values on the extended line.
* `lt_iff_extValue_lt`, `le_iff_extValue_le`: The same for `<` and `≤`; NaN
  is below, above and equal to nothing.
* `beq_self_eq_false_iff`: A float is unequal to itself exactly when it is
  NaN.
* `toIntChecked_eq_some`, `toIntChecked_eq_none`: When the conversion is
  defined.
-/

namespace FloatOrder

open Float.Model Float.Model.UnpackedFloat

/-- The exponent of the subnormals of a format, the least there is. -/
def minExp (spec : Format) : Int :=
  1 - spec.exponentBias - spec.mantissaBitsWithoutImplicit

/-- The unpacked floats `unpack` produces: the specials, and finite
    mantissa and exponent pairs in subnormal or normal position. -/
inductive Canonical (spec : Format) : UnpackedFloat → Prop
  | notANumber : Canonical spec .notANumber
  | infinity (s : Sign) : Canonical spec (.infinity s)
  | zero (s : Sign) : Canonical spec (.zero s)
  | subnormal (s : Sign) (m : Nat) (h : 0 < m) (hm : m < 2 ^ spec.mantissaBitsWithoutImplicit) :
      Canonical spec (.finite s m (minExp spec) h)
  | normal (s : Sign) (m : Nat) (e : Int) (h : 0 < m)
      (hlo : 2 ^ spec.mantissaBitsWithoutImplicit ≤ m)
      (hhi : m < 2 ^ (spec.mantissaBitsWithoutImplicit + 1)) (he : minExp spec ≤ e) :
      Canonical spec (.finite s m e h)

theorem toNat_one_append {w : Nat} (v : BitVec w) : (1#1 ++ v).toNat = 2 ^ w + v.toNat := by
  rw [BitVec.toNat_append, ← Nat.shiftLeft_add_eq_or_of_lt v.isLt]
  simp [Nat.shiftLeft_eq]

theorem canonical_unpack (spec : Format) (b : BitVec spec.numBits) :
    Canonical spec (unpack spec b) := by
  rw [UnpackedFloat.unpack]
  split
  · split
    · exact .infinity _
    · exact .notANumber
  · split
    · rename_i hzero
      split
      · exact .zero _
      · -- a zero exponent field: a subnormal, at the least exponent
        have hexp : (unpackExponent b).toNat = 0 := by
          rw [hzero, BitVec.toNat_zero]
        have he : ((unpackExponent b).toNat : Int) -
            ((spec.exponentBias : Nat) + (spec.mantissaBitsWithoutImplicit : Nat)) + 1 =
              minExp spec := by
          rw [hexp, minExp]
          omega
        rw [he]
        exact .subnormal _ _ _ (unpackMantissa b).isLt
    · -- a normal number: the implicit leading bit sits above the field
      rename_i hnzero
      have hexp : (unpackExponent b).toNat ≠ 0 := fun h => hnzero (BitVec.eq_of_toNat_eq h)
      have hm := (unpackMantissa b).isLt
      refine .normal _ _ _ _ ?_ ?_ ?_
      · rw [toNat_one_append]
        omega
      · rw [toNat_one_append, Nat.pow_succ]
        omega
      · rw [minExp]
        omega

/-- The number a float that is finite or zero stands for. -/
def value : UnpackedFloat → ℚ
  | .finite s m e _ => (s.apply m : ℚ) * 2 ^ e
  | _ => 0

/-- Floats that are numbers: the finite ones and the zeros. -/
def isNumber : UnpackedFloat → Bool
  | .finite .. => true
  | .zero _ => true
  | _ => false

/-- The number a float that is not NaN stands for, on the rationals extended
    by the two infinities. -/
def extValue : UnpackedFloat → WithBot (WithTop ℚ)
  | .infinity .positive => ⊤
  | .infinity .negative => ⊥
  | u => ((value u : WithTop ℚ) : WithBot (WithTop ℚ))

@[simp] theorem value_finite {s : Sign} {m : Nat} {e : Int} {h : 0 < m} :
    value (.finite s m e h) = (s.apply m : ℚ) * 2 ^ e := rfl

@[simp] theorem value_zero (s : Sign) : value (.zero s) = 0 := rfl

@[simp] theorem value_notANumber : value .notANumber = 0 := rfl

@[simp] theorem value_infinity (s : Sign) : value (.infinity s) = 0 := rfl

theorem value_pos {m : Nat} {e : Int} {h : 0 < m} : 0 < value (.finite .positive m e h) := by
  simp [Sign.apply]
  positivity

theorem value_neg {m : Nat} {e : Int} {h : 0 < m} : value (.finite .negative m e h) < 0 := by
  simp [Sign.apply]
  positivity

theorem extValue_of_isNumber {u : UnpackedFloat} (h : isNumber u) :
    extValue u = ((value u : WithTop ℚ) : WithBot (WithTop ℚ)) := by
  cases u with
  | infinity s => simp [isNumber] at h
  | _ => rfl

theorem isNumber_or_infinity {u : UnpackedFloat} (hu : u ≠ .notANumber) :
    isNumber u ∨ ∃ s, u = .infinity s := by
  cases u with
  | notANumber => exact absurd rfl hu
  | infinity s => exact .inr ⟨s, rfl⟩
  | zero _ => exact .inl rfl
  | finite _ _ _ _ => exact .inl rfl

/-! ### Comparisons on the rationals and their extension -/

theorem compare_map_of_strictMono {α β : Type} [LinearOrder α] [LinearOrder β] {f : α → β}
    (hf : StrictMono f) (a b : α) : compare (f a) (f b) = compare a b :=
  (compare_iff _ _).2 (hf.compares.2 ((compare_iff a b).1 rfl))

theorem compare_coe_coe (a b : ℚ) :
    compare ((a : WithTop ℚ) : WithBot (WithTop ℚ)) ((b : WithTop ℚ) : WithBot (WithTop ℚ)) =
      compare a b :=
  compare_map_of_strictMono (WithBot.coe_strictMono.comp WithTop.coe_strictMono) a b

theorem compare_top_coe (q : ℚ) :
    compare (⊤ : WithBot (WithTop ℚ)) ((q : WithTop ℚ) : WithBot (WithTop ℚ)) = .gt :=
  compare_gt_iff_gt.2 (WithBot.coe_lt_coe.2 (WithTop.coe_lt_top q))

theorem compare_bot_coe (q : ℚ) :
    compare (⊥ : WithBot (WithTop ℚ)) ((q : WithTop ℚ) : WithBot (WithTop ℚ)) = .lt :=
  compare_lt_iff_lt.2 (WithBot.bot_lt_coe _)

theorem compare_neg_neg (a b : ℚ) : compare (-a) (-b) = compare b a := by
  rcases lt_trichotomy a b with h | rfl | h
  · rw [compare_gt_iff_gt.2 (neg_lt_neg h), compare_gt_iff_gt.2 h]
  · simp
  · rw [compare_lt_iff_lt.2 (neg_lt_neg h), compare_lt_iff_lt.2 h]

/-- Where a canonical finite float's mantissa and exponent lie. -/
def Placed (spec : Format) (m : Nat) (e : Int) : Prop :=
  (m < 2 ^ spec.mantissaBitsWithoutImplicit ∧ e = minExp spec) ∨
    (2 ^ spec.mantissaBitsWithoutImplicit ≤ m ∧ m < 2 ^ (spec.mantissaBitsWithoutImplicit + 1) ∧
      minExp spec ≤ e)

section Placed

variable {spec : Format} {m m₁ m₂ : Nat} {e e₁ e₂ : Int}

theorem Canonical.placed {s : Sign} {h : 0 < m} (hc : Canonical spec (.finite s m e h)) :
    Placed spec m e := by
  cases hc with
  | subnormal _ _ _ hm => exact Or.inl ⟨hm, rfl⟩
  | normal _ _ _ _ hlo hhi he => exact Or.inr ⟨hlo, hhi, he⟩

/-- A number of a higher binade is larger: the mantissa below is under
    twice the leading bit of the one above. -/
theorem Placed.lt_of_lt (h₁ : Placed spec m₁ e₁) (h₂ : Placed spec m₂ e₂) (he : e₁ < e₂) :
    (m₁ : ℚ) * 2 ^ e₁ < m₂ * 2 ^ e₂ := by
  set w := spec.mantissaBitsWithoutImplicit
  -- the upper one is normal, its exponent being above the least
  have hm₂ : 2 ^ w ≤ m₂ := by
    rcases h₂ with ⟨-, rfl⟩ | ⟨hlo, -, -⟩
    · rcases h₁ with ⟨-, rfl⟩ | ⟨-, -, he₁⟩ <;> omega
    · exact hlo
  have hm₁ : m₁ < 2 ^ (w + 1) := by
    rcases h₁ with ⟨hm, -⟩ | ⟨-, hhi, -⟩
    · exact hm.trans (Nat.pow_lt_pow_right (by decide) (Nat.lt_succ_self w))
    · exact hhi
  obtain ⟨k, hk⟩ : ∃ k : Nat, e₂ = e₁ + ((k + 1 : ℕ) : ℤ) := ⟨(e₂ - e₁ - 1).toNat, by omega⟩
  have hnat : m₁ < m₂ * 2 ^ (k + 1) := calc
    m₁ < 2 ^ (w + 1) := hm₁
    _ = 2 ^ w * 2 := Nat.pow_succ 2 w
    _ ≤ m₂ * 2 ^ (k + 1) :=
      Nat.mul_le_mul hm₂ (Nat.le_self_pow (Nat.succ_ne_zero k) 2)
  have hpos : (0 : ℚ) < 2 ^ e₁ := zpow_pos (by norm_num) e₁
  calc (m₁ : ℚ) * 2 ^ e₁ < (m₂ * 2 ^ (k + 1) : ℕ) * 2 ^ e₁ :=
        mul_lt_mul_of_pos_right (by exact_mod_cast hnat) hpos
    _ = m₂ * 2 ^ e₂ := by
        rw [hk, zpow_add₀ (by norm_num), zpow_natCast]
        push_cast
        ring

/-- On canonical positive numbers the comparison by exponent, then
    mantissa, is the comparison of the numbers. -/
theorem Placed.compare (h₁ : Placed spec m₁ e₁) (h₂ : Placed spec m₂ e₂) :
    (compare e₁ e₂).then (compare m₁ m₂) = compare ((m₁ : ℚ) * 2 ^ e₁) ((m₂ : ℚ) * 2 ^ e₂) := by
  rcases lt_trichotomy e₁ e₂ with he | rfl | he
  · rw [compare_lt_iff_lt.mpr he, compare_lt_iff_lt.mpr (h₁.lt_of_lt h₂ he)]
    rfl
  · -- one exponent: the mantissas decide
    have hpos : (0 : ℚ) < 2 ^ e₁ := zpow_pos (by norm_num) e₁
    rw [compare_eq_iff_eq.mpr rfl, Ordering.eq_then]
    rcases lt_trichotomy m₁ m₂ with hm | rfl | hm
    · rw [compare_lt_iff_lt.mpr hm, compare_lt_iff_lt.mpr
        (mul_lt_mul_of_pos_right (by exact_mod_cast hm) hpos)]
    · rw [compare_eq_iff_eq.mpr rfl, compare_eq_iff_eq.mpr rfl]
    · rw [compare_gt_iff_gt.mpr hm, compare_gt_iff_gt.mpr
        (mul_lt_mul_of_pos_right (by exact_mod_cast hm) hpos)]
  · rw [compare_gt_iff_gt.mpr he, compare_gt_iff_gt.mpr (h₂.lt_of_lt h₁ he)]
    rfl

end Placed

section Compare

variable {spec : Format} {m₁ m₂ : Nat} {e₁ e₂ : Int}

/-- Finite floats: by sign first, then by magnitude, reversed for two
    negative ones. -/
theorem compare_finite (s₁ s₂ : Sign) (hm₁ : 0 < m₁) (hm₂ : 0 < m₂) (h₁ : Placed spec m₁ e₁)
    (h₂ : Placed spec m₂ e₂) :
    (UnpackedFloat.finite s₁ m₁ e₁ hm₁).compare (.finite s₂ m₂ e₂ hm₂) =
      some (compare (value (.finite s₁ m₁ e₁ hm₁)) (value (.finite s₂ m₂ e₂ hm₂))) := by
  cases s₁ <;> cases s₂
  · -- both negative: the order of the magnitudes, reversed
    rw [UnpackedFloat.compare, h₁.compare h₂, Std.OrientedOrd.eq_swap]
    simp [Sign.apply, compare_neg_neg]
  · exact congrArg some (compare_lt_iff_lt.2 (value_neg.trans value_pos)).symm
  · exact congrArg some (compare_gt_iff_gt.2 (value_neg.trans value_pos)).symm
  · rw [UnpackedFloat.compare, h₁.compare h₂]
    simp [Sign.apply]

theorem compare_eq_compare_value {u v : UnpackedFloat} (hu : Canonical spec u)
    (hv : Canonical spec v) (nu : isNumber u) (nv : isNumber v) :
    u.compare v = some (compare (value u) (value v)) := by
  cases u with
  | notANumber | infinity _ => simp [isNumber] at nu
  | zero s =>
    cases v with
    | notANumber | infinity _ => simp [isNumber] at nv
    | zero s' => simp [UnpackedFloat.compare]
    | finite s' m e h =>
      cases s'
      · exact congrArg some (compare_gt_iff_gt.2 value_neg).symm
      · exact congrArg some (compare_lt_iff_lt.2 value_pos).symm
  | finite s m e h =>
    cases v with
    | notANumber | infinity _ => simp [isNumber] at nv
    | zero s' =>
      cases s
      · exact congrArg some (compare_lt_iff_lt.2 value_neg).symm
      · exact congrArg some (compare_gt_iff_gt.2 value_pos).symm
    | finite s' m' e' h' => exact compare_finite s s' h h' hu.placed hv.placed

/-! An infinity against a number is decided by its sign. -/

section Infinity

variable {c : UnpackedFloat}

theorem compare_infinity_positive (hc : isNumber c) :
    c.compare (.infinity .positive) = some .lt := by
  cases c <;> simp_all [isNumber] <;> rfl

theorem compare_infinity_negative (hc : isNumber c) :
    c.compare (.infinity .negative) = some .gt := by
  cases c <;> simp_all [isNumber] <;> rfl

theorem infinity_positive_compare (hc : isNumber c) :
    (UnpackedFloat.infinity .positive).compare c = some .gt := by
  cases c <;> simp_all [isNumber] <;> rfl

theorem infinity_negative_compare (hc : isNumber c) :
    (UnpackedFloat.infinity .negative).compare c = some .lt := by
  cases c <;> simp_all [isNumber] <;> rfl

theorem infinity_compare (hc : isNumber c) (s : Sign) :
    (UnpackedFloat.infinity s).compare c =
      some (compare (extValue (.infinity s)) (extValue c)) := by
  rw [extValue_of_isNumber hc]
  cases s
  · rw [infinity_negative_compare hc]
    exact congrArg some (compare_bot_coe _).symm
  · rw [infinity_positive_compare hc]
    exact congrArg some (compare_top_coe _).symm

theorem compare_infinity (hc : isNumber c) (s : Sign) :
    c.compare (.infinity s) = some (compare (extValue c) (extValue (.infinity s))) := by
  rw [Std.OrientedOrd.eq_swap (a := extValue c), extValue_of_isNumber hc]
  cases s
  · rw [compare_infinity_negative hc]
    exact congrArg some (congrArg Ordering.swap (compare_bot_coe _)).symm
  · rw [compare_infinity_positive hc]
    exact congrArg some (congrArg Ordering.swap (compare_top_coe _)).symm

end Infinity

theorem compare_eq_compare_extValue {u v : UnpackedFloat} (hu : Canonical spec u)
    (hv : Canonical spec v) (hun : u ≠ .notANumber) (hvn : v ≠ .notANumber) :
    u.compare v = some (compare (extValue u) (extValue v)) := by
  rcases isNumber_or_infinity hun with nu | ⟨s, rfl⟩ <;>
    rcases isNumber_or_infinity hvn with nv | ⟨s', rfl⟩
  · rw [extValue_of_isNumber nu, extValue_of_isNumber nv, compare_coe_coe]
    exact compare_eq_compare_value hu hv nu nv
  · exact compare_infinity nu s'
  · exact infinity_compare nv s
  · cases s <;> cases s' <;> rfl

theorem lt_iff_extValue_lt {u v : UnpackedFloat} (hu : Canonical spec u) (hv : Canonical spec v)
    (hun : u ≠ .notANumber) (hvn : v ≠ .notANumber) : u.lt v = true ↔ extValue u < extValue v := by
  rw [UnpackedFloat.lt, compare_eq_compare_extValue hu hv hun hvn]
  simp [compare_lt_iff_lt]

theorem le_iff_extValue_le {u v : UnpackedFloat} (hu : Canonical spec u) (hv : Canonical spec v)
    (hun : u ≠ .notANumber) (hvn : v ≠ .notANumber) : u.le v = true ↔ extValue u ≤ extValue v := by
  rw [UnpackedFloat.le, compare_eq_compare_extValue hu hv hun hvn]
  exact Std.LawfulBCmp.isLE_iff_le

theorem lt_iff_value_lt {u v : UnpackedFloat} (hu : Canonical spec u) (hv : Canonical spec v)
    (nu : isNumber u) (nv : isNumber v) : u.lt v = true ↔ value u < value v := by
  rw [UnpackedFloat.lt, compare_eq_compare_value hu hv nu nv]
  simp [compare_lt_iff_lt]

theorem le_iff_value_le {u v : UnpackedFloat} (hu : Canonical spec u) (hv : Canonical spec v)
    (nu : isNumber u) (nv : isNumber v) : u.le v = true ↔ value u ≤ value v := by
  rw [UnpackedFloat.le, compare_eq_compare_value hu hv nu nv]
  exact Std.LawfulBCmp.isLE_iff_le

end Compare

@[simp] theorem notANumber_lt (v : UnpackedFloat) : UnpackedFloat.notANumber.lt v = false := rfl

@[simp] theorem lt_notANumber (u : UnpackedFloat) : u.lt .notANumber = false := by
  cases u <;> rfl

@[simp] theorem notANumber_le (v : UnpackedFloat) : UnpackedFloat.notANumber.le v = false := rfl

@[simp] theorem le_notANumber (u : UnpackedFloat) : u.le .notANumber = false := by
  cases u <;> rfl

/-- A float is unequal to itself exactly when it is NaN. -/
theorem beq_self_eq_false_iff (u : UnpackedFloat) : u.beq u = false ↔ u = .notANumber := by
  cases u with
  | notANumber => simp [UnpackedFloat.beq, UnpackedFloat.compare]
  | infinity s => cases s <;> simp [UnpackedFloat.beq, UnpackedFloat.compare] <;> rfl
  | zero s => simp [UnpackedFloat.beq, UnpackedFloat.compare]
  | finite s m e h => cases s <;> simp [UnpackedFloat.beq, UnpackedFloat.compare]

/-- Rounding a number toward zero. -/
def truncate (q : ℚ) : Int :=
  if 0 ≤ q then ⌊q⌋ else ⌈q⌉

section Truncate

variable {q : ℚ} {lo hi n : Int}

theorem truncate_eq_of_le_of_lt (hn : 0 ≤ n) (h₁ : (n : ℚ) ≤ q) (h₂ : q < n + 1) :
    truncate q = n := by
  have hq : 0 ≤ q := le_trans (by exact_mod_cast hn) h₁
  rw [truncate, if_pos hq, Int.floor_eq_iff]
  exact ⟨h₁, h₂⟩

theorem truncate_intCast (n : Int) : truncate n = n := by
  unfold truncate
  split <;> simp

theorem truncate_le (hhi : 0 ≤ hi) (h : q < hi + 1) : truncate q ≤ hi := by
  unfold truncate
  split
  · exact Int.lt_add_one_iff.1 (Int.floor_lt.2 (by exact_mod_cast h))
  · rename_i hq
    exact le_trans (Int.ceil_le.2 (by push_cast; linarith)) hhi

theorem le_truncate (hlo : lo ≤ 0) (h : (lo : ℚ) ≤ q) : lo ≤ truncate q := by
  unfold truncate
  split
  · exact le_trans hlo (Int.floor_nonneg.2 ‹_›)
  · exact Int.le_ceil_iff.2 (by linarith)

end Truncate

/-- C's conversion of a float to an integer type with values from lo to hi
    (C11 6.3.1.4): the value rounded toward zero, undefined (none) when that
    is out of range, and for NaN and the infinities. -/
def toIntChecked (lo hi : Int) (u : UnpackedFloat) : Option Int :=
  if isNumber u ∧ lo ≤ truncate (value u) ∧ truncate (value u) ≤ hi then some (truncate (value u))
  else none

theorem toIntChecked_eq_some {lo hi : Int} {u : UnpackedFloat} (hu : isNumber u)
    (hlo : lo ≤ truncate (value u)) (hhi : truncate (value u) ≤ hi) :
    toIntChecked lo hi u = some (truncate (value u)) :=
  if_pos ⟨hu, hlo, hhi⟩

theorem toIntChecked_eq_none {lo hi : Int} {u : UnpackedFloat} (hhi : hi < truncate (value u)) :
    toIntChecked lo hi u = none :=
  if_neg fun h => absurd h.2.2 (not_le.2 hhi)

end FloatOrder
