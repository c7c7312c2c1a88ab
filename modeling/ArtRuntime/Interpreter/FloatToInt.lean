import ArtRuntime.Core.FloatOrder

/-!
# Float-to-Integer Conversions

Dalvik's float-to-int, float-to-long, double-to-int and double-to-long
instructions follow Java's narrowing rule (`javaNarrow`): NaN gives 0, a value
at or beyond an end of the integer type gives that end, anything else is
rounded toward zero. The interpreter executes each of them in `ExecuteImpl`,
and compiled code calls `art_f2i`, `art_f2l`, `art_d2i` and `art_d2l` of
`math_entrypoints.cc` where the target cannot convert with clamping. Both
compare the input with the limits of the integer type converted to the float
type, and only then let C++ convert, which is undefined when the result is out
of the integer type's range.

The limits are not all representable: `kMaxInt` converted to float, and
`kMaxLong` converted to float or double, round up to `2 ^ 31` and `2 ^ 63`,
one past the limit. The helpers clamp with `>=`, so that bound is itself
clamped; the interpreter clamps with `>`, so the input `2 ^ 31` (or `2 ^ 63`)
goes on to the C++ conversion, out of range. `entrypointToInteger_eq` proves
the helpers right for every input, and `executeToInteger_eq` the interpreter
right for every input but that one.

Each family of four is one definition, generic in the float type with the
equality and comparisons the source uses, and each member applies it to its
own types and constants. The proofs see a float type only through its
unpacked model (`UnpacksTo`), in which Lean's `Float32` and `Float` are
defined.

## Main definitions

* `javaNarrow`: Java's narrowing of a float to an integer type.
* `executeToInteger`: The interpreter's conversion.
* `entrypointToInteger`: The runtime helpers' conversion.
* `UnpacksTo`: A float type whose comparisons are those of its unpacked model.
* `Bounds`: What the converted limits of a conversion are.
* `Interpreter.floatToInt`, `Interpreter.floatToLong`,
  `Interpreter.doubleToInt`, `Interpreter.doubleToLong`: The four
  instructions.
* `artF2i`, `artF2l`, `artD2i`, `artD2l`: The four helpers.

## Theorems

* `entrypointToInteger_eq`: The helpers' conversion is Java's.
* `executeToInteger_eq`: The interpreter's conversion is Java's, except at a
  bound that rounded up, where it is undefined.
* `artF2i_eq_javaNarrow` and its siblings: Each helper is Java's narrowing.
* `Interpreter.doubleToInt_eq_javaNarrow`: So is DOUBLE_TO_INT.
* `Interpreter.floatToInt_eq` and its siblings: The other three are Java's
  narrowing except at `2 ^ 31` or `2 ^ 63`.
-/

namespace ArtRuntime

open Float.Model Float.Model.UnpackedFloat FloatOrder

/-- Java's narrowing of a float to an integer type with values from `lo` to
    `hi` (JLS 5.1.3): 0 for NaN, an end of the type for a value at or beyond
    it, and the value rounded toward zero otherwise. -/
def javaNarrow (lo hi : Int) : UnpackedFloat → Int
  | .notANumber => 0
  | .infinity .positive => hi
  | .infinity .negative => lo
  | u => if (hi : ℚ) ≤ value u then hi else if value u ≤ lo then lo else truncate (value u)

theorem javaNarrow_of_isNumber {lo hi : Int} {u : UnpackedFloat} (h : isNumber u) :
    javaNarrow lo hi u =
      if (hi : ℚ) ≤ value u then hi else if value u ≤ lo then lo else truncate (value u) := by
  cases u with
  | notANumber | infinity _ => simp [isNumber] at h
  | zero _ | finite _ _ _ _ => rfl

section Convert

variable {F : Type} [BEq F] [LT F] [LE F] [DecidableLT F] [DecidableLE F]

/-- The interpreter's FLOAT_TO_INT and its siblings, generic in the float
    type: NaN first, then the limits with strict comparisons, then C++'s
    conversion of the input. -/
def executeToInteger (convert : F → Option Int) (kMax kMin : F) (max min : Int) (val : F) :
    Option Int :=
  if val != val then some 0
  else if val > kMax then some max
  else if val < kMin then some min
  else convert val

/-- art_f2i and its siblings, generic in the float type: the limits first,
    with non-strict comparisons, then NaN, then C++'s conversion. -/
def entrypointToInteger (convert : F → Option Int) (kMax kMin : F) (max min : Int) (f : F) :
    Option Int :=
  if f >= kMax then some max
  else if f <= kMin then some min
  else if f != f then some 0
  else convert f

/-- A float type seen through its unpacked model: every value unpacks to a
    canonical float, and equality and comparisons are those of the unpacked
    floats. -/
structure UnpacksTo (spec : Format) (unpack : F → UnpackedFloat) : Prop where
  canonical : ∀ a, Canonical spec (unpack a)
  beq_eq : ∀ a b : F, (a == b) = (unpack a).beq (unpack b)
  lt_iff : ∀ a b : F, a < b ↔ (unpack a).lt (unpack b) = true
  le_iff : ∀ a b : F, a ≤ b ↔ (unpack a).le (unpack b) = true

variable {spec : Format} {unpack : F → UnpackedFloat}

omit [DecidableLT F] in
theorem entrypointToInteger_unpack (hF : UnpacksTo spec unpack) (convert : F → Option Int)
    (kMax kMin : F) (max min : Int) (f : F) :
    entrypointToInteger convert kMax kMin max min f =
      if (unpack kMax).le (unpack f) then some max
      else if (unpack f).le (unpack kMin) then some min
      else if (unpack f).beq (unpack f) = false then some 0
      else convert f := by
  simp only [entrypointToInteger, ge_iff_le, hF.le_iff, bne, hF.beq_eq, Bool.not_eq_true']

omit [DecidableLE F] in
theorem executeToInteger_unpack (hF : UnpacksTo spec unpack) (convert : F → Option Int)
    (kMax kMin : F) (max min : Int) (val : F) :
    executeToInteger convert kMax kMin max min val =
      if (unpack val).beq (unpack val) = false then some 0
      else if (unpack kMax).lt (unpack val) then some max
      else if (unpack val).lt (unpack kMin) then some min
      else convert val := by
  simp only [executeToInteger, gt_iff_lt, hF.lt_iff, bne, hF.beq_eq, Bool.not_eq_true']

end Convert

/-- The limits of a conversion to the integers from `min` to `max`, as
    unpacked floats: `kMax` is `max` rounded to the float type, so `max` or at
    most one above, and `kMin` is `min` exactly. -/
structure Bounds (kMax kMin : UnpackedFloat) (max min : Int) : Prop where
  max_pos : 0 < max
  min_nonpos : min ≤ 0
  kMax_isNumber : isNumber kMax
  kMin_isNumber : isNumber kMin
  le_kMax : (max : ℚ) ≤ value kMax
  kMax_le : value kMax ≤ max + 1
  kMin_eq : value kMin = min

section Unpacked

variable {spec : Format} {u kMax kMin : UnpackedFloat} {max min : Int}

/-- The helpers' tests on unpacked floats give Java's narrowing. -/
theorem entrypoint_correct (hb : Bounds kMax kMin max min) (hu : Canonical spec u)
    (hmax : Canonical spec kMax) (hmin : Canonical spec kMin) :
    (if kMax.le u then some max else if u.le kMin then some min
      else if u.beq u = false then some 0 else toIntChecked min max u) =
      some (javaNarrow min max u) := by
  have hkmax := hb.kMax_isNumber
  have hkmin := hb.kMin_isNumber
  by_cases hn : u = .notANumber
  · subst hn
    simp [beq_self_eq_false_iff, javaNarrow]
  rcases isNumber_or_infinity hn with nu | ⟨s, rfl⟩
  · -- a number: the tests are comparisons of values
    have hbeq : ¬ u.beq u = false := fun h => hn ((beq_self_eq_false_iff u).1 h)
    rw [javaNarrow_of_isNumber nu]
    by_cases h₁ : value kMax ≤ value u
    · rw [if_pos ((le_iff_value_le hmax hu hkmax nu).2 h₁), if_pos (hb.le_kMax.trans h₁)]
    rw [if_neg (mt (le_iff_value_le hmax hu hkmax nu).1 h₁)]
    by_cases h₂ : value u ≤ min
    · have : ¬ (max : ℚ) ≤ value u := by
        have : (0 : ℚ) < max := by exact_mod_cast hb.max_pos
        have : (min : ℚ) ≤ 0 := by exact_mod_cast hb.min_nonpos
        linarith
      rw [if_pos ((le_iff_value_le hu hmin nu hkmin).2 (by rwa [hb.kMin_eq])), if_neg this,
        if_pos h₂]
    -- strictly between the limits: C++'s conversion is in range
    rw [if_neg (mt (le_iff_value_le hu hmin nu hkmin).1 (by rwa [hb.kMin_eq])), if_neg hbeq,
      if_neg h₂]
    have hlt : value u < max + 1 := lt_of_lt_of_le (not_le.1 h₁) hb.kMax_le
    rw [toIntChecked_eq_some nu (le_truncate hb.min_nonpos (not_le.1 h₂).le)
      (truncate_le hb.max_pos.le hlt)]
    split_ifs with h₃
    · exact congrArg some (truncate_eq_of_le_of_lt hb.max_pos.le h₃ hlt)
    · rfl
  · -- an infinity is above or below both limits
    cases s
    · simp [UnpackedFloat.le, compare_infinity_negative hkmax, infinity_negative_compare hkmin,
        javaNarrow]
    · simp [UnpackedFloat.le, compare_infinity_positive hkmax, javaNarrow]

/-- The interpreter's tests on unpacked floats give Java's narrowing, except
    at a limit that rounded up, where C++'s conversion is out of range. -/
theorem execute_correct (hb : Bounds kMax kMin max min) (hu : Canonical spec u)
    (hmax : Canonical spec kMax) (hmin : Canonical spec kMin) :
    (if u.beq u = false then some 0 else if kMax.lt u then some max
      else if u.lt kMin then some min else toIntChecked min max u) =
      if value u = max + 1 ∧ value kMax = max + 1 then none else some (javaNarrow min max u) := by
  have hkmax := hb.kMax_isNumber
  have hkmin := hb.kMin_isNumber
  have hmax0 : (0 : ℚ) < max := by exact_mod_cast hb.max_pos
  have hmin0 : (min : ℚ) ≤ 0 := by exact_mod_cast hb.min_nonpos
  -- NaN and the infinities stand for 0, which is not the bound
  have hzero : ¬ ((0 : ℚ) = max + 1 ∧ value kMax = max + 1) := fun h => by linarith [h.1]
  by_cases hn : u = .notANumber
  · subst hn
    rw [if_pos (show UnpackedFloat.notANumber.beq .notANumber = false from rfl),
      value_notANumber, if_neg hzero]
    rfl
  rcases isNumber_or_infinity hn with nu | ⟨s, rfl⟩
  · -- a number: the tests are comparisons of values
    have hbeq : ¬ u.beq u = false := fun h => hn ((beq_self_eq_false_iff u).1 h)
    rw [if_neg hbeq, javaNarrow_of_isNumber nu]
    by_cases h₁ : value kMax < value u
    · rw [if_pos ((lt_iff_value_lt hmax hu hkmax nu).2 h₁),
        if_neg (fun h => by linarith [h.1, h.2]), if_pos (hb.le_kMax.trans h₁.le)]
    rw [if_neg (mt (lt_iff_value_lt hmax hu hkmax nu).1 h₁)]
    by_cases h₂ : value u < min
    · rw [if_pos ((lt_iff_value_lt hu hmin nu hkmin).2 (by rwa [hb.kMin_eq])),
        if_neg (fun h => by linarith [h.1]), if_neg (by linarith), if_pos h₂.le]
    rw [if_neg (mt (lt_iff_value_lt hu hmin nu hkmin).1 (by rwa [hb.kMin_eq]))]
    have hle : value u ≤ max + 1 := (not_lt.1 h₁).trans hb.kMax_le
    by_cases h₃ : value u = max + 1
    · -- the limit that rounded up: C++'s conversion is out of range
      have hk : value kMax = max + 1 := le_antisymm hb.kMax_le (h₃ ▸ not_lt.1 h₁)
      have htrunc : truncate (value u) = max + 1 := by
        rw [h₃, show (max : ℚ) + 1 = ((max + 1 : ℤ) : ℚ) by push_cast; ring, truncate_intCast]
      rw [if_pos ⟨h₃, hk⟩, toIntChecked_eq_none (by omega)]
    · have hlt : value u < max + 1 := lt_of_le_of_ne hle h₃
      rw [if_neg (fun h => h₃ h.1), toIntChecked_eq_some nu
        (le_truncate hb.min_nonpos (not_lt.1 h₂)) (truncate_le hb.max_pos.le hlt)]
      split_ifs with h₄ h₅
      · exact congrArg some (truncate_eq_of_le_of_lt hb.max_pos.le h₄ hlt)
      · rw [le_antisymm h₅ (not_lt.1 h₂), truncate_intCast]
      · rfl
  · -- an infinity is above or below both limits
    rw [value_infinity, if_neg hzero, if_neg (by cases s <;> decide)]
    cases s
    · rw [if_neg, if_pos]
      · rfl
      · rw [UnpackedFloat.lt, infinity_negative_compare hkmin]
        rfl
      · rw [UnpackedFloat.lt, compare_infinity_negative hkmax]
        decide
    · rw [if_pos]
      · rfl
      · rw [UnpackedFloat.lt, compare_infinity_positive hkmax]
        rfl

end Unpacked

section Convert

variable {F : Type} [BEq F] [LT F] [LE F] [DecidableLT F] [DecidableLE F] {spec : Format}
  {unpack : F → UnpackedFloat}
  {convert : F → Option Int} {kMax kMin : F} {max min : Int}

omit [DecidableLT F] in
theorem entrypointToInteger_eq (hF : UnpacksTo spec unpack)
    (hb : Bounds (unpack kMax) (unpack kMin) max min)
    (hconvert : ∀ v, convert v = toIntChecked min max (unpack v)) (f : F) :
    entrypointToInteger convert kMax kMin max min f = some (javaNarrow min max (unpack f)) := by
  rw [entrypointToInteger_unpack hF, hconvert]
  exact entrypoint_correct hb (hF.canonical f) (hF.canonical kMax) (hF.canonical kMin)

omit [DecidableLE F] in
theorem executeToInteger_eq (hF : UnpacksTo spec unpack)
    (hb : Bounds (unpack kMax) (unpack kMin) max min)
    (hconvert : ∀ v, convert v = toIntChecked min max (unpack v)) (val : F) :
    executeToInteger convert kMax kMin max min val =
      if value (unpack val) = max + 1 ∧ value (unpack kMax) = max + 1 then none
      else some (javaNarrow min max (unpack val)) := by
  rw [executeToInteger_unpack hF, hconvert]
  exact execute_correct hb (hF.canonical val) (hF.canonical kMax) (hF.canonical kMin)

end Convert

/-! ### The members -/

theorem float32_unpacksTo : UnpacksTo Format.binary32 (fun f : Float32 => f.toModel.unpack) where
  canonical f := canonical_unpack Format.binary32 f.toModel.toBits.toBitVec
  beq_eq _ _ := rfl
  lt_iff _ _ := decide_eq_true_iff
  le_iff _ _ := decide_eq_true_iff

theorem float_unpacksTo : UnpacksTo Format.binary64 (fun d : Float => d.toModel.unpack) where
  canonical d := canonical_unpack Format.binary64 d.toModel.toBits.toBitVec
  beq_eq _ _ := rfl
  lt_iff _ _ := decide_eq_true_iff
  le_iff _ _ := decide_eq_true_iff

/-- C++'s conversion of a float to an integer type with values from `lo` to
    `hi`: rounding toward zero, undefined out of range. -/
def floatCast (lo hi : Int) (f : Float32) : Option Int :=
  toIntChecked lo hi f.toModel.unpack

/-- C++'s conversion of a double to an integer type with values from `lo` to
    `hi`. -/
def doubleCast (lo hi : Int) (d : Float) : Option Int :=
  toIntChecked lo hi d.toModel.unpack

theorem floatCast_apply (lo hi : Int) (f : Float32) :
    floatCast lo hi f = toIntChecked lo hi f.toModel.unpack := rfl

theorem doubleCast_apply (lo hi : Int) (d : Float) :
    doubleCast lo hi d = toIntChecked lo hi d.toModel.unpack := rfl

/-! The limits converted to float and double: the int limits to float and
the long limits to either round the maximum up by one. -/

theorem value_float_maxInt : value (Float32.ofInt 2147483647).toModel.unpack = 2147483648 := by
  rw [show (Float32.ofInt 2147483647).toModel.unpack = .finite .positive 8388608 8 (by decide)
    from rfl]
  norm_num [Sign.apply]

theorem value_float_minInt :
    value (Float32.ofInt (-2147483648)).toModel.unpack = -2147483648 := by
  rw [show (Float32.ofInt (-2147483648)).toModel.unpack = .finite .negative 8388608 8 (by decide)
    from rfl]
  norm_num [Sign.apply]

theorem value_float_maxLong :
    value (Float32.ofInt 9223372036854775807).toModel.unpack = 9223372036854775808 := by
  rw [show (Float32.ofInt 9223372036854775807).toModel.unpack =
    .finite .positive 8388608 40 (by decide) from rfl]
  norm_num [Sign.apply]

theorem value_float_minLong :
    value (Float32.ofInt (-9223372036854775808)).toModel.unpack = -9223372036854775808 := by
  rw [show (Float32.ofInt (-9223372036854775808)).toModel.unpack =
    .finite .negative 8388608 40 (by decide) from rfl]
  norm_num [Sign.apply]

theorem value_double_maxInt : value (Float.ofInt 2147483647).toModel.unpack = 2147483647 := by
  rw [show (Float.ofInt 2147483647).toModel.unpack =
    .finite .positive (2147483647 * 2 ^ 22) (-22) (by decide) from rfl]
  norm_num [Sign.apply]

theorem value_double_minInt :
    value (Float.ofInt (-2147483648)).toModel.unpack = -2147483648 := by
  rw [show (Float.ofInt (-2147483648)).toModel.unpack =
    .finite .negative 4503599627370496 (-21) (by decide) from rfl]
  norm_num [Sign.apply]

theorem value_double_maxLong :
    value (Float.ofInt 9223372036854775807).toModel.unpack = 9223372036854775808 := by
  rw [show (Float.ofInt 9223372036854775807).toModel.unpack =
    .finite .positive 4503599627370496 11 (by decide) from rfl]
  norm_num [Sign.apply]

theorem value_double_minLong :
    value (Float.ofInt (-9223372036854775808)).toModel.unpack = -9223372036854775808 := by
  rw [show (Float.ofInt (-9223372036854775808)).toModel.unpack =
    .finite .negative 4503599627370496 11 (by decide) from rfl]
  norm_num [Sign.apply]

theorem float_int_bounds : Bounds (Float32.ofInt 2147483647).toModel.unpack
    (Float32.ofInt (-2147483648)).toModel.unpack 2147483647 (-2147483648) :=
  ⟨by decide, by decide, rfl, rfl, by rw [value_float_maxInt]; norm_num,
    by rw [value_float_maxInt]; norm_num, by rw [value_float_minInt]; norm_num⟩

theorem float_long_bounds : Bounds (Float32.ofInt 9223372036854775807).toModel.unpack
    (Float32.ofInt (-9223372036854775808)).toModel.unpack 9223372036854775807
    (-9223372036854775808) :=
  ⟨by decide, by decide, rfl, rfl, by rw [value_float_maxLong]; norm_num,
    by rw [value_float_maxLong]; norm_num, by rw [value_float_minLong]; norm_num⟩

theorem double_int_bounds : Bounds (Float.ofInt 2147483647).toModel.unpack
    (Float.ofInt (-2147483648)).toModel.unpack 2147483647 (-2147483648) :=
  ⟨by decide, by decide, rfl, rfl, by rw [value_double_maxInt]; norm_num,
    by rw [value_double_maxInt]; norm_num, by rw [value_double_minInt]; norm_num⟩

theorem double_long_bounds : Bounds (Float.ofInt 9223372036854775807).toModel.unpack
    (Float.ofInt (-9223372036854775808)).toModel.unpack 9223372036854775807
    (-9223372036854775808) :=
  ⟨by decide, by decide, rfl, rfl, by rw [value_double_maxLong]; norm_num,
    by rw [value_double_maxLong]; norm_num, by rw [value_double_minLong]; norm_num⟩

namespace Interpreter

/-- std::numeric_limits<int32_t>::max(). -/
def kMaxInt : Int32 := Int32.maxValue

/-- std::numeric_limits<int32_t>::min(). -/
def kMinInt : Int32 := Int32.minValue

/-- std::numeric_limits<int64_t>::max(). -/
def kMaxLong : Int64 := Int64.maxValue

/-- std::numeric_limits<int64_t>::min(). -/
def kMinLong : Int64 := Int64.minValue

/-- FLOAT_TO_INT: the limits are static_cast<float>(kMaxInt) and
    static_cast<float>(kMinInt). -/
def floatToInt (val : Float32) : Option Int32 :=
  (executeToInteger (floatCast kMinInt.toInt kMaxInt.toInt) (Float32.ofInt kMaxInt.toInt)
    (Float32.ofInt kMinInt.toInt) kMaxInt.toInt kMinInt.toInt val).map Int.toInt32

/-- FLOAT_TO_LONG. -/
def floatToLong (val : Float32) : Option Int64 :=
  (executeToInteger (floatCast kMinLong.toInt kMaxLong.toInt) (Float32.ofInt kMaxLong.toInt)
    (Float32.ofInt kMinLong.toInt) kMaxLong.toInt kMinLong.toInt val).map Int.toInt64

/-- DOUBLE_TO_INT. -/
def doubleToInt (val : Float) : Option Int32 :=
  (executeToInteger (doubleCast kMinInt.toInt kMaxInt.toInt) (Float.ofInt kMaxInt.toInt)
    (Float.ofInt kMinInt.toInt) kMaxInt.toInt kMinInt.toInt val).map Int.toInt32

/-- DOUBLE_TO_LONG. -/
def doubleToLong (val : Float) : Option Int64 :=
  (executeToInteger (doubleCast kMinLong.toInt kMaxLong.toInt) (Float.ofInt kMaxLong.toInt)
    (Float.ofInt kMinLong.toInt) kMaxLong.toInt kMinLong.toInt val).map Int.toInt64

theorem doubleToInt_eq_javaNarrow (val : Float) :
    doubleToInt val = some (javaNarrow (-2147483648) 2147483647 val.toModel.unpack).toInt32 := by
  rw [doubleToInt, show kMaxInt.toInt = 2147483647 by decide,
    show kMinInt.toInt = -2147483648 by decide,
    executeToInteger_eq float_unpacksTo double_int_bounds (doubleCast_apply _ _),
    value_double_maxInt, if_neg (fun h => by norm_num at h)]
  rfl

theorem floatToInt_eq (val : Float32) :
    floatToInt val =
      if value val.toModel.unpack = 2147483648 then none
      else some (javaNarrow (-2147483648) 2147483647 val.toModel.unpack).toInt32 := by
  rw [floatToInt, show kMaxInt.toInt = 2147483647 by decide,
    show kMinInt.toInt = -2147483648 by decide,
    executeToInteger_eq float32_unpacksTo float_int_bounds (floatCast_apply _ _),
    value_float_maxInt]
  norm_num
  split <;> rfl

theorem floatToLong_eq (val : Float32) :
    floatToLong val =
      if value val.toModel.unpack = 9223372036854775808 then none
      else some (javaNarrow (-9223372036854775808) 9223372036854775807
        val.toModel.unpack).toInt64 := by
  rw [floatToLong, show kMaxLong.toInt = 9223372036854775807 by decide,
    show kMinLong.toInt = -9223372036854775808 by decide,
    executeToInteger_eq float32_unpacksTo float_long_bounds (floatCast_apply _ _),
    value_float_maxLong]
  norm_num
  split <;> rfl

theorem doubleToLong_eq (val : Float) :
    doubleToLong val =
      if value val.toModel.unpack = 9223372036854775808 then none
      else some (javaNarrow (-9223372036854775808) 9223372036854775807
        val.toModel.unpack).toInt64 := by
  rw [doubleToLong, show kMaxLong.toInt = 9223372036854775807 by decide,
    show kMinLong.toInt = -9223372036854775808 by decide,
    executeToInteger_eq float_unpacksTo double_long_bounds (doubleCast_apply _ _),
    value_double_maxLong]
  norm_num
  split <;> rfl

end Interpreter

/-- art_d2l: its kMaxLong and kMinLong are the int64 limits converted to
    double. -/
def artD2l (d : Float) : Option Int64 :=
  (entrypointToInteger
    (doubleCast (0x8000000000000000 : Int64).toInt (0x7fffffffffffffff : Int64).toInt)
    (Float.ofInt (0x7fffffffffffffff : Int64).toInt)
    (Float.ofInt (0x8000000000000000 : Int64).toInt)
    (0x7fffffffffffffff : Int64).toInt (0x8000000000000000 : Int64).toInt d).map Int.toInt64

/-- art_f2l: its kMaxLong and kMinLong are the int64 limits converted to
    float. -/
def artF2l (f : Float32) : Option Int64 :=
  (entrypointToInteger
    (floatCast (0x8000000000000000 : Int64).toInt (0x7fffffffffffffff : Int64).toInt)
    (Float32.ofInt (0x7fffffffffffffff : Int64).toInt)
    (Float32.ofInt (0x8000000000000000 : Int64).toInt)
    (0x7fffffffffffffff : Int64).toInt (0x8000000000000000 : Int64).toInt f).map Int.toInt64

/-- art_d2i: its kMaxInt and kMinInt are the int32 limits converted to
    double. -/
def artD2i (d : Float) : Option Int32 :=
  (entrypointToInteger (doubleCast (0x80000000 : Int32).toInt (0x7fffffff : Int32).toInt)
    (Float.ofInt (0x7fffffff : Int32).toInt) (Float.ofInt (0x80000000 : Int32).toInt)
    (0x7fffffff : Int32).toInt (0x80000000 : Int32).toInt d).map Int.toInt32

/-- art_f2i: its kMaxInt and kMinInt are the int32 limits converted to
    float. -/
def artF2i (f : Float32) : Option Int32 :=
  (entrypointToInteger (floatCast (0x80000000 : Int32).toInt (0x7fffffff : Int32).toInt)
    (Float32.ofInt (0x7fffffff : Int32).toInt) (Float32.ofInt (0x80000000 : Int32).toInt)
    (0x7fffffff : Int32).toInt (0x80000000 : Int32).toInt f).map Int.toInt32

theorem artD2l_eq_javaNarrow (d : Float) :
    artD2l d =
      some (javaNarrow (-9223372036854775808) 9223372036854775807 d.toModel.unpack).toInt64 := by
  rw [artD2l, show (0x7fffffffffffffff : Int64).toInt = 9223372036854775807 by decide,
    show (0x8000000000000000 : Int64).toInt = -9223372036854775808 by decide,
    entrypointToInteger_eq float_unpacksTo double_long_bounds (doubleCast_apply _ _)]
  rfl

theorem artF2l_eq_javaNarrow (f : Float32) :
    artF2l f =
      some (javaNarrow (-9223372036854775808) 9223372036854775807 f.toModel.unpack).toInt64 := by
  rw [artF2l, show (0x7fffffffffffffff : Int64).toInt = 9223372036854775807 by decide,
    show (0x8000000000000000 : Int64).toInt = -9223372036854775808 by decide,
    entrypointToInteger_eq float32_unpacksTo float_long_bounds (floatCast_apply _ _)]
  rfl

theorem artD2i_eq_javaNarrow (d : Float) :
    artD2i d = some (javaNarrow (-2147483648) 2147483647 d.toModel.unpack).toInt32 := by
  rw [artD2i, show (0x7fffffff : Int32).toInt = 2147483647 by decide,
    show (0x80000000 : Int32).toInt = -2147483648 by decide,
    entrypointToInteger_eq float_unpacksTo double_int_bounds (doubleCast_apply _ _)]
  rfl

theorem artF2i_eq_javaNarrow (f : Float32) :
    artF2i f = some (javaNarrow (-2147483648) 2147483647 f.toModel.unpack).toInt32 := by
  rw [artF2i, show (0x7fffffff : Int32).toInt = 2147483647 by decide,
    show (0x80000000 : Int32).toInt = -2147483648 by decide,
    entrypointToInteger_eq float32_unpacksTo float_int_bounds (floatCast_apply _ _)]
  rfl

theorem narrowing_undefined_at_rounded_limit :
    value (Float32.ofInt 2147483647).toModel.unpack = 2147483648 ∧
      javaNarrow (-2147483648) 2147483647 (Float32.ofInt 2147483647).toModel.unpack =
        2147483647 ∧
      Interpreter.floatToInt (Float32.ofInt 2147483647) = none ∧
      artF2i (Float32.ofInt 2147483647) = some 2147483647 ∧
      Interpreter.floatToLong (Float32.ofInt 9223372036854775807) = none ∧
      Interpreter.doubleToLong (Float.ofInt 9223372036854775807) = none := by
  have hjava : javaNarrow (-2147483648) 2147483647 (Float32.ofInt 2147483647).toModel.unpack =
      2147483647 := by
    rw [javaNarrow_of_isNumber rfl, value_float_maxInt, if_pos (by norm_num)]
  refine ⟨value_float_maxInt, hjava, ?_, ?_, ?_, ?_⟩
  · rw [Interpreter.floatToInt_eq, if_pos value_float_maxInt]
  · rw [artF2i_eq_javaNarrow, hjava]
    rfl
  · rw [Interpreter.floatToLong_eq, if_pos value_float_maxLong]
  · rw [Interpreter.doubleToLong_eq, if_pos value_double_maxLong]

end ArtRuntime
