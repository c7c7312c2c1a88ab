import ArtRuntime.Dex.NameGrammar
import ArtRuntime.Utf.ModifiedUtf8

/-!
# Validating Names and Descriptors

utils.cc checks the names a dex file declares: `IsValidMemberName` for field
and method names, `IsValidDescriptor` for type descriptors, and
`IsValidBinaryClassName` and `IsValidJniClassName` for the class names of
`Class.forName` and of JNI. All four walk the modified UTF-8 bytes of a
NUL-terminated string. `IsValidPartOfMemberNameUtf8` reads one character: a
byte up to 0x7f is looked up in a table of 128 bits, anything else is decoded
and classified by the high byte of the code unit, with a second unit read
after a leading surrogate.

The model keeps a string as its bytes and a pointer as a position in them,
bytes past the end reading as 0. Each loop is proved against the grammar of
`Dex.NameGrammar` by induction on the code units still to read, one
`nextChar` at a time. The strings are those `CheckIntraStringDataItem`
accepts, the encodings of sequences of code units
(`DexFileVerifier.checkIntraStringDataItem_iff`).

The descriptor and class-name checks accept exactly the grammar. The
member-name check accepts one string more: `<>`, where the `>` right after
the `<` ends an angle-bracketed name whose `SimpleName` is empty.

## Main definitions

* `isValidPartOfMemberNameUtf8`: One character of a member name.
* `isValidMemberName`: The member-name check.
* `isValidClassName`: The class-name and descriptor check, with the
  kind of name and the separator.
* `isValidBinaryClassName`, `isValidJniClassName`, `isValidDescriptor`: Its
  three uses.

## Theorems

* `isValidPartOfMemberNameUtf8_of_nextChar`,
  `isValidPartOfMemberNameUtf8_of_nextChar_none`: One character is accepted
  exactly when the grammar reads one there.
* `isValidMemberNameLoop_iff`, `isValidClassNameLoop_iff`: The loops accept
  what is left of a name followed by what ends it.
* `isValidClassName_kDescriptor_iff`, `isValidClassName_kName_iff`:
  IsValidClassName after its count of `[`s.
* `isValidMemberName_accepts_empty_angle`: The member-name check accepts
  `<>`.
* `name_checks_match_grammar`: The four checks against the grammar, on
  every string the file verifier accepts.
-/

namespace ArtRuntime

namespace Names

open Utf

/-! ### The model -/

/-- DEX_MEMBER_VALID_LOW_ASCII: bit `c` is set for the ASCII characters `c`
    valid in a member name. -/
def dexMemberValidLowAscii : List UInt32 :=
  [0x00000000, 0x03ff2010, 0x87fffffe, 0x07fffffe]

/-- IsValidPartOfMemberNameUtf8Slow: decode a code unit and switch on its
    high byte. -/
def isValidPartOfMemberNameUtf8Slow (pUtf8Ptr : List UInt8) (p : Nat) : Bool × Nat :=
  let (utf16, p) := getUtf16FromUtf8 pUtf8Ptr p
  match (utf16 >>> 8).toNat with
  | 0x00 => (decide (utf16 > 0x00a0), p)
  | 0xd8 | 0xd9 | 0xda | 0xdb =>
    -- a leading surrogate: a trailing one must follow
    let (utf16, p) := getUtf16FromUtf8 pUtf8Ptr p
    (decide (utf16 ≥ 0xdc00) && decide (utf16 ≤ 0xdfff), p)
  | 0xdc | 0xdd | 0xde | 0xdf => (false, p)
  | 0x20 | 0xff =>
    -- the ranges with spaces, controls and specials
    match (utf16 &&& 0xfff8).toNat with
    | 0x2000 | 0x2008 | 0x2028 | 0xfff0 | 0xfff8 => (false, p)
    | _ => (true, p)
  | _ => (true, p)

/-- IsValidPartOfMemberNameUtf8: whether the character at `p` may be part of
    a member name, and the position after it. -/
def isValidPartOfMemberNameUtf8 (pUtf8Ptr : List UInt8) (p : Nat) : Bool × Nat :=
  let c := pUtf8Ptr.getD p 0
  if c ≤ 0x7f then
    let wordIdx := c >>> 5
    let bitIdx := c &&& 0x1f
    ((dexMemberValidLowAscii.getD wordIdx.toNat 0 &&& ((1 : UInt32) <<< bitIdx.toUInt32)) != 0,
      p + 1)
  else isValidPartOfMemberNameUtf8Slow pUtf8Ptr p

theorem lt_isValidPartOfMemberNameUtf8Slow (pUtf8Ptr : List UInt8) (p : Nat) :
    p < (isValidPartOfMemberNameUtf8Slow pUtf8Ptr p).2 := by
  have h1 := lt_getUtf16FromUtf8 pUtf8Ptr p
  unfold isValidPartOfMemberNameUtf8Slow
  generalize getUtf16FromUtf8 pUtf8Ptr p = first at h1
  rcases first with ⟨utf16, q⟩
  dsimp only at h1 ⊢
  -- every branch ends past the first unit, the surrogate branch past a second
  split
  all_goals first
    | exact h1
    | exact Nat.lt_trans h1 (lt_getUtf16FromUtf8 _ _)
    | (split <;> exact h1)

theorem lt_isValidPartOfMemberNameUtf8 (pUtf8Ptr : List UInt8) (p : Nat) :
    p < (isValidPartOfMemberNameUtf8 pUtf8Ptr p).2 := by
  unfold isValidPartOfMemberNameUtf8
  dsimp only
  split
  · exact Nat.lt_succ_self p
  · exact lt_isValidPartOfMemberNameUtf8Slow pUtf8Ptr p

/-- The loop of IsValidMemberName from `p`. -/
def isValidMemberNameLoop (s : List UInt8) (angle_name : Bool) (p : Nat) : Bool :=
  if s.getD p 0 = 0 then !angle_name
  else if s.getD p 0 = '>'.toUInt8 then angle_name && s.getD (p + 1) 0 == 0
  else if (isValidPartOfMemberNameUtf8 s p).1 then
    isValidMemberNameLoop s angle_name (isValidPartOfMemberNameUtf8 s p).2
  else false
termination_by s.length - p
decreasing_by
  have hlen := lt_length_of_getD_ne_zero ‹_›
  have hp := lt_isValidPartOfMemberNameUtf8 s p
  omega

/-- IsValidMemberName. -/
def isValidMemberName (s : List UInt8) : Bool :=
  -- the empty string is not a valid name
  if s.getD 0 0 = 0 then false
  else if s.getD 0 0 = '<'.toUInt8 then isValidMemberNameLoop s true 1
  else isValidMemberNameLoop s false 0

/-- ClassNameType. -/
inductive ClassNameType where
  | kName
  | kDescriptor
  deriving DecidableEq, Repr

/-- The number of `[` at the front of a string: IsValidClassName's
    arrayCount. -/
def arrayCountOf : List UInt8 → Nat
  | [] => 0
  | c :: s => if c = '['.toUInt8 then arrayCountOf s + 1 else 0

/-- The loop of IsValidClassName over the class name from `p`. -/
def isValidClassNameLoop (s : List UInt8) (type : ClassNameType) (separator : UInt8)
    (sepOrFirst : Bool) (p : Nat) : Bool :=
  let c := s.getD p 0
  if c = 0 then type == .kName && !sepOrFirst
  else if c = ';'.toUInt8 then type == .kDescriptor && !sepOrFirst && s.getD (p + 1) 0 == 0
  else if c = '/'.toUInt8 ∨ c = '.'.toUInt8 then
    -- the wrong separator, one at the start, or two in a row
    if c ≠ separator then false
    else if sepOrFirst then false
    else isValidClassNameLoop s type separator true (p + 1)
  else if (isValidPartOfMemberNameUtf8 s p).1 then
    isValidClassNameLoop s type separator false (isValidPartOfMemberNameUtf8 s p).2
  else false
termination_by s.length - p
decreasing_by
  all_goals
    have hlen := lt_length_of_getD_ne_zero ‹¬ s.getD p 0 = 0›
    first
      | omega
      | (have hp := lt_isValidPartOfMemberNameUtf8 s p; omega)

/-- IsValidClassName after the `[`s, with `p` at the first character after
    them. A descriptor is a primitive type, `V` outside an array, or `L` and
    a class name. -/
def isValidClassNameFrom (s : List UInt8) (type : ClassNameType) (separator : UInt8)
    (arrayCount p : Nat) : Bool :=
  match type with
  | .kDescriptor =>
    let c := s.getD p 0
    if c = 'B'.toUInt8 ∨ c = 'C'.toUInt8 ∨ c = 'D'.toUInt8 ∨ c = 'F'.toUInt8 ∨
        c = 'I'.toUInt8 ∨ c = 'J'.toUInt8 ∨ c = 'S'.toUInt8 ∨ c = 'Z'.toUInt8 then
      s.getD (p + 1) 0 == 0
    else if c = 'V'.toUInt8 then arrayCount == 0 && s.getD (p + 1) 0 == 0
    else if c = 'L'.toUInt8 then isValidClassNameLoop s .kDescriptor separator true (p + 1)
    else false
  | .kName => isValidClassNameLoop s .kName separator true p

/-- IsValidClassName. -/
def isValidClassName (s : List UInt8) (type : ClassNameType) (separator : UInt8) : Bool :=
  let arrayCount := arrayCountOf s
  -- arrays may have no more than 255 dimensions
  if arrayCount > 255 then false
  else
    -- an array has the format of a descriptor, whatever was asked for
    let type := if arrayCount ≠ 0 then .kDescriptor else type
    isValidClassNameFrom s type separator arrayCount arrayCount

/-- IsValidBinaryClassName. -/
def isValidBinaryClassName (s : List UInt8) : Bool := isValidClassName s .kName '.'.toUInt8

/-- IsValidJniClassName. -/
def isValidJniClassName (s : List UInt8) : Bool := isValidClassName s .kName '/'.toUInt8

/-- IsValidDescriptor. -/
def isValidDescriptor (s : List UInt8) : Bool := isValidClassName s .kDescriptor '/'.toUInt8


/-! ### Reading the encoding of a code unit

The bytes a loop reads are `pre ++ (convertUtf16ToModifiedUtf8 us ++ 0 :: tail)`
with the pointer at `pre.length`: the units `us` still to read, then the
terminator. -/

section Bytes

theorem toNat_toUInt8_of_lt {x : Char} (h : x.toNat < 0x80) : x.toUInt8.toNat = x.toNat := by
  rw [← Char.toUInt8_val, UInt32.toNat_toUInt8]
  show x.toNat % 256 = x.toNat
  omega

theorem toNat_unit_of_lt {x : Char} (h : x.toNat < 0x80) : (unit x).toNat = x.toNat := by
  rw [unit, Nat.toUInt16_eq, UInt16.toNat_ofNat']
  omega

/-- An ASCII character other than 0 is one byte, its own. -/
theorem modifiedUtf8Bytes_unit {x : Char} (h0 : 0 < x.toNat) (h : x.toNat < 0x80) :
    modifiedUtf8Bytes (unit x) = [x.toUInt8] := by
  have hu := toNat_unit_of_lt h
  unfold modifiedUtf8Bytes
  rw [if_pos ⟨UInt16.lt_iff_toNat_lt.mpr (by rw [hu]; exact h0),
    UInt16.le_iff_toNat_le.mpr (by rw [hu]; show x.toNat ≤ 0x7f; omega)⟩]
  rw [List.singleton_inj, ← UInt8.toNat_inj, UInt16.toNat_toUInt8, hu, toNat_toUInt8_of_lt h]
  omega

/-- The lead byte of a code unit's encoding. -/
theorem toNat_leadByte (c : UInt16) (rest : List UInt8) :
    ((modifiedUtf8Bytes c ++ rest).getD 0 0).toNat =
      if 0 < c.toNat ∧ c.toNat ≤ 0x7f then c.toNat
      else if 0x7ff < c.toNat then c.toNat / 4096 + 224 else c.toNat / 64 + 192 := by
  unfold modifiedUtf8Bytes
  by_cases h1 : c > 0 ∧ c ≤ 0x7f
  · have h1' : 0 < c.toNat ∧ c.toNat ≤ 0x7f :=
      ⟨UInt16.lt_iff_toNat_lt.mp h1.1, UInt16.le_iff_toNat_le.mp h1.2⟩
    rw [if_pos h1, if_pos h1', List.cons_append, List.getD_cons_zero, UInt16.toNat_toUInt8]
    omega
  · have h1' : ¬ (0 < c.toNat ∧ c.toNat ≤ 0x7f) := fun h =>
      h1 ⟨UInt16.lt_iff_toNat_lt.mpr h.1, UInt16.le_iff_toNat_le.mpr h.2⟩
    rw [if_neg h1, if_neg h1']
    by_cases h3 : c > 0x07ff
    · have h3' : 0x7ff < c.toNat := UInt16.lt_iff_toNat_lt.mp h3
      rw [if_pos h3, if_pos h3', List.cons_append, List.getD_cons_zero, toNat_lead_three]
    · have h3' : ¬ 0x7ff < c.toNat := fun h => h3 (UInt16.lt_iff_toNat_lt.mpr h)
      rw [if_neg h3, if_neg h3', List.cons_append, List.getD_cons_zero, toNat_lead_two _ (by omega)]

/-- The lead byte is an ASCII character exactly when the unit is that
    character: every other unit has a lead byte above 0x7f. -/
theorem leadByte_eq_char_iff (c : UInt16) (rest : List UInt8) {x : Char} (h0 : 0 < x.toNat)
    (h : x.toNat < 0x80) : (modifiedUtf8Bytes c ++ rest).getD 0 0 = x.toUInt8 ↔ c = unit x := by
  rw [← UInt8.toNat_inj, toNat_leadByte, toNat_toUInt8_of_lt h, ← UInt16.toNat_inj,
    toNat_unit_of_lt h]
  have := c.toNat_lt
  split_ifs <;> omega

theorem getD_append_zero (pre rest : List UInt8) :
    (pre ++ rest).getD pre.length 0 = rest.getD 0 0 := by
  rw [← getD_append_length pre _ 0, Nat.add_zero]

theorem getD_encoded (pre tail : List UInt8) (us : List UInt16) :
    (pre ++ (convertUtf16ToModifiedUtf8 us ++ 0 :: tail)).getD pre.length 0 =
      (convertUtf16ToModifiedUtf8 us ++ 0 :: tail).getD 0 0 :=
  getD_append_zero pre _

/-- The terminator is the first 0 a loop meets where a unit starts. -/
theorem getD_encoded_eq_zero_iff (us : List UInt16) (tail : List UInt8) :
    (convertUtf16ToModifiedUtf8 us ++ 0 :: tail).getD 0 0 = 0 ↔ us = [] := by
  rcases us with _ | ⟨c, us⟩
  · exact iff_of_true rfl rfl
  · rw [convertUtf16ToModifiedUtf8_cons, List.append_assoc]
    exact iff_of_false (modifiedUtf8Bytes_lead_ne_zero c _) (List.cons_ne_nil c us)

/-- The bytes after an ASCII character are those of the units after it. -/
theorem encoded_unit_cons {x : Char} (h0 : 0 < x.toNat) (h : x.toNat < 0x80)
    (pre tail : List UInt8) (us : List UInt16) :
    pre ++ (convertUtf16ToModifiedUtf8 (unit x :: us) ++ 0 :: tail) =
      pre ++ [x.toUInt8] ++ (convertUtf16ToModifiedUtf8 us ++ 0 :: tail) := by
  rw [convertUtf16ToModifiedUtf8_cons, modifiedUtf8Bytes_unit h0 h, List.append_assoc,
    List.append_assoc]

/-- The unit at the front is an ASCII character exactly when its lead byte
    is. -/
theorem getD_encoded_cons_eq_char_iff (c : UInt16) (us : List UInt16) (tail : List UInt8)
    {x : Char} (h0 : 0 < x.toNat) (h : x.toNat < 0x80) :
    (convertUtf16ToModifiedUtf8 (c :: us) ++ 0 :: tail).getD 0 0 = x.toUInt8 ↔ c = unit x := by
  rw [convertUtf16ToModifiedUtf8_cons, List.append_assoc]
  exact leadByte_eq_char_iff c _ h0 h

/-- The byte after a one-byte unit is the terminator exactly when no unit
    follows. -/
theorem getD_after_ascii_eq_zero_iff {c : UInt16} (hc : 0 < c.toNat ∧ c.toNat ≤ 0x7f)
    (pre tail : List UInt8) (us : List UInt16) :
    (pre ++ (convertUtf16ToModifiedUtf8 (c :: us) ++ 0 :: tail)).getD (pre.length + 1) 0 = 0 ↔
      us = [] := by
  have hbytes : modifiedUtf8Bytes c = [c.toUInt8] := by
    unfold modifiedUtf8Bytes
    rw [if_pos ⟨UInt16.lt_iff_toNat_lt.mpr hc.1, UInt16.le_iff_toNat_le.mpr hc.2⟩]
  rw [convertUtf16ToModifiedUtf8_cons, hbytes, List.append_assoc, ← List.append_assoc pre,
    ← List.length_singleton (a := c.toUInt8), ← List.length_append, getD_append_zero]
  exact getD_encoded_eq_zero_iff us tail

/-- Decoding at a 0 byte gives the unit 0. -/
theorem getUtf16FromUtf8_of_getD_eq_zero {s : List UInt8} {p : Nat} (h : s.getD p 0 = 0) :
    (getUtf16FromUtf8 s p).1 = 0 := by
  unfold getUtf16FromUtf8
  rw [h]
  rfl

end Bytes

/-! ### One character -/

section Part

/-- The table of low ASCII holds exactly the `SimpleNameChar`s below 0x80. -/
theorem lowAscii_table : ∀ n : Fin 128,
    ((dexMemberValidLowAscii.getD (n.val.toUInt8 >>> 5).toNat 0 &&&
        ((1 : UInt32) <<< (n.val.toUInt8 &&& 0x1f).toUInt32)) != 0) =
      decide (IsSimpleNameUnit n.val.toUInt8.toUInt16) := by
  decide

theorem lowAscii_iff (b : UInt8) (hb : b.toNat < 0x80) :
    ((dexMemberValidLowAscii.getD (b >>> 5).toNat 0 &&& ((1 : UInt32) <<< (b &&& 0x1f).toUInt32))
        != 0) = decide (IsSimpleNameUnit b.toUInt16) := by
  have hb' : b.toNat.toUInt8 = b := by rw [Nat.toUInt8_eq, UInt8.ofNat_toNat]
  have h := lowAscii_table ⟨b.toNat, hb⟩
  dsimp only at h
  rwa [hb'] at h

theorem trail_verdict (d : UInt16) :
    (decide (d ≥ 0xdc00) && decide (d ≤ 0xdfff)) = decide (IsTrailSurrogate d) := by
  rw [Bool.eq_iff_iff]
  simp only [Bool.and_eq_true, decide_eq_true_eq]
  simp only [IsTrailSurrogate, ge_iff_le, UInt16.le_iff_toNat_le, UInt16.reduceToNat]

/-- The switch of IsValidPartOfMemberNameUtf8Slow, on a unit that is 0 or
    above 0x7f: a leading surrogate takes its verdict from the next unit,
    every other unit is valid exactly when it is a `SimpleNameChar`. -/
theorem isValidPartOfMemberNameUtf8Slow_of_decode {s : List UInt8} {p q : Nat} {c : UInt16}
    (hdec : getUtf16FromUtf8 s p = (c, q)) (hc : c.toNat = 0 ∨ 0x80 ≤ c.toNat) :
    isValidPartOfMemberNameUtf8Slow s p =
      if IsLeadSurrogate c then
        (decide (IsTrailSurrogate (getUtf16FromUtf8 s q).1), (getUtf16FromUtf8 s q).2)
      else (decide (IsSimpleNameUnit c), q) := by
  have hhigh : (c >>> 8).toNat = c.toNat / 256 := toNat_shiftRight c (k := 8) (by decide)
  have hlow : (c &&& 0xfff8).toNat = c.toNat / 8 * 8 := by
    rw [UInt16.toNat_and, show (0xfff8 : UInt16).toNat = (2 ^ (16 - 3) - 1) * 2 ^ 3 from rfl,
      MachineWord.and_high_mask c.toNat_lt (by decide)]
    rfl
  have hlt := c.toNat_lt
  unfold isValidPartOfMemberNameUtf8Slow
  rw [hdec]
  dsimp only
  rw [hhigh, hlow]
  split
  case h_1 =>
    -- U+0000 to U+00FF: only above U+00A0
    rw [if_neg (by unfold IsLeadSurrogate; omega), Prod.mk.injEq, Bool.eq_iff_iff]
    simp only [decide_eq_true_eq, and_true]
    simp only [gt_iff_lt, UInt16.lt_iff_toNat_lt, UInt16.reduceToNat, IsSimpleNameUnit]
    omega
  case h_2 | h_3 | h_4 | h_5 =>
    -- a leading surrogate: the verdict is the next unit's
    rw [if_pos (by unfold IsLeadSurrogate; omega)]
    generalize getUtf16FromUtf8 s q = next
    rcases next with ⟨d, q'⟩
    rw [trail_verdict]
  case h_6 | h_7 | h_8 | h_9 =>
    -- a trailing surrogate on its own
    rw [if_neg (by unfold IsLeadSurrogate; omega), Prod.mk.injEq, Bool.eq_iff_iff]
    simp only [decide_eq_true_eq, and_true, Bool.false_eq_true, false_iff]
    unfold IsSimpleNameUnit
    omega
  case h_10 | h_11 =>
    -- U+2000 to U+20FF and U+FF00 to U+FFFF: spaces, controls and specials in
    -- blocks of eight
    rw [if_neg (by unfold IsLeadSurrogate; omega)]
    split
    case h_6 =>
      -- the rest of the block is valid
      simp only [imp_false] at *
      rw [Prod.mk.injEq, Bool.eq_iff_iff]
      simp only [decide_eq_true_eq, and_true, true_iff]
      unfold IsSimpleNameUnit
      omega
    all_goals
      rw [Prod.mk.injEq, Bool.eq_iff_iff]
      simp only [decide_eq_true_eq, and_true, Bool.false_eq_true, false_iff]
      unfold IsSimpleNameUnit
      omega
  case h_12 =>
    -- every other high byte is valid
    simp only [imp_false] at *
    rw [if_neg (by unfold IsLeadSurrogate; omega), Prod.mk.injEq, Bool.eq_iff_iff]
    simp only [decide_eq_true_eq, and_true, true_iff]
    unfold IsSimpleNameUnit
    omega

theorem le_0x7f_iff (b : UInt8) : b ≤ 0x7f ↔ b.toNat ≤ 0x7f := UInt8.le_iff_toNat_le

/-- A unit other than a leading surrogate is a character on its own, or no
    character. -/
theorem isValidPartOfMemberNameUtf8_single {c : UInt16} (hc : ¬ IsLeadSurrogate c)
    (pre rest : List UInt8) :
    isValidPartOfMemberNameUtf8 (pre ++ (modifiedUtf8Bytes c ++ rest)) pre.length =
      (decide (IsSimpleNameUnit c), pre.length + (modifiedUtf8Bytes c).length) := by
  have hlead := toNat_leadByte c rest
  unfold isValidPartOfMemberNameUtf8
  dsimp only
  rw [getD_append_zero]
  by_cases ha : 0 < c.toNat ∧ c.toNat ≤ 0x7f
  · -- low ASCII: the table
    rw [if_pos ha] at hlead
    have hbytes : modifiedUtf8Bytes c = [c.toUInt8] := by
      unfold modifiedUtf8Bytes
      rw [if_pos ⟨UInt16.lt_iff_toNat_lt.mpr ha.1, UInt16.le_iff_toNat_le.mpr ha.2⟩]
    have hc8 : c.toUInt8.toUInt16 = c := by
      rw [← UInt16.toNat_inj, UInt8.toNat_toUInt16, UInt16.toNat_toUInt8]
      omega
    rw [if_pos ((le_0x7f_iff _).mpr (by rw [hlead]; exact ha.2)), hbytes,
      List.cons_append, List.getD_cons_zero, lowAscii_iff _ (by rw [UInt16.toNat_toUInt8]; omega),
      hc8, List.length_singleton]
  · -- a multibyte unit: decoded and switched on
    rw [if_neg ha] at hlead
    have hc' : c.toNat = 0 ∨ 0x80 ≤ c.toNat := by omega
    rw [if_neg (fun hle => by have := (le_0x7f_iff _).mp hle; split_ifs at hlead <;> omega),
      isValidPartOfMemberNameUtf8Slow_of_decode (getUtf16FromUtf8_modifiedUtf8Bytes pre rest c) hc',
      if_neg hc]

/-- A leading surrogate is a character together with the unit after it, when
    that one is a trailing surrogate. -/
theorem isValidPartOfMemberNameUtf8_lead {c : UInt16} (hc : IsLeadSurrogate c)
    (pre rest : List UInt8) :
    isValidPartOfMemberNameUtf8 (pre ++ (modifiedUtf8Bytes c ++ rest)) pre.length =
      let next := getUtf16FromUtf8 (pre ++ (modifiedUtf8Bytes c ++ rest))
        (pre.length + (modifiedUtf8Bytes c).length)
      (decide (IsTrailSurrogate next.1), next.2) := by
  have hlead := toNat_leadByte c rest
  have hc' := hc
  unfold IsLeadSurrogate at hc'
  rw [if_neg (by omega), if_pos (by omega)] at hlead
  unfold isValidPartOfMemberNameUtf8
  dsimp only
  rw [getD_append_zero,
    if_neg (fun hle => by have := (le_0x7f_iff _).mp hle; omega),
    isValidPartOfMemberNameUtf8Slow_of_decode (getUtf16FromUtf8_modifiedUtf8Bytes pre rest c)
      (by omega),
    if_pos hc]

/-- Where the grammar reads a character, IsValidPartOfMemberNameUtf8 accepts
    it and moves past its bytes. -/
theorem isValidPartOfMemberNameUtf8_of_nextChar {c : UInt16} {us r : List UInt16}
    (h : nextChar (c :: us) = some r) (pre tail : List UInt8) :
    ∃ mid : List UInt8,
      pre ++ (convertUtf16ToModifiedUtf8 (c :: us) ++ 0 :: tail) =
        pre ++ mid ++ (convertUtf16ToModifiedUtf8 r ++ 0 :: tail) ∧
      isValidPartOfMemberNameUtf8 (pre ++ (convertUtf16ToModifiedUtf8 (c :: us) ++ 0 :: tail))
        pre.length = (true, (pre ++ mid).length) := by
  rcases nextChar_eq_some h with ⟨hc, rfl⟩ | ⟨hl, d, hd, rfl⟩
  · -- one unit
    refine ⟨modifiedUtf8Bytes c, by rw [convertUtf16ToModifiedUtf8_cons]; simp, ?_⟩
    rw [convertUtf16ToModifiedUtf8_cons, List.append_assoc,
      isValidPartOfMemberNameUtf8_single (not_isLeadSurrogate_of_isSimpleNameUnit hc),
      decide_eq_true hc, List.length_append]
  · -- a surrogate pair: the trailing unit is decoded where the leading one ends
    have hbytes : pre ++ (convertUtf16ToModifiedUtf8 (c :: d :: r) ++ 0 :: tail) =
        pre ++ modifiedUtf8Bytes c ++ (modifiedUtf8Bytes d ++
          (convertUtf16ToModifiedUtf8 r ++ 0 :: tail)) := by
      simp [convertUtf16ToModifiedUtf8_cons]
    refine ⟨modifiedUtf8Bytes c ++ modifiedUtf8Bytes d, by rw [hbytes]; simp, ?_⟩
    have hdec : getUtf16FromUtf8 (pre ++ modifiedUtf8Bytes c ++
        (convertUtf16ToModifiedUtf8 (d :: r) ++ 0 :: tail)) (pre.length + (modifiedUtf8Bytes c).length) =
        (d, (pre ++ (modifiedUtf8Bytes c ++ modifiedUtf8Bytes d)).length) := by
      rw [convertUtf16ToModifiedUtf8_cons, List.append_assoc (modifiedUtf8Bytes d),
        ← List.length_append, getUtf16FromUtf8_modifiedUtf8Bytes]
      simp only [List.length_append, Nat.add_assoc]
    rw [convertUtf16ToModifiedUtf8_cons, List.append_assoc, isValidPartOfMemberNameUtf8_lead hl]
    dsimp only
    rw [← List.append_assoc, hdec, decide_eq_true hd]

/-- Where the grammar reads no character, IsValidPartOfMemberNameUtf8
    refuses. -/
theorem isValidPartOfMemberNameUtf8_of_nextChar_none {c : UInt16} {us : List UInt16}
    (h : nextChar (c :: us) = none) (pre tail : List UInt8) :
    (isValidPartOfMemberNameUtf8 (pre ++ (convertUtf16ToModifiedUtf8 (c :: us) ++ 0 :: tail))
      pre.length).1 = false := by
  rw [convertUtf16ToModifiedUtf8_cons, List.append_assoc]
  by_cases hl : IsLeadSurrogate c
  · rw [isValidPartOfMemberNameUtf8_lead hl]
    dsimp only
    rw [decide_eq_false_iff_not, ← List.append_assoc, ← List.length_append]
    rw [nextChar_cons, if_neg (fun hs => not_isLeadSurrogate_of_isSimpleNameUnit hs hl), if_pos hl]
      at h
    rcases us with _ | ⟨d, r⟩
    · -- the string ends after the leading surrogate: the terminator is read
      rw [getUtf16FromUtf8_of_getD_eq_zero (by rw [getD_append_zero]; rfl)]
      decide
    · -- the next unit is no trailing surrogate
      dsimp only at h
      have hd : ¬ IsTrailSurrogate d := fun hd => by rw [if_pos hd] at h; cases h
      rw [convertUtf16ToModifiedUtf8_cons, List.append_assoc (modifiedUtf8Bytes d),
        getUtf16FromUtf8_modifiedUtf8Bytes]
      exact hd
  · have hs : ¬ IsSimpleNameUnit c := fun hs => by
      rw [nextChar_cons_of_isSimpleNameUnit hs] at h
      cases h
    rw [isValidPartOfMemberNameUtf8_single hl]
    exact decide_eq_false hs

end Part

/-! ### Member names -/

section MemberName

/-- The loop of IsValidMemberName, at the start of the units `us`, accepts
    exactly a sequence of characters and what ends the name: the terminator,
    or `>` and the terminator in an angle-bracketed name. -/
theorem isValidMemberNameLoop_iff (angle_name : Bool) (us : List UInt16) (pre tail : List UInt8) :
    isValidMemberNameLoop (pre ++ (convertUtf16ToModifiedUtf8 us ++ 0 :: tail)) angle_name
        pre.length = true ↔
      SeqThen (if angle_name then [unit '>'] else []) us := by
  -- strong induction on the units left, as a character takes one or two
  induction hn : us.length using Nat.strong_induction_on generalizing us pre with
  | _ n ih =>
  rw [isValidMemberNameLoop, getD_encoded]
  rcases us with _ | ⟨c, us⟩
  · -- the terminator
    rw [if_pos ((getD_encoded_eq_zero_iff [] tail).mpr rfl), seqThen_nil_iff]
    cases angle_name <;> simp
  rw [if_neg ((getD_encoded_eq_zero_iff _ _).not.mpr (List.cons_ne_nil c us)), seqThen_cons_iff]
  by_cases hgt : c = unit '>'
  · -- `>` ends an angle-bracketed name, right before the terminator
    subst hgt
    rw [if_pos ((getD_encoded_cons_eq_char_iff _ _ _ (by decide) (by decide)).mpr rfl),
      nextChar_eq_none_of_not (by decide) (by decide)]
    have hend := getD_after_ascii_eq_zero_iff (c := unit '>') (by decide) pre tail us
    cases angle_name
    · simp
    · rw [Bool.true_and, beq_iff_eq, hend]
      simp
  · -- a character, or none
    have ht : (if angle_name then [unit '>'] else []) ≠ c :: us := by
      cases angle_name <;> simp [Ne.symm hgt]
    rw [if_neg (mt (getD_encoded_cons_eq_char_iff _ _ _ (by decide) (by decide)).mp hgt)]
    cases hnext : nextChar (c :: us) with
    | none =>
      rw [if_neg (by rw [isValidPartOfMemberNameUtf8_of_nextChar_none hnext]; exact Bool.false_ne_true)]
      simp [ht]
    | some r =>
      obtain ⟨mid, hB, hpart⟩ := isValidPartOfMemberNameUtf8_of_nextChar hnext pre tail
      rw [hpart, if_pos rfl]
      dsimp only
      rw [hB, ih r.length (hn ▸ length_lt_of_nextChar hnext) r (pre ++ mid) rfl]
      simp [ht]

/-- IsValidMemberName on a string that `CheckIntraStringDataItem` accepts:
    a member name, or `<>`. -/
theorem isValidMemberName_iff (u : List UInt16) :
    isValidMemberName (convertUtf16ToModifiedUtf8 u ++ [0]) = true ↔
      IsMemberName u ∨ u = [unit '<', unit '>'] := by
  unfold isValidMemberName
  rcases u with _ | ⟨c, us⟩
  · -- the empty string
    rw [if_pos ((getD_encoded_eq_zero_iff [] []).mpr rfl)]
    simp [IsMemberName, SimpleName]
  have hne := (getD_encoded_eq_zero_iff (c :: us) []).not.mpr (List.cons_ne_nil c us)
  rw [if_neg hne]
  by_cases hlt : c = unit '<'
  · -- an angle-bracketed name: the loop starts after the `<`
    subst hlt
    have hB := encoded_unit_cons (x := '<') (by decide) (by decide) [] [] us
    rw [List.nil_append, List.nil_append] at hB
    have hloop := isValidMemberNameLoop_iff true us ['<'.toUInt8] []
    rw [← hB, List.length_singleton, if_pos rfl] at hloop
    rw [if_pos ((getD_encoded_cons_eq_char_iff _ _ _ (by decide) (by decide)).mpr rfl), hloop,
      isMemberName_angle_iff]
  · have hloop := isValidMemberNameLoop_iff false (c :: us) [] []
    rw [List.nil_append, List.length_nil, if_neg Bool.false_ne_true] at hloop
    rw [if_neg (mt (getD_encoded_cons_eq_char_iff _ _ _ (by decide) (by decide)).mp hlt), hloop,
      isMemberName_iff_of_ne hlt]

end MemberName

/-! ### Class names -/

section ClassName

/-- What ends the class name of a name, or of a descriptor. -/
def ClassNameType.terminator : ClassNameType → List UInt16
  | .kName => []
  | .kDescriptor => [unit ';']

variable {sepc : Char}

theorem nextChar_separator (hsepc : sepc = '.' ∨ sepc = '/') (us : List UInt16) :
    nextChar (unit sepc :: us) = none := by
  rcases hsepc with rfl | rfl
  all_goals exact nextChar_eq_none_of_not (by decide) (by decide) us

theorem separator_ascii (hsepc : sepc = '.' ∨ sepc = '/') : 0 < sepc.toNat ∧ sepc.toNat < 0x80 := by
  rcases hsepc with rfl | rfl
  all_goals decide

/-- The loop of IsValidClassName, at the start of the units `us`, accepts
    exactly a class name and what ends it, after a separator or at the start
    (`sepOrFirst`), and the rest of a class name and what ends it inside a
    component. -/
theorem isValidClassNameLoop_iff (hsepc : sepc = '.' ∨ sepc = '/') (type : ClassNameType)
    (us : List UInt16) (pre tail : List UInt8) :
    (isValidClassNameLoop (pre ++ (convertUtf16ToModifiedUtf8 us ++ 0 :: tail)) type sepc.toUInt8
        true pre.length = true ↔ ClassNameThen (unit sepc) type.terminator us) ∧
      (isValidClassNameLoop (pre ++ (convertUtf16ToModifiedUtf8 us ++ 0 :: tail)) type sepc.toUInt8
        false pre.length = true ↔ ClassTailThen (unit sepc) type.terminator us) := by
  have hsep := separator_ascii hsepc
  have hne : unit ';' ≠ unit sepc := by rcases hsepc with rfl | rfl <;> decide
  have ht : ∀ x ∈ type.terminator.head?, x ≠ unit sepc := by
    cases type <;> simp [ClassNameType.terminator, hne]
  -- strong induction on the units left, as a character takes one or two
  induction hn : us.length using Nat.strong_induction_on generalizing us pre with
  | _ n ih =>
  rw [isValidClassNameLoop.eq_1 _ _ _ true pre.length,
    isValidClassNameLoop.eq_1 _ _ _ false pre.length, getD_encoded]
  rcases us with _ | ⟨c, us⟩
  · -- the terminator: the end of a class name, not of a descriptor
    have h0 := (getD_encoded_eq_zero_iff [] tail).mpr rfl
    rw [if_pos h0, if_pos h0, classTailThen_nil_iff]
    cases type <;> simp [ClassNameType.terminator, not_classNameThen_nil]
  have hc0 := (getD_encoded_eq_zero_iff _ tail).not.mpr (List.cons_ne_nil c us)
  rw [if_neg hc0, if_neg hc0]
  by_cases hsc : c = unit ';'
  · -- `;` ends a descriptor, right before the terminator
    subst hsc
    have hend := getD_after_ascii_eq_zero_iff (c := unit ';') (by decide) pre tail us
    have hnone : nextChar (unit ';' :: us) = none := nextChar_eq_none_of_not (by decide) (by decide) us
    rw [if_pos ((getD_encoded_cons_eq_char_iff _ _ _ (by decide) (by decide)).mpr rfl),
      if_pos ((getD_encoded_cons_eq_char_iff _ _ _ (by decide) (by decide)).mpr rfl),
      classTailThen_cons_iff hne, hnone]
    refine ⟨by simp [not_classNameThen_of_nextChar hnone], ?_⟩
    cases type
    · simp [ClassNameType.terminator]
    · rw [Bool.and_eq_true, beq_iff_eq, hend]
      simp [ClassNameType.terminator]
  rw [if_neg (mt (getD_encoded_cons_eq_char_iff _ _ _ (by decide) (by decide)).mp hsc),
    if_neg (mt (getD_encoded_cons_eq_char_iff _ _ _ (by decide) (by decide)).mp hsc)]
  have ht' : type.terminator ≠ c :: us := by
    cases type <;> simp [ClassNameType.terminator, Ne.symm hsc]
  by_cases hsl : c = unit '/' ∨ c = unit '.'
  · -- a separator
    have hsl' : (convertUtf16ToModifiedUtf8 (c :: us) ++ 0 :: tail).getD 0 0 = '/'.toUInt8 ∨
        (convertUtf16ToModifiedUtf8 (c :: us) ++ 0 :: tail).getD 0 0 = '.'.toUInt8 := by
      rcases hsl with h | h
      · exact Or.inl ((getD_encoded_cons_eq_char_iff _ _ _ (by decide) (by decide)).mpr h)
      · exact Or.inr ((getD_encoded_cons_eq_char_iff _ _ _ (by decide) (by decide)).mpr h)
    have hnone : nextChar (c :: us) = none := by
      rcases hsl with rfl | rfl
      all_goals exact nextChar_eq_none_of_not (by decide) (by decide) us
    rw [if_pos hsl', if_pos hsl']
    by_cases hcs : c = unit sepc
    · -- the right one: a component ends, and another must begin
      subst hcs
      have hsame := not_not.mpr ((getD_encoded_cons_eq_char_iff _ us tail hsep.1 hsep.2).mpr rfl)
      rw [if_neg hsame, if_neg hsame, if_pos rfl, if_neg Bool.false_ne_true,
        encoded_unit_cons hsep.1 hsep.2,
        ← List.length_singleton (a := sepc.toUInt8), ← List.length_append,
        (ih us.length (by rw [← hn]; exact Nat.lt_succ_self _) us (pre ++ [sepc.toUInt8]) rfl).1,
        classTailThen_sep_iff (nextChar_separator hsepc) ht]
      exact ⟨by simp [not_classNameThen_of_nextChar hnone], Iff.rfl⟩
    · -- the wrong one
      have hother := mt (getD_encoded_cons_eq_char_iff _ us tail hsep.1 hsep.2).mp hcs
      rw [if_pos hother, if_pos hother]
      exact ⟨by simp [not_classNameThen_of_nextChar hnone],
        by simp [not_classTailThen_of_nextChar hcs ht' hnone]⟩
  -- a character, or none
  have hsl' : ¬ ((convertUtf16ToModifiedUtf8 (c :: us) ++ 0 :: tail).getD 0 0 = '/'.toUInt8 ∨
      (convertUtf16ToModifiedUtf8 (c :: us) ++ 0 :: tail).getD 0 0 = '.'.toUInt8) := by
    rw [getD_encoded_cons_eq_char_iff _ _ _ (by decide) (by decide),
      getD_encoded_cons_eq_char_iff _ _ _ (by decide) (by decide)]
    exact hsl
  have hcs : c ≠ unit sepc := by
    rcases hsepc with rfl | rfl
    · exact fun h => hsl (Or.inr h)
    · exact fun h => hsl (Or.inl h)
  rw [if_neg hsl', if_neg hsl', classNameThen_cons_iff, classTailThen_cons_iff hcs]
  cases hnext : nextChar (c :: us) with
  | none =>
    rw [if_neg (by rw [isValidPartOfMemberNameUtf8_of_nextChar_none hnext]; exact Bool.false_ne_true)]
    simp [ht']
  | some r =>
    obtain ⟨mid, hB, hpart⟩ := isValidPartOfMemberNameUtf8_of_nextChar hnext pre tail
    rw [hpart, if_pos rfl]
    dsimp only
    rw [hB, (ih r.length (hn ▸ length_lt_of_nextChar hnext) r (pre ++ mid) rfl).2]
    simp [ht']

end ClassName

/-! ### Descriptors and class names -/

section Descriptor

variable {sepc : Char}

/-- The switch of IsValidClassName on a descriptor, after its `[`s: a
    primitive type, `V` outside an array, or `L`, a class name and `;`. -/
theorem isValidClassNameFrom_kDescriptor_iff (hsepc : sepc = '.' ∨ sepc = '/') (arrayCount : Nat)
    (v : List UInt16) (pre tail : List UInt8) :
    isValidClassNameFrom (pre ++ (convertUtf16ToModifiedUtf8 v ++ 0 :: tail)) .kDescriptor
        sepc.toUInt8 arrayCount pre.length = true ↔
      (arrayCount = 0 ∧ v = [unit 'V']) ∨ FieldTypeUnits (unit sepc) v := by
  unfold isValidClassNameFrom
  dsimp only
  rw [getD_encoded]
  rcases v with _ | ⟨c, w⟩
  · -- the string ends where a type should begin
    rw [(getD_encoded_eq_zero_iff [] tail).mpr rfl]
    simp +decide [not_fieldTypeUnits_nil]
  simp (disch := decide) only [getD_encoded_cons_eq_char_iff]
  rw [fieldTypeUnits_cons_iff, mem_primitives_iff]
  by_cases hp : c = unit 'B' ∨ c = unit 'C' ∨ c = unit 'D' ∨ c = unit 'F' ∨ c = unit 'I' ∨
      c = unit 'J' ∨ c = unit 'S' ∨ c = unit 'Z'
  · -- a primitive type, then the terminator
    have hletter : (0 < c.toNat ∧ c.toNat ≤ 0x7f) ∧ c ≠ unit 'V' ∧ c ≠ unit 'L' := by
      rcases hp with rfl | rfl | rfl | rfl | rfl | rfl | rfl | rfl
      all_goals decide
    rcases hletter with ⟨hasc, hV, hL⟩
    rw [if_pos hp, beq_iff_eq, getD_after_ascii_eq_zero_iff hasc]
    simp [hV, hL, hp]
  rw [if_neg hp]
  by_cases hV : c = unit 'V'
  · -- `V`, only outside an array
    subst hV
    rw [if_pos rfl, Bool.and_eq_true, beq_iff_eq, beq_iff_eq,
      getD_after_ascii_eq_zero_iff (by decide)]
    simp [hp, show unit 'V' ≠ unit 'L' by decide]
  rw [if_neg hV]
  by_cases hL : c = unit 'L'
  · -- `L`: a class name up to `;`
    subst hL
    rw [if_pos rfl, encoded_unit_cons (by decide) (by decide),
      ← List.length_singleton (a := 'L'.toUInt8), ← List.length_append,
      (isValidClassNameLoop_iff hsepc .kDescriptor w _ tail).1]
    simp [hp, hV, ClassNameType.terminator]
  · rw [if_neg hL]
    simp [hp, hV, hL]

theorem convertUtf16ToModifiedUtf8_replicate (k : Nat) (x : Char) (h0 : 0 < x.toNat)
    (h : x.toNat < 0x80) :
    convertUtf16ToModifiedUtf8 (List.replicate k (unit x)) = List.replicate k x.toUInt8 := by
  induction k with
  | zero => rfl
  | succ k ih =>
    rw [List.replicate_succ, convertUtf16ToModifiedUtf8_cons, modifiedUtf8Bytes_unit h0 h, ih]
    rfl

/-- The count of `[`s IsValidClassName makes is the grammar's. -/
theorem arrayCountOf_encoded (k : Nat) {v : List UInt16} (hv : v.head? ≠ some (unit '['))
    (tail : List UInt8) :
    arrayCountOf (List.replicate k '['.toUInt8 ++ (convertUtf16ToModifiedUtf8 v ++ 0 :: tail)) = k := by
  induction k with
  | zero =>
    rw [List.replicate_zero, List.nil_append]
    rcases v with _ | ⟨c, w⟩
    · rfl
    · have hc : c ≠ unit '[' := fun h => hv (by rw [h]; rfl)
      rw [convertUtf16ToModifiedUtf8_cons, List.append_assoc]
      rcases hb : modifiedUtf8Bytes c ++ (convertUtf16ToModifiedUtf8 w ++ 0 :: tail) with _ | ⟨b, bs⟩
      · exact absurd hb (by simp [modifiedUtf8Bytes])
      · have hlead := (leadByte_eq_char_iff c (convertUtf16ToModifiedUtf8 w ++ 0 :: tail)
          (x := '[') (by decide) (by decide)).not.mpr hc
        rw [hb, List.getD_cons_zero] at hlead
        rw [arrayCountOf, if_neg hlead]
  | succ k ih =>
    rw [List.replicate_succ, List.cons_append, arrayCountOf, if_pos rfl, ih]

/-- IsValidClassName on the encoding of `k` `[`s and the units `v`: too many
    dimensions, or the rest of the check at the first unit of `v`. -/
theorem isValidClassName_encoded (type : ClassNameType) (separator : UInt8) (k : Nat)
    {v : List UInt16} (hv : v.head? ≠ some (unit '[')) :
    isValidClassName (convertUtf16ToModifiedUtf8 (List.replicate k (unit '[') ++ v) ++ [0]) type
        separator =
      if k > 255 then false
      else isValidClassNameFrom (List.replicate k '['.toUInt8 ++ (convertUtf16ToModifiedUtf8 v ++ [0]))
        (if k ≠ 0 then .kDescriptor else type) separator k (List.replicate k '['.toUInt8).length := by
  have hB : convertUtf16ToModifiedUtf8 (List.replicate k (unit '[') ++ v) ++ [0] =
      List.replicate k '['.toUInt8 ++ (convertUtf16ToModifiedUtf8 v ++ [0]) := by
    rw [convertUtf16ToModifiedUtf8, List.flatMap_append, ← convertUtf16ToModifiedUtf8,
      ← convertUtf16ToModifiedUtf8, convertUtf16ToModifiedUtf8_replicate k '[' (by decide) (by decide),
      List.append_assoc]
  unfold isValidClassName
  dsimp only
  rw [hB, arrayCountOf_encoded k hv, List.length_replicate]

/-- IsValidClassName with `kDescriptor`: `V`, or at most 255 `[`s and a
    descriptor. -/
theorem isValidClassName_kDescriptor_iff (hsepc : sepc = '.' ∨ sepc = '/') (k : Nat)
    {v : List UInt16} (hv : v.head? ≠ some (unit '[')) :
    isValidClassName (convertUtf16ToModifiedUtf8 (List.replicate k (unit '[') ++ v) ++ [0])
        .kDescriptor sepc.toUInt8 = true ↔
      (k = 0 ∧ v = [unit 'V']) ∨ (k ≤ 255 ∧ FieldTypeUnits (unit sepc) v) := by
  rw [isValidClassName_encoded .kDescriptor _ k hv]
  by_cases hk : k > 255
  · rw [if_pos hk]
    simp only [Bool.false_eq_true, false_iff, not_or, not_and]
    exact ⟨fun h => by omega, fun h => by omega⟩
  · rw [if_neg hk, ite_self, isValidClassNameFrom_kDescriptor_iff hsepc]
    have hk' : k ≤ 255 := by omega
    simp [hk']

/-- IsValidClassName with `kName`: a class name, or one to 255 `[`s and a
    descriptor. -/
theorem isValidClassName_kName_iff (hsepc : sepc = '.' ∨ sepc = '/') (k : Nat)
    {v : List UInt16} (hv : v.head? ≠ some (unit '[')) :
    isValidClassName (convertUtf16ToModifiedUtf8 (List.replicate k (unit '[') ++ v) ++ [0])
        .kName sepc.toUInt8 = true ↔
      (k = 0 ∧ ClassNameUnits (unit sepc) v) ∨ (1 ≤ k ∧ k ≤ 255 ∧ FieldTypeUnits (unit sepc) v) := by
  rw [isValidClassName_encoded .kName _ k hv]
  by_cases hk : k > 255
  · rw [if_pos hk]
    simp only [Bool.false_eq_true, false_iff, not_or, not_and]
    exact ⟨fun h => by omega, fun _ h => by omega⟩
  rw [if_neg hk]
  by_cases hk0 : k = 0
  · -- no `[`: a class name
    subst hk0
    rw [if_neg (not_not.mpr rfl)]
    show isValidClassNameLoop _ _ _ _ _ = true ↔ _
    rw [(isValidClassNameLoop_iff hsepc .kName v _ []).1, ClassNameType.terminator,
      classNameThen_nil_iff]
    simp
  · -- an array, checked as a descriptor
    rw [if_pos hk0, isValidClassNameFrom_kDescriptor_iff hsepc]
    have h1 : 1 ≤ k := by omega
    have hk' : k ≤ 255 := by omega
    simp [hk0, h1, hk']

end Descriptor

/-! ### The four checks -/

section Checks

theorem isValidDescriptor_iff (u : List UInt16) :
    isValidDescriptor (convertUtf16ToModifiedUtf8 u ++ [0]) = true ↔ IsDescriptor u := by
  rcases exists_replicate_append (unit '[') u with ⟨k, v, rfl, hv⟩
  rw [isValidDescriptor, isValidClassName_kDescriptor_iff (Or.inr rfl) k hv,
    isDescriptor_replicate_iff hv]

theorem isValidBinaryClassName_iff (u : List UInt16) :
    isValidBinaryClassName (convertUtf16ToModifiedUtf8 u ++ [0]) = true ↔ IsBinaryClassName u := by
  rcases exists_replicate_append (unit '[') u with ⟨k, v, rfl, hv⟩
  rw [isValidBinaryClassName, isValidClassName_kName_iff (Or.inl rfl) k hv, IsBinaryClassName,
    classNameUnits_replicate_iff, isArrayDescriptor_replicate_iff hv]

theorem isValidJniClassName_iff (u : List UInt16) :
    isValidJniClassName (convertUtf16ToModifiedUtf8 u ++ [0]) = true ↔ IsJniClassName u := by
  rcases exists_replicate_append (unit '[') u with ⟨k, v, rfl, hv⟩
  rw [isValidJniClassName, isValidClassName_kName_iff (Or.inr rfl) k hv, IsJniClassName,
    classNameUnits_replicate_iff, isArrayDescriptor_replicate_iff hv]

/-- IsValidMemberName accepts `<>`, which is no member name: the `>` right
    after the `<` ends the name before it has a character. -/
theorem isValidMemberName_accepts_empty_angle :
    isValidMemberName (convertUtf16ToModifiedUtf8 [unit '<', unit '>'] ++ [0]) = true ∧
      ¬ IsMemberName [unit '<', unit '>'] := by
  refine ⟨(isValidMemberName_iff _).mpr (Or.inr rfl), ?_⟩
  rintro (hs | ⟨n, hn, heq⟩)
  · exact not_simpleNameSeq_cons (nextChar_eq_none_of_not (by decide) (by decide) _) hs.2
  · -- the name between the brackets would be empty
    have hn' : n ++ [unit '>'] = [] ++ [unit '>'] := (List.cons.inj heq).2.symm
    exact hn.1 (List.append_cancel_right hn')

/-- The four checks on a string `CheckIntraStringDataItem` accepts, the
    encoding of units `u` and a 0: the descriptor and class-name checks
    accept exactly the grammar, the member-name check the grammar and `<>`. -/
theorem name_checks_match_grammar (u : List UInt16) :
    (isValidMemberName (convertUtf16ToModifiedUtf8 u ++ [0]) = true ↔
        IsMemberName u ∨ u = [unit '<', unit '>']) ∧
      (isValidDescriptor (convertUtf16ToModifiedUtf8 u ++ [0]) = true ↔ IsDescriptor u) ∧
      (isValidBinaryClassName (convertUtf16ToModifiedUtf8 u ++ [0]) = true ↔ IsBinaryClassName u) ∧
      (isValidJniClassName (convertUtf16ToModifiedUtf8 u ++ [0]) = true ↔ IsJniClassName u) :=
  ⟨isValidMemberName_iff u, isValidDescriptor_iff u, isValidBinaryClassName_iff u,
    isValidJniClassName_iff u⟩

/-- A constructor's name, `<init>`, passes the member-name check. -/
theorem name_checks_match_grammar_init :
    isValidMemberName (convertUtf16ToModifiedUtf8
      [unit '<', unit 'i', unit 'n', unit 'i', unit 't', unit '>'] ++ [0]) = true :=
  (name_checks_match_grammar _).1.mpr (Or.inl (Or.inr ⟨[unit 'i', unit 'n', unit 'i', unit 't'],
    ⟨List.cons_ne_nil _ _, .unit (by decide) (.unit (by decide) (.unit (by decide)
      (.unit (by decide) .nil)))⟩, rfl⟩))

end Checks

end Names

end ArtRuntime
