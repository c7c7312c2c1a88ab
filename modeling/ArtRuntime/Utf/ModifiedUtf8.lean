import Mathlib.Data.List.GetD
import Mathlib.Data.List.Lex
import ArtRuntime.Core.Word

/-!
# Modified UTF-8

Strings in a dex file and descriptors in the runtime are modified UTF-8
(utf.cc): each UTF-16 code unit is one byte (1 to 0x7f), two bytes (0 and 0x80
to 0x7ff) or three bytes, and the string ends at a 0 byte. `GetUtf16FromUtf8`
decodes one code unit from its lead byte alone: a clear top bit is one byte,
a clear 0x20 bit two bytes, otherwise three. It checks nothing, so it reads a
terminator as a continuation byte when a string ends inside a code unit.

A string is the memory from a pointer: here the bytes of a list and a
position in it. Bytes past the end of the list read as 0, so every loop ends.

`CompareModifiedUtf8ToModifiedUtf8AsUtf16CodePointValues` walks two strings
with the same decoder and the same end test as
`ConvertModifiedUtf8ToUtf16`. It therefore compares the two decoded
sequences in the lexicographic order, a shorter prefix first, whatever the
bytes are: well-formed or not, it agrees with the decoder.
`CompareModifiedUtf8ToUtf16AsCodePointValues`, which compares with a UTF-16
string, reads `*utf8_2` in every round and never advances it, so it compares
each code unit of the first string with the first of the second, and never
answers equal to a non-empty string.

`CountUtf8Bytes` and `CountModifiedUtf8Chars` classify code units by their
own tests; they agree with the encoder and the decoder at every boundary.

## Main definitions

* `getUtf16FromUtf8`: One code unit and the position after it.
* `convertModifiedUtf8ToUtf16`: The code units of a string.
* `codeUnits`: Those code units as numbers, in the lexicographic order.
* `compareModifiedUtf8ToModifiedUtf8AsUtf16CodePointValues`: The comparison.
* `compareModifiedUtf8ToUtf16AsCodePointValues`: The comparison with a
  UTF-16 string.
* `modifiedUtf8Bytes`, `convertUtf16ToModifiedUtf8`: The encoder.
* `countUtf8Bytes`, `countModifiedUtf8Chars`: The two counts.

## Theorems

* `compare_eq_lexSign`: The comparison is the sign of the lexicographic
  comparison of the two decoded sequences.
* `compare_pos_iff`, `compare_neg_iff`: Its positive and negative
  outcomes.
* `getUtf16FromUtf8_modifiedUtf8Bytes`: The decoder reads back the code unit
  whose bytes the encoder wrote.
* `convertModifiedUtf8ToUtf16_encoded`: Decoding an encoded sequence and its
  terminator gives the sequence back.
* `countModifiedUtf8Chars_eq`: The character count is the number of code
  units the decoder reads, for any bytes.
* `modifiedUtf8_round_trip`: The encoding of any sequence has the length
  `CountUtf8Bytes` gives and no 0 byte, and counting and decoding it read the
  sequence back, ending at the terminator.
* `compare_utf16_breaks_code_unit_order`: The comparison of two encodings is
  the code-unit order, the comparison with a UTF-16 string is not.
* `modifiedUtf8Bytes_toUInt16`, `modifiedUtf8Bytes_two_byte`,
  `modifiedUtf8Bytes_three_byte`: A well-formed code unit of one, two or three
  bytes is the encoding of the value it carries.
-/

namespace ArtRuntime

namespace Utf

/-- GetUtf16FromUtf8: the code unit whose encoding starts at `p`, and the
    position after it. -/
def getUtf16FromUtf8 (utf8_data_in : List UInt8) (p : Nat) : UInt16 × Nat :=
  let one := utf8_data_in.getD p 0
  if one &&& 0x80 = 0 then
    -- one-byte encoding
    (one.toUInt16, p + 1)
  else
    let two := utf8_data_in.getD (p + 1) 0
    if one &&& 0x20 = 0 then
      -- two-byte encoding
      (((one &&& 0x1f).toUInt16 <<< 6) ||| (two &&& 0x3f).toUInt16, p + 2)
    else
      -- three-byte encoding
      let three := utf8_data_in.getD (p + 2) 0
      (((one &&& 0x0f).toUInt16 <<< 12) ||| ((two &&& 0x3f).toUInt16 <<< 6) |||
        (three &&& 0x3f).toUInt16, p + 3)

theorem lt_getUtf16FromUtf8 (utf8_data_in : List UInt8) (p : Nat) :
    p < (getUtf16FromUtf8 utf8_data_in p).2 := by
  dsimp only [getUtf16FromUtf8]
  split
  · exact Nat.lt_succ_self p
  · split
    · omega
    · omega

theorem lt_length_of_getD_ne_zero {utf8 : List UInt8} {p : Nat} (h : ¬ utf8.getD p 0 = 0) :
    p < utf8.length := by
  by_contra hp
  exact h (List.getD_eq_default _ _ (by omega))

/-- ConvertModifiedUtf8ToUtf16: the code units up to the first 0 byte found
    where a code unit starts. -/
def convertModifiedUtf8ToUtf16 (utf8_data_in : List UInt8) (p : Nat) : List UInt16 :=
  if utf8_data_in.getD p 0 = 0 then []
  else
    (getUtf16FromUtf8 utf8_data_in p).1 ::
      convertModifiedUtf8ToUtf16 utf8_data_in (getUtf16FromUtf8 utf8_data_in p).2
termination_by utf8_data_in.length - p
decreasing_by
  have hp := lt_getUtf16FromUtf8 utf8_data_in p
  have hlen := lt_length_of_getD_ne_zero ‹_›
  omega

theorem convertModifiedUtf8ToUtf16_of_zero {utf8 : List UInt8} {p : Nat} (h : utf8.getD p 0 = 0) :
    convertModifiedUtf8ToUtf16 utf8 p = [] := by
  rw [convertModifiedUtf8ToUtf16, if_pos h]

theorem convertModifiedUtf8ToUtf16_of_ne_zero {utf8 : List UInt8} {p : Nat}
    (h : ¬ utf8.getD p 0 = 0) :
    convertModifiedUtf8ToUtf16 utf8 p = (getUtf16FromUtf8 utf8 p).1 ::
      convertModifiedUtf8ToUtf16 utf8 (getUtf16FromUtf8 utf8 p).2 := by
  rw [convertModifiedUtf8ToUtf16, if_neg h]

/-- CountModifiedUtf8Chars: the code units of the string at `p`, added to
    `len`. It steps over each code unit by the bits of its lead byte, without
    decoding it. -/
def countModifiedUtf8Chars (utf8 : List UInt8) (p len : Nat) : Nat :=
  if utf8.getD p 0 = 0 then len
  else if utf8.getD p 0 &&& 0x80 = 0 then
    -- one-byte encoding
    countModifiedUtf8Chars utf8 (p + 1) (len + 1)
  else if utf8.getD p 0 &&& 0x20 = 0 then
    -- two-byte encoding
    countModifiedUtf8Chars utf8 (p + 2) (len + 1)
  else
    -- three-byte encoding
    countModifiedUtf8Chars utf8 (p + 3) (len + 1)
termination_by utf8.length - p
decreasing_by
  all_goals
    have hlen := lt_length_of_getD_ne_zero ‹¬ utf8.getD p 0 = 0›
    omega

/-- The code units of the string at `p`, as numbers. -/
def codeUnits (utf8 : List UInt8) (p : Nat) : List Nat :=
  (convertModifiedUtf8ToUtf16 utf8 p).map UInt16.toNat

theorem codeUnits_of_zero {utf8 : List UInt8} {p : Nat} (h : utf8.getD p 0 = 0) :
    codeUnits utf8 p = [] := by
  rw [codeUnits, convertModifiedUtf8ToUtf16, if_pos h, List.map_nil]

theorem codeUnits_of_ne_zero {utf8 : List UInt8} {p : Nat} (h : ¬ utf8.getD p 0 = 0) :
    codeUnits utf8 p = (getUtf16FromUtf8 utf8 p).1.toNat ::
      codeUnits utf8 (getUtf16FromUtf8 utf8 p).2 := by
  rw [codeUnits, convertModifiedUtf8ToUtf16, if_neg h, List.map_cons, codeUnits]

/-- CompareModifiedUtf8ToModifiedUtf8AsUtf16CodePointValues. -/
def compareModifiedUtf8ToModifiedUtf8AsUtf16CodePointValues (utf8_1 : List UInt8) (p1 : Nat)
    (utf8_2 : List UInt8) (p2 : Nat) : Int :=
  if utf8_1.getD p1 0 = 0 then
    if utf8_2.getD p2 0 = 0 then 0 else -1
  else if utf8_2.getD p2 0 = 0 then 1
  else
    let c1 := getUtf16FromUtf8 utf8_1 p1
    let c2 := getUtf16FromUtf8 utf8_2 p2
    if c1.1 ≠ c2.1 then
      if c1.1 > c2.1 then 1 else -1
    else compareModifiedUtf8ToModifiedUtf8AsUtf16CodePointValues utf8_1 c1.2 utf8_2 c2.2
termination_by utf8_1.length - p1
decreasing_by
  have hp := lt_getUtf16FromUtf8 utf8_1 p1
  have hlen := lt_length_of_getD_ne_zero ‹¬ utf8_1.getD p1 0 = 0›
  omega

/-- CompareModifiedUtf8ToUtf16AsCodePointValues. `utf8_2` is the memory from
    the second pointer: the loop reads it as `*utf8_2` and never advances it,
    so every code unit of the first string meets the first of the second. -/
def compareModifiedUtf8ToUtf16AsCodePointValues (utf8_1 : List UInt8) (p1 : Nat)
    (utf8_2 : List UInt16) : Int :=
  if utf8_1.getD p1 0 = 0 then
    if utf8_2.getD 0 0 = 0 then 0 else -1
  else if utf8_2.getD 0 0 = 0 then 1
  else
    let c1 := getUtf16FromUtf8 utf8_1 p1
    let c2 := utf8_2.getD 0 0
    if c1.1 ≠ c2 then
      if c1.1 > c2 then 1 else -1
    else compareModifiedUtf8ToUtf16AsCodePointValues utf8_1 c1.2 utf8_2
termination_by utf8_1.length - p1
decreasing_by
  have hp := lt_getUtf16FromUtf8 utf8_1 p1
  have hlen := lt_length_of_getD_ne_zero ‹¬ utf8_1.getD p1 0 = 0›
  omega

/-- Against a string that does not start with its terminator, the comparison
    never answers equal: it runs until the first string ends or differs from
    the second's first code unit. -/
theorem compareModifiedUtf8ToUtf16_ne_zero (utf8_1 : List UInt8) (p1 : Nat)
    {utf8_2 : List UInt16} (h2 : utf8_2.getD 0 0 ≠ 0) :
    compareModifiedUtf8ToUtf16AsCodePointValues utf8_1 p1 utf8_2 ≠ 0 := by
  induction p1 using compareModifiedUtf8ToUtf16AsCodePointValues.induct utf8_1 utf8_2 with
  | case1 p1 h1 h2' => exact absurd h2' h2
  | case2 p1 h1 _ =>
    rw [compareModifiedUtf8ToUtf16AsCodePointValues, if_pos h1, if_neg h2]
    decide
  | case3 p1 h1 h2' => exact absurd h2' h2
  | case4 p1 h1 _ c1 c2 hne hgt =>
    rw [compareModifiedUtf8ToUtf16AsCodePointValues, if_neg h1, if_neg h2, if_pos hne, if_pos hgt]
    decide
  | case5 p1 h1 _ c1 c2 hne hgt =>
    rw [compareModifiedUtf8ToUtf16AsCodePointValues, if_neg h1, if_neg h2, if_pos hne, if_neg hgt]
    decide
  | case6 p1 h1 _ c1 c2 heq ih =>
    rw [compareModifiedUtf8ToUtf16AsCodePointValues, if_neg h1, if_neg h2, if_neg heq]
    exact ih

/-- The sign of the lexicographic comparison of two sequences. -/
def lexSign (l m : List Nat) : Int :=
  if l < m then -1 else if m < l then 1 else 0

theorem lexSign_cons_cons (a : Nat) (l m : List Nat) : lexSign (a :: l) (a :: m) = lexSign l m := by
  simp only [lexSign, List.cons_lt_cons_iff, lt_irrefl a, true_and, false_or]

theorem lexSign_cons_of_ne {a b : Nat} (h : a ≠ b) (l m : List Nat) :
    lexSign (a :: l) (b :: m) = if a > b then 1 else -1 := by
  simp only [lexSign, List.cons_lt_cons_iff, h, h.symm, false_and, or_false]
  by_cases hab : a < b
  · rw [if_pos hab, if_neg (by omega)]
  · rw [if_neg hab, if_pos (by omega), if_pos (by omega)]

/-- The comparison walks both strings with the decoder, so it compares their
    decoded sequences. -/
theorem compare_eq_lexSign (utf8_1 : List UInt8) (p1 : Nat) (utf8_2 : List UInt8) (p2 : Nat) :
    compareModifiedUtf8ToModifiedUtf8AsUtf16CodePointValues utf8_1 p1 utf8_2 p2 =
      lexSign (codeUnits utf8_1 p1) (codeUnits utf8_2 p2) := by
  induction p1, p2 using compareModifiedUtf8ToModifiedUtf8AsUtf16CodePointValues.induct
    utf8_1 utf8_2 with
  | case1 p1 p2 h1 h2 =>
    -- both strings end here
    rw [compareModifiedUtf8ToModifiedUtf8AsUtf16CodePointValues, if_pos h1, if_pos h2,
      codeUnits_of_zero h1, codeUnits_of_zero h2]
    rfl
  | case2 p1 p2 h1 h2 =>
    rw [compareModifiedUtf8ToModifiedUtf8AsUtf16CodePointValues, if_pos h1, if_neg h2,
      codeUnits_of_zero h1, codeUnits_of_ne_zero h2]
    simp only [lexSign, List.nil_lt_cons, if_true]
  | case3 p1 p2 h1 h2 =>
    rw [compareModifiedUtf8ToModifiedUtf8AsUtf16CodePointValues, if_neg h1, if_pos h2,
      codeUnits_of_ne_zero h1, codeUnits_of_zero h2]
    simp only [lexSign, List.not_lt_nil, List.nil_lt_cons, if_true, if_false]
  | case4 p1 p2 h1 h2 c1 c2 hne hgt =>
    -- the first code units differ, the first string's is larger
    rw [compareModifiedUtf8ToModifiedUtf8AsUtf16CodePointValues, if_neg h1, if_neg h2,
      if_pos hne, if_pos hgt, codeUnits_of_ne_zero h1, codeUnits_of_ne_zero h2,
      lexSign_cons_of_ne (fun h => hne (UInt16.toNat_inj.mp h)),
      if_pos (UInt16.lt_iff_toNat_lt.mp hgt)]
  | case5 p1 p2 h1 h2 c1 c2 hne hgt =>
    -- the first code units differ, the second string's is larger
    rw [compareModifiedUtf8ToModifiedUtf8AsUtf16CodePointValues, if_neg h1, if_neg h2,
      if_pos hne, if_neg hgt, codeUnits_of_ne_zero h1, codeUnits_of_ne_zero h2,
      lexSign_cons_of_ne (fun h => hne (UInt16.toNat_inj.mp h)),
      if_neg (fun h => hgt (UInt16.lt_iff_toNat_lt.mpr h))]
  | case6 p1 p2 h1 h2 c1 c2 heq ih =>
    -- equal code units: the rest decides
    have heq' : (getUtf16FromUtf8 utf8_1 p1).1 = (getUtf16FromUtf8 utf8_2 p2).1 := not_not.mp heq
    rw [compareModifiedUtf8ToModifiedUtf8AsUtf16CodePointValues, if_neg h1, if_neg h2,
      if_neg heq, ih, codeUnits_of_ne_zero h1, codeUnits_of_ne_zero h2, heq', lexSign_cons_cons]

theorem compare_pos_iff (utf8_1 : List UInt8) (p1 : Nat) (utf8_2 : List UInt8) (p2 : Nat) :
    0 < compareModifiedUtf8ToModifiedUtf8AsUtf16CodePointValues utf8_1 p1 utf8_2 p2 ↔
      codeUnits utf8_2 p2 < codeUnits utf8_1 p1 := by
  rw [compare_eq_lexSign, lexSign]
  by_cases hlt : codeUnits utf8_1 p1 < codeUnits utf8_2 p2
  · rw [if_pos hlt]
    exact ⟨fun h => absurd h (by decide), fun h => absurd h (lt_asymm hlt)⟩
  · rw [if_neg hlt]
    by_cases hgt : codeUnits utf8_2 p2 < codeUnits utf8_1 p1
    · rw [if_pos hgt]
      exact ⟨fun _ => hgt, fun _ => Int.one_pos⟩
    · rw [if_neg hgt]
      exact ⟨fun h => absurd h (Int.lt_irrefl 0), fun h => absurd h hgt⟩

theorem compare_neg_iff (utf8_1 : List UInt8) (p1 : Nat) (utf8_2 : List UInt8) (p2 : Nat) :
    compareModifiedUtf8ToModifiedUtf8AsUtf16CodePointValues utf8_1 p1 utf8_2 p2 < 0 ↔
      codeUnits utf8_1 p1 < codeUnits utf8_2 p2 := by
  rw [compare_eq_lexSign, lexSign]
  by_cases hlt : codeUnits utf8_1 p1 < codeUnits utf8_2 p2
  · rw [if_pos hlt]
    exact ⟨fun _ => hlt, fun _ => by decide⟩
  · rw [if_neg hlt]
    by_cases hgt : codeUnits utf8_2 p2 < codeUnits utf8_1 p1
    · rw [if_pos hgt]
      exact ⟨fun h => absurd h (by decide), fun h => absurd h hlt⟩
    · rw [if_neg hgt]
      exact ⟨fun h => absurd h (Int.lt_irrefl 0), fun h => absurd h hlt⟩

/-- ConvertUtf16ToModifiedUtf8's bytes for one code unit: one byte for 1 to
    0x7f, three above 0x7ff, two otherwise, U+0000 included. -/
def modifiedUtf8Bytes (ch : UInt16) : List UInt8 :=
  if ch > 0 ∧ ch ≤ 0x7f then [ch.toUInt8]
  else if ch > 0x07ff then
    [((ch >>> 12) ||| 0xe0).toUInt8, (((ch >>> 6) &&& 0x3f) ||| 0x80).toUInt8,
      ((ch &&& 0x3f) ||| 0x80).toUInt8]
  else [((ch >>> 6) ||| 0xc0).toUInt8, ((ch &&& 0x3f) ||| 0x80).toUInt8]

/-- ConvertUtf16ToModifiedUtf8: the code units one after another, with no
    terminator. -/
def convertUtf16ToModifiedUtf8 (utf16_in : List UInt16) : List UInt8 :=
  utf16_in.flatMap modifiedUtf8Bytes

theorem convertUtf16ToModifiedUtf8_cons (ch : UInt16) (s : List UInt16) :
    convertUtf16ToModifiedUtf8 (ch :: s) = modifiedUtf8Bytes ch ++ convertUtf16ToModifiedUtf8 s :=
  List.flatMap_cons

/-- CountUtf8Bytes: the bytes ConvertUtf16ToModifiedUtf8 writes for `chars`,
    summed into `result`. -/
def countUtf8Bytes (chars : List UInt16) : Nat :=
  chars.foldl (fun result ch =>
    if ch > 0 ∧ ch ≤ 0x7f then result + 1
    else if ch > 0x7ff then result + 3
    else result + 2) 0

section Bytes

open MachineWord

/-! The masks and shifts of the decoder and the encoder, as arithmetic on the
values of the bytes. -/

theorem and_0x80_eq_zero_iff (b : UInt8) : b &&& 0x80 = 0 ↔ b.toNat < 128 := by
  rw [← UInt8.toNat_inj, UInt8.toNat_and, show (0x80 : UInt8).toNat = 2 ^ 7 from rfl, and_two_pow]
  have := b.toNat_lt
  simp only [UInt8.toNat_zero, Nat.reducePow]
  omega

theorem and_0x20_eq_zero_iff (b : UInt8) : b &&& 0x20 = 0 ↔ b.toNat / 32 % 2 = 0 := by
  rw [← UInt8.toNat_inj, UInt8.toNat_and, show (0x20 : UInt8).toNat = 2 ^ 5 from rfl, and_two_pow]
  simp only [UInt8.toNat_zero, Nat.reducePow]
  omega

theorem and_0xc0_eq_0x80_iff (b : UInt8) : b &&& 0xc0 = 0x80 ↔ b.toNat / 64 = 2 := by
  rw [← UInt8.toNat_inj, UInt8.toNat_and,
    show (0xc0 : UInt8).toNat = (2 ^ (8 - 6) - 1) * 2 ^ 6 from rfl,
    and_high_mask b.toNat_lt (by decide)]
  simp only [UInt8.reduceToNat, Nat.reducePow]
  omega

theorem toNat_toUInt16_and_low (b m : UInt8) {k : Nat} (hm : m.toNat = 2 ^ k - 1) :
    (b &&& m).toUInt16.toNat = b.toNat % 2 ^ k := by
  rw [UInt8.toNat_toUInt16, UInt8.toNat_and, hm, Nat.and_two_pow_sub_one_eq_mod]

theorem toNat_shiftLeft_of_lt (x : UInt16) {k : Nat} (hk : k < 16)
    (hx : x.toNat * 2 ^ k < 2 ^ 16) : (x <<< k.toUInt16).toNat = x.toNat * 2 ^ k := by
  rw [UInt16.toNat_shiftLeft, Nat.shiftLeft_eq]
  have hk' : k.toUInt16.toNat = k := by
    rw [Nat.toUInt16_eq, UInt16.toNat_ofNat']
    omega
  rw [hk', Nat.mod_eq_of_lt hk, Nat.mod_eq_of_lt hx]

theorem toNat_shiftRight (x : UInt16) {k : Nat} (hk : k < 16) :
    (x >>> k.toUInt16).toNat = x.toNat / 2 ^ k := by
  have hk' : k.toUInt16.toNat = k := by
    rw [Nat.toUInt16_eq, UInt16.toNat_ofNat']
    omega
  rw [UInt16.toNat_shiftRight, hk', Nat.mod_eq_of_lt hk, Nat.shiftRight_eq_div_pow]

/-- The value of a two-byte code unit. -/
theorem toNat_two_byte (one two : UInt8) :
    (((one &&& 0x1f).toUInt16 <<< 6) ||| (two &&& 0x3f).toUInt16).toNat =
      one.toNat % 32 * 64 + two.toNat % 64 := by
  have hx : ((one &&& 0x1f).toUInt16 <<< (6 : Nat).toUInt16).toNat = one.toNat % 2 ^ 5 * 2 ^ 6 := by
    rw [toNat_shiftLeft_of_lt _ (by decide)
        (by rw [toNat_toUInt16_and_low one 0x1f (k := 5) rfl]; omega),
      toNat_toUInt16_and_low one 0x1f (k := 5) rfl]
  have hy : (two &&& 0x3f).toUInt16.toNat = two.toNat % 2 ^ 6 :=
    toNat_toUInt16_and_low two 0x3f (k := 6) rfl
  rw [UInt16.toNat_or, show (6 : UInt16) = (6 : Nat).toUInt16 from rfl, hx, hy, Nat.or_comm,
    or_mul_two_pow_eq_add _ (Nat.mod_lt _ (by decide))]
  omega

/-- The value of a three-byte code unit. -/
theorem toNat_three_byte (one two three : UInt8) :
    (((one &&& 0x0f).toUInt16 <<< 12) ||| ((two &&& 0x3f).toUInt16 <<< 6) |||
      (three &&& 0x3f).toUInt16).toNat =
      one.toNat % 16 * 4096 + two.toNat % 64 * 64 + three.toNat % 64 := by
  have hx : ((one &&& 0x0f).toUInt16 <<< (12 : Nat).toUInt16).toNat =
      one.toNat % 2 ^ 4 * 2 ^ 12 := by
    rw [toNat_shiftLeft_of_lt _ (by decide)
        (by rw [toNat_toUInt16_and_low one 0x0f (k := 4) rfl]; omega),
      toNat_toUInt16_and_low one 0x0f (k := 4) rfl]
  have hy : ((two &&& 0x3f).toUInt16 <<< (6 : Nat).toUInt16).toNat = two.toNat % 2 ^ 6 * 2 ^ 6 := by
    rw [toNat_shiftLeft_of_lt _ (by decide)
        (by rw [toNat_toUInt16_and_low two 0x3f (k := 6) rfl]; omega),
      toNat_toUInt16_and_low two 0x3f (k := 6) rfl]
  have hz : (three &&& 0x3f).toUInt16.toNat = three.toNat % 2 ^ 6 :=
    toNat_toUInt16_and_low three 0x3f (k := 6) rfl
  -- the middle six bits sit below the top four, and the low six below both
  have hhigh : two.toNat % 2 ^ 6 * 2 ^ 6 ||| one.toNat % 2 ^ 4 * 2 ^ 12 =
      (one.toNat % 2 ^ 4 * 2 ^ 6 + two.toNat % 2 ^ 6) * 2 ^ 6 := by
    rw [or_mul_two_pow_eq_add _ (by omega)]
    ring
  rw [UInt16.toNat_or, UInt16.toNat_or, show (12 : UInt16) = (12 : Nat).toUInt16 from rfl,
    show (6 : UInt16) = (6 : Nat).toUInt16 from rfl, hx, hy, hz, Nat.or_comm (one.toNat % 2 ^ 4 * 2 ^ 12),
    hhigh, Nat.or_comm, or_mul_two_pow_eq_add _ (Nat.mod_lt _ (by decide))]
  omega

/-- The lead byte of a two-byte encoding. -/
theorem toNat_lead_two (ch : UInt16) (h : ch.toNat < 0x800) :
    ((ch >>> 6) ||| 0xc0).toUInt8.toNat = ch.toNat / 64 + 192 := by
  rw [UInt16.toNat_toUInt8, UInt16.toNat_or, show (6 : UInt16) = (6 : Nat).toUInt16 from rfl,
    toNat_shiftRight _ (by decide), show (0xc0 : UInt16).toNat = 6 * 2 ^ 5 from rfl,
    or_mul_two_pow_eq_add _ (by omega)]
  omega

/-- The lead byte of a three-byte encoding. -/
theorem toNat_lead_three (ch : UInt16) :
    ((ch >>> 12) ||| 0xe0).toUInt8.toNat = ch.toNat / 4096 + 224 := by
  have := ch.toNat_lt
  rw [UInt16.toNat_toUInt8, UInt16.toNat_or, show (12 : UInt16) = (12 : Nat).toUInt16 from rfl,
    toNat_shiftRight _ (by decide), show (0xe0 : UInt16).toNat = 14 * 2 ^ 4 from rfl,
    or_mul_two_pow_eq_add _ (by omega)]
  omega

/-- A continuation byte with the low six bits. -/
theorem toNat_cont_low (ch : UInt16) :
    ((ch &&& 0x3f) ||| 0x80).toUInt8.toNat = ch.toNat % 64 + 128 := by
  rw [UInt16.toNat_toUInt8, UInt16.toNat_or, UInt16.toNat_and,
    show (0x3f : UInt16).toNat = 2 ^ 6 - 1 from rfl, Nat.and_two_pow_sub_one_eq_mod,
    show (0x80 : UInt16).toNat = 2 * 2 ^ 6 from rfl, or_mul_two_pow_eq_add _ (Nat.mod_lt _ (by decide))]
  omega

/-- A continuation byte with the middle six bits. -/
theorem toNat_cont_mid (ch : UInt16) :
    (((ch >>> 6) &&& 0x3f) ||| 0x80).toUInt8.toNat = ch.toNat / 64 % 64 + 128 := by
  rw [UInt16.toNat_toUInt8, UInt16.toNat_or, UInt16.toNat_and,
    show (6 : UInt16) = (6 : Nat).toUInt16 from rfl, toNat_shiftRight _ (by decide),
    show (0x3f : UInt16).toNat = 2 ^ 6 - 1 from rfl, Nat.and_two_pow_sub_one_eq_mod,
    show (0x80 : UInt16).toNat = 2 * 2 ^ 6 from rfl, or_mul_two_pow_eq_add _ (Nat.mod_lt _ (by decide))]
  omega

/-! Every well-formed code unit is the encoding of the value it carries. -/

/-- A byte from 1 to 0x7f is the one-byte encoding of its own value. -/
theorem modifiedUtf8Bytes_toUInt16 {one : UInt8} (h0 : 0 < one.toNat) (h : one.toNat < 0x80) :
    modifiedUtf8Bytes one.toUInt16 = [one] := by
  have hch : one.toUInt16.toNat = one.toNat := UInt8.toNat_toUInt16 one
  have hle : one.toUInt16 ≤ 0x7f := UInt16.le_iff_toNat_le.mpr (by rw [hch]; exact Nat.le_of_lt_succ h)
  unfold modifiedUtf8Bytes
  rw [if_pos ⟨UInt16.lt_iff_toNat_lt.mpr (by rw [hch]; exact h0), hle⟩]
  rw [List.singleton_inj, ← UInt8.toNat_inj, UInt16.toNat_toUInt8, hch]
  omega

/-- A lead byte 110xxxxx and a continuation byte 10xxxxxx are the two-byte
    encoding of the value they carry, when it is 0 or above 0x7f. -/
theorem modifiedUtf8Bytes_two_byte {one two : UInt8} (h1 : one.toNat / 32 = 6)
    (h2 : two.toNat / 64 = 2)
    (hv : one.toNat % 32 * 64 + two.toNat % 64 = 0 ∨ 0x80 ≤ one.toNat % 32 * 64 + two.toNat % 64) :
    modifiedUtf8Bytes (((one &&& 0x1f).toUInt16 <<< 6) ||| (two &&& 0x3f).toUInt16) = [one, two] := by
  generalize hch : ((one &&& 0x1f).toUInt16 <<< 6) ||| (two &&& 0x3f).toUInt16 = ch
  have hv' : ch.toNat = one.toNat % 32 * 64 + two.toNat % 64 := by rw [← hch, toNat_two_byte]
  have hlead : ((ch >>> 6) ||| 0xc0).toUInt8 = one := by
    rw [← UInt8.toNat_inj, toNat_lead_two _ (by omega)]
    omega
  have hcont : ((ch &&& 0x3f) ||| 0x80).toUInt8 = two := by
    rw [← UInt8.toNat_inj, toNat_cont_low]
    omega
  unfold modifiedUtf8Bytes
  rw [if_neg (fun ⟨hpos, hle⟩ => by
      have hpos' : 0 < ch.toNat := UInt16.lt_iff_toNat_lt.mp hpos
      have hle' : ch.toNat ≤ 0x7f := UInt16.le_iff_toNat_le.mp hle
      omega),
    if_neg (fun hgt => by
      have hgt' : 0x7ff < ch.toNat := UInt16.lt_iff_toNat_lt.mp hgt
      omega),
    hlead, hcont]

/-- A lead byte 1110xxxx and two continuation bytes are the three-byte
    encoding of the value they carry, when it is above 0x7ff. -/
theorem modifiedUtf8Bytes_three_byte {one two three : UInt8} (h1 : one.toNat / 16 = 14)
    (h2 : two.toNat / 64 = 2) (h3 : three.toNat / 64 = 2)
    (hv : 0x800 ≤ one.toNat % 16 * 4096 + two.toNat % 64 * 64 + three.toNat % 64) :
    modifiedUtf8Bytes (((one &&& 0x0f).toUInt16 <<< 12) ||| ((two &&& 0x3f).toUInt16 <<< 6) |||
      (three &&& 0x3f).toUInt16) = [one, two, three] := by
  generalize hch : ((one &&& 0x0f).toUInt16 <<< 12) ||| ((two &&& 0x3f).toUInt16 <<< 6) |||
    (three &&& 0x3f).toUInt16 = ch
  have hv' : ch.toNat = one.toNat % 16 * 4096 + two.toNat % 64 * 64 + three.toNat % 64 := by
    rw [← hch, toNat_three_byte]
  have hlead : ((ch >>> 12) ||| 0xe0).toUInt8 = one := by
    rw [← UInt8.toNat_inj, toNat_lead_three]
    omega
  have hmid : (((ch >>> 6) &&& 0x3f) ||| 0x80).toUInt8 = two := by
    rw [← UInt8.toNat_inj, toNat_cont_mid]
    omega
  have hlow : ((ch &&& 0x3f) ||| 0x80).toUInt8 = three := by
    rw [← UInt8.toNat_inj, toNat_cont_low]
    omega
  unfold modifiedUtf8Bytes
  rw [if_neg (fun ⟨_, hle⟩ => by
      have hle' : ch.toNat ≤ 0x7f := UInt16.le_iff_toNat_le.mp hle
      omega),
    if_pos (UInt16.lt_iff_toNat_lt.mpr (by show 0x7ff < ch.toNat; omega)), hlead, hmid, hlow]

end Bytes

section RoundTrip

theorem getD_append_length (pre l : List UInt8) (i : Nat) :
    (pre ++ l).getD (pre.length + i) 0 = l.getD i 0 := by
  rw [List.getD_append_right _ _ _ _ (by omega), Nat.add_sub_cancel_left]

theorem getUtf16FromUtf8_modifiedUtf8Bytes (pre rest : List UInt8) (ch : UInt16) :
    getUtf16FromUtf8 (pre ++ (modifiedUtf8Bytes ch ++ rest)) pre.length =
      (ch, pre.length + (modifiedUtf8Bytes ch).length) := by
  have hch := ch.toNat_lt
  have hget : ∀ i, (pre ++ (modifiedUtf8Bytes ch ++ rest)).getD (pre.length + i) 0 =
      (modifiedUtf8Bytes ch ++ rest).getD i 0 := getD_append_length pre _
  dsimp only [getUtf16FromUtf8]
  rw [← Nat.add_zero pre.length, hget, hget 1, hget 2, Nat.add_zero]
  unfold modifiedUtf8Bytes
  by_cases h1 : ch > 0 ∧ ch ≤ 0x7f
  · -- one byte
    have h1' : 0 < ch.toNat ∧ ch.toNat ≤ 0x7f := ⟨UInt16.lt_iff_toNat_lt.mp h1.1, UInt16.le_iff_toNat_le.mp h1.2⟩
    have hb : ch.toUInt8.toNat = ch.toNat := by rw [UInt16.toNat_toUInt8]; omega
    rw [if_pos h1]
    simp only [List.cons_append, List.nil_append, List.getD_cons_zero, List.length_singleton]
    rw [if_pos ((and_0x80_eq_zero_iff _).mpr (by omega))]
    congr 1
    rw [← UInt16.toNat_inj, UInt8.toNat_toUInt16, hb]
  · rw [if_neg h1]
    by_cases h3 : ch > 0x07ff
    · -- three bytes
      have h3' : 0x7ff < ch.toNat := UInt16.lt_iff_toNat_lt.mp h3
      rw [if_pos h3]
      simp only [List.cons_append, List.nil_append, List.getD_cons_zero, List.getD_cons_succ,
        List.length_cons, List.length_nil]
      rw [if_neg (fun h => by rw [and_0x80_eq_zero_iff, toNat_lead_three] at h; omega),
        if_neg (fun h => by rw [and_0x20_eq_zero_iff, toNat_lead_three] at h; omega)]
      congr 1
      rw [← UInt16.toNat_inj, toNat_three_byte, toNat_lead_three, toNat_cont_mid, toNat_cont_low]
      omega
    · -- two bytes: 0, or 0x80 to 0x7ff
      have h3' : ch.toNat ≤ 0x7ff := UInt16.le_iff_toNat_le.mp (UInt16.not_lt.mp h3)
      rw [if_neg h3]
      simp only [List.cons_append, List.nil_append, List.getD_cons_zero, List.getD_cons_succ,
        List.length_cons, List.length_nil]
      rw [if_neg (fun h => by rw [and_0x80_eq_zero_iff, toNat_lead_two _ (by omega)] at h; omega),
        if_pos (by rw [and_0x20_eq_zero_iff, toNat_lead_two _ (by omega)]; omega)]
      congr 1
      rw [← UInt16.toNat_inj, toNat_two_byte, toNat_lead_two _ (by omega), toNat_cont_low]
      omega

/-- The encoding of a code unit starts with a byte other than 0. -/
theorem modifiedUtf8Bytes_lead_ne_zero (ch : UInt16) (rest : List UInt8) :
    (modifiedUtf8Bytes ch ++ rest).getD 0 0 ≠ 0 := by
  unfold modifiedUtf8Bytes
  by_cases h1 : ch > 0 ∧ ch ≤ 0x7f
  · rw [if_pos h1]
    intro h
    have h0 : ch.toUInt8.toNat = 0 := by
      rw [List.cons_append, List.getD_cons_zero] at h
      rw [h]
      rfl
    have hpos := UInt16.lt_iff_toNat_lt.mp h1.1
    have hle := UInt16.le_iff_toNat_le.mp h1.2
    rw [UInt16.toNat_toUInt8] at h0
    simp only [UInt16.reduceToNat] at hpos hle
    omega
  · rw [if_neg h1]
    by_cases h3 : ch > 0x07ff
    · rw [if_pos h3, List.cons_append, List.getD_cons_zero]
      intro h
      have h0 := congrArg UInt8.toNat h
      rw [toNat_lead_three] at h0
      exact absurd h0 (by simp)
    · rw [if_neg h3, List.cons_append, List.getD_cons_zero]
      intro h
      have h0 := congrArg UInt8.toNat h
      have hle : ch.toNat ≤ 0x7ff := UInt16.le_iff_toNat_le.mp (UInt16.not_lt.mp h3)
      rw [toNat_lead_two _ (by omega)] at h0
      exact absurd h0 (by simp)

/-- Decoding the encoding of a sequence, followed by a terminator, gives the
    sequence back. -/
theorem convertModifiedUtf8ToUtf16_encoded (pre rest : List UInt8) (s : List UInt16) :
    convertModifiedUtf8ToUtf16 (pre ++ (convertUtf16ToModifiedUtf8 s ++ 0 :: rest)) pre.length =
      s := by
  induction s generalizing pre with
  | nil =>
    rw [convertModifiedUtf8ToUtf16, if_pos]
    rw [← Nat.add_zero pre.length, getD_append_length]
    rfl
  | cons ch s ih =>
    -- the first code unit's bytes, then the rest of the encoding
    have hsplit : pre ++ (convertUtf16ToModifiedUtf8 (ch :: s) ++ 0 :: rest) =
        pre ++ (modifiedUtf8Bytes ch ++ (convertUtf16ToModifiedUtf8 s ++ 0 :: rest)) := by
      rw [convertUtf16ToModifiedUtf8_cons, List.append_assoc]
    have hlead : ¬ (pre ++ (modifiedUtf8Bytes ch ++ (convertUtf16ToModifiedUtf8 s ++ 0 :: rest))).getD
        pre.length 0 = 0 := by
      rw [← Nat.add_zero pre.length, getD_append_length]
      exact modifiedUtf8Bytes_lead_ne_zero ch _
    rw [hsplit, convertModifiedUtf8ToUtf16, if_neg hlead, getUtf16FromUtf8_modifiedUtf8Bytes,
      ← List.append_assoc, ← List.length_append, ih]

/-- What each decoding step consumes: one, two or three bytes, by the lead
    byte's bits. -/
theorem getUtf16FromUtf8_snd (utf8 : List UInt8) (p : Nat) :
    (getUtf16FromUtf8 utf8 p).2 =
      if utf8.getD p 0 &&& 0x80 = 0 then p + 1
      else if utf8.getD p 0 &&& 0x20 = 0 then p + 2 else p + 3 := by
  dsimp only [getUtf16FromUtf8]
  split
  · rfl
  · split <;> rfl

/-- CountModifiedUtf8Chars tests the same bits as the decoder, so it counts
    the code units ConvertModifiedUtf8ToUtf16 decodes, whatever the bytes. -/
theorem countModifiedUtf8Chars_eq (utf8 : List UInt8) (p len : Nat) :
    countModifiedUtf8Chars utf8 p len = len + (convertModifiedUtf8ToUtf16 utf8 p).length := by
  induction p, len using countModifiedUtf8Chars.induct utf8 with
  | case1 p len h0 =>
    rw [countModifiedUtf8Chars, if_pos h0, convertModifiedUtf8ToUtf16_of_zero h0]
    rfl
  | case2 p len h0 h80 ih =>
    rw [countModifiedUtf8Chars, if_neg h0, if_pos h80, ih, convertModifiedUtf8ToUtf16_of_ne_zero h0,
      getUtf16FromUtf8_snd, if_pos h80, List.length_cons]
    omega
  | case3 p len h0 h80 h20 ih =>
    rw [countModifiedUtf8Chars, if_neg h0, if_neg h80, if_pos h20, ih,
      convertModifiedUtf8ToUtf16_of_ne_zero h0, getUtf16FromUtf8_snd, if_neg h80, if_pos h20,
      List.length_cons]
    omega
  | case4 p len h0 h80 h20 ih =>
    rw [countModifiedUtf8Chars, if_neg h0, if_neg h80, if_neg h20, ih,
      convertModifiedUtf8ToUtf16_of_ne_zero h0, getUtf16FromUtf8_snd, if_neg h80, if_neg h20,
      List.length_cons]
    omega

theorem length_modifiedUtf8Bytes (ch : UInt16) :
    (modifiedUtf8Bytes ch).length = if ch > 0 ∧ ch ≤ 0x7f then 1 else if ch > 0x7ff then 3 else 2 := by
  unfold modifiedUtf8Bytes
  split
  · rfl
  · split <;> rfl

/-- CountUtf8Bytes gives each code unit the length of its encoding. -/
theorem length_convertUtf16ToModifiedUtf8 (s : List UInt16) :
    (convertUtf16ToModifiedUtf8 s).length = countUtf8Bytes s := by
  -- the loop's running total, from any start
  have hloop : ∀ (s : List UInt16) (result : Nat), s.foldl (fun result ch =>
      if ch > 0 ∧ ch ≤ 0x7f then result + 1
      else if ch > 0x7ff then result + 3
      else result + 2) result = result + (convertUtf16ToModifiedUtf8 s).length := by
    intro s
    induction s with
    | nil => intro result; rfl
    | cons ch s ih =>
      intro result
      rw [List.foldl_cons, ih, convertUtf16ToModifiedUtf8_cons, List.length_append,
        length_modifiedUtf8Bytes]
      split <;> (try split) <;> omega
  rw [countUtf8Bytes, hloop, Nat.zero_add]

/-- No byte of an encoded code unit is 0: U+0000 takes the two-byte form,
    and continuation bytes have their top bit set. -/
theorem ne_zero_of_mem_modifiedUtf8Bytes {ch : UInt16} {b : UInt8}
    (hb : b ∈ modifiedUtf8Bytes ch) : b ≠ 0 := by
  have hlead := modifiedUtf8Bytes_lead_ne_zero ch []
  unfold modifiedUtf8Bytes at hb hlead
  have hcont : ∀ c : UInt8, c.toNat = 128 + c.toNat % 128 → c ≠ 0 := by
    intro c hc h0
    rw [h0] at hc
    exact absurd hc (by decide)
  split at hb
  · rw [List.mem_singleton] at hb
    rw [if_pos ‹_›] at hlead
    exact hb ▸ hlead
  · rw [if_neg ‹_›] at hlead
    split at hb
    · rw [if_pos ‹_›] at hlead
      simp only [List.mem_cons, List.not_mem_nil, or_false] at hb
      rcases hb with rfl | rfl | rfl
      · exact hlead
      · exact hcont _ (by rw [toNat_cont_mid]; omega)
      · exact hcont _ (by rw [toNat_cont_low]; omega)
    · rw [if_neg ‹_›] at hlead
      simp only [List.mem_cons, List.not_mem_nil, or_false] at hb
      rcases hb with rfl | rfl
      · exact hlead
      · exact hcont _ (by rw [toNat_cont_low]; omega)

theorem ne_zero_of_mem_convertUtf16ToModifiedUtf8 {s : List UInt16} {b : UInt8}
    (hb : b ∈ convertUtf16ToModifiedUtf8 s) : b ≠ 0 := by
  obtain ⟨ch, -, hch⟩ := List.mem_flatMap.mp hb
  exact ne_zero_of_mem_modifiedUtf8Bytes hch

/-- Decoding the code units of an encoded sequence one after another ends
    exactly where the encoding does. -/
theorem iterate_getUtf16FromUtf8_encoded (pre rest : List UInt8) (s : List UInt16) :
    (fun p => (getUtf16FromUtf8 (pre ++ (convertUtf16ToModifiedUtf8 s ++ rest)) p).2)^[s.length]
      pre.length = pre.length + (convertUtf16ToModifiedUtf8 s).length := by
  induction s generalizing pre with
  | nil => rfl
  | cons ch s ih =>
    -- one step over the first code unit's bytes, then the rest from there
    have hsplit : pre ++ (convertUtf16ToModifiedUtf8 (ch :: s) ++ rest) =
        (pre ++ modifiedUtf8Bytes ch) ++ (convertUtf16ToModifiedUtf8 s ++ rest) := by
      rw [convertUtf16ToModifiedUtf8_cons, List.append_assoc, List.append_assoc]
    have hstep : (getUtf16FromUtf8 (pre ++ (convertUtf16ToModifiedUtf8 (ch :: s) ++ rest))
        pre.length).2 = (pre ++ modifiedUtf8Bytes ch).length := by
      rw [hsplit, List.append_assoc, getUtf16FromUtf8_modifiedUtf8Bytes, List.length_append]
    rw [List.length_cons, Function.iterate_succ_apply, hstep, hsplit, ih,
      convertUtf16ToModifiedUtf8_cons, List.length_append, List.length_append, Nat.add_assoc]

theorem codeUnits_encoded (s : List UInt16) :
    codeUnits (convertUtf16ToModifiedUtf8 s ++ [0]) 0 = s.map UInt16.toNat := by
  have h := convertModifiedUtf8ToUtf16_encoded [] [] s
  rw [List.nil_append, List.length_nil] at h
  rw [codeUnits, h]

/-- The round trip through modified UTF-8, for every sequence of code units,
    U+0000 and unpaired surrogates included, and whatever follows the
    terminator. -/
theorem modifiedUtf8_round_trip (s : List UInt16) (rest : List UInt8) :
    (convertUtf16ToModifiedUtf8 s).length = countUtf8Bytes s ∧
      (∀ b ∈ convertUtf16ToModifiedUtf8 s, b ≠ 0) ∧
      countModifiedUtf8Chars (convertUtf16ToModifiedUtf8 s ++ 0 :: rest) 0 0 = s.length ∧
      convertModifiedUtf8ToUtf16 (convertUtf16ToModifiedUtf8 s ++ 0 :: rest) 0 = s ∧
      (fun p => (getUtf16FromUtf8 (convertUtf16ToModifiedUtf8 s ++ 0 :: rest) p).2)^[s.length] 0 =
        (convertUtf16ToModifiedUtf8 s).length := by
  have hdec := convertModifiedUtf8ToUtf16_encoded [] rest s
  have hend := iterate_getUtf16FromUtf8_encoded [] (0 :: rest) s
  rw [List.nil_append, List.length_nil] at hdec hend
  refine ⟨length_convertUtf16ToModifiedUtf8 s, fun _ hb => ne_zero_of_mem_convertUtf16ToModifiedUtf8 hb,
    ?_, hdec, by rw [hend, Nat.zero_add]⟩
  rw [countModifiedUtf8Chars_eq, hdec, Nat.zero_add]

/-- Between two encoded strings the comparison is the code-unit order, but
    against a UTF-16 string it is not: "a" against "a" answers -1, since the
    loop compares the second "a" with the terminator of the first while the
    UTF-16 side never moves past its first code unit. -/
theorem compare_utf16_breaks_code_unit_order :
    (∀ s1 s2 : List UInt16,
      compareModifiedUtf8ToModifiedUtf8AsUtf16CodePointValues (convertUtf16ToModifiedUtf8 s1 ++ [0]) 0
        (convertUtf16ToModifiedUtf8 s2 ++ [0]) 0 = lexSign (s1.map UInt16.toNat) (s2.map UInt16.toNat)) ∧
      lexSign (([0x61] : List UInt16).map UInt16.toNat) (([0x61] : List UInt16).map UInt16.toNat) = 0 ∧
      compareModifiedUtf8ToUtf16AsCodePointValues (convertUtf16ToModifiedUtf8 [0x61] ++ [0]) 0
        [0x61, 0] = -1 := by
  refine ⟨fun s1 s2 => by rw [compare_eq_lexSign, codeUnits_encoded, codeUnits_encoded], by decide, ?_⟩
  have henc : convertUtf16ToModifiedUtf8 [0x61] ++ [0] = [0x61, 0] := by decide
  have hget : getUtf16FromUtf8 [0x61, 0] 0 = (0x61, 1) := by decide
  -- the first "a" equals the UTF-16 side's "a"; then the encoded string ends first
  rw [henc, compareModifiedUtf8ToUtf16AsCodePointValues, if_neg (by decide), if_neg (by decide)]
  have hfirst : ([0x61, 0] : List UInt16).getD 0 0 = 0x61 := rfl
  simp only [hget, hfirst, ne_eq, not_true_eq_false, ↓reduceIte]
  rw [compareModifiedUtf8ToUtf16AsCodePointValues, if_pos (by decide), if_neg (by decide)]

end RoundTrip

end Utf

end ArtRuntime
