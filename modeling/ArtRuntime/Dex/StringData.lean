import ArtRuntime.Base.Leb128
import ArtRuntime.Utf.ModifiedUtf8

/-!
# The Dex File Verifier: String Data

`DexFileVerifier::CheckIntraStringDataItem` checks one string_data_item: a
ULEB128 count of UTF-16 code units, then the modified UTF-8 bytes of those
units and a terminating 0. It walks the bytes one code unit at a time,
switching on the high four bits of the lead byte, and checks what follows
against the count.

The model keeps the file as its bytes and `ptr_` as a position in them. A
result is `some (some q)` when the check returns true with `ptr_` at `q`,
`some none` when it returns false, and `none` when it reads outside the file.
The check against `file_end` guards lead bytes only: continuation bytes and
the terminator are read unchecked, so a file that ends inside a code unit
makes the check read past its end (`checkStringDataChar_reads_past_end`).

The check accepts exactly what `ConvertUtf16ToModifiedUtf8` writes. A lead
byte 0xxxxxxx other than 0 is a unit of its own; 110xxxxx with a continuation
byte carries 0 or a value above 0x7f, which the encoder writes in two bytes;
1110xxxx with two continuation bytes carries a value above 0x7ff. Every other
lead byte is refused. The same holds of the whole item by induction on the
count, with the terminator after the last unit.

## Main definitions

* `checkStringDataChar`: One round of the loop.
* `checkStringDataLoop`: The loop over the units, then the terminator.
* `checkIntraStringDataItem`: The check of one item.

## Theorems

* `checkStringDataChar_sound`, `checkStringDataChar_complete`: One round
  accepts exactly the bytes of one encoded code unit.
* `checkStringDataLoop_sound`, `checkStringDataLoop_complete`: The loop
  accepts exactly the encoding of a sequence of its length and a 0.
* `checkIntraStringDataItem_iff`: The check accepts an item exactly when its
  bytes are an encoded sequence of the declared length and a 0, which the
  decoder reads back.
-/

namespace ArtRuntime

namespace DexFileVerifier

open Utf

/-- One round of CheckIntraStringDataItem's loop, with `ptr_` at `p`. -/
def checkStringDataChar (file : List UInt8) (p : Nat) : Option (Option Nat) :=
  -- the test ptr_ >= file_end: "String data would go beyond end-of-file"
  match file[p]? with
  | none => some none
  | some byte =>
    -- switch on the high 4 bits
    if byte >>> 4 = 0x00 then
      -- bit pattern 0xxx, where a 0 ends the string before its size
      if byte = 0 then some none else some (some (p + 1))
    else if byte >>> 4 ≤ 0x07 then some (some (p + 1))
    else if byte >>> 4 = 0x0c ∨ byte >>> 4 = 0x0d then
      -- bit pattern 110x has an additional byte, read without a bound check
      match file[p + 1]? with
      | none => none
      | some byte2 =>
        if byte2 &&& 0xc0 ≠ 0x80 then some none
        else
          let value : UInt16 := ((byte &&& 0x1f).toUInt16 <<< 6) ||| (byte2 &&& 0x3f).toUInt16
          if value ≠ 0 ∧ value < 0x80 then some none else some (some (p + 2))
    else if byte >>> 4 = 0x0e then
      -- bit pattern 1110 has 2 additional bytes
      match file[p + 1]? with
      | none => none
      | some byte2 =>
        if byte2 &&& 0xc0 ≠ 0x80 then some none
        else
          match file[p + 2]? with
          | none => none
          | some byte3 =>
            if byte3 &&& 0xc0 ≠ 0x80 then some none
            else
              let value : UInt16 := ((byte &&& 0x0f).toUInt16 <<< 12) |||
                ((byte2 &&& 0x3f).toUInt16 <<< 6) ||| (byte3 &&& 0x3f).toUInt16
              if value < 0x800 then some none else some (some (p + 3))
    -- illegal bit patterns 10xx and 1111
    else some none

/-- The loop of CheckIntraStringDataItem over `size` code units from `p`,
    then the test that a 0 follows them. -/
def checkStringDataLoop (file : List UInt8) : Nat → Nat → Option (Option Nat)
  | 0, p =>
    match file[p]? with
    | none => none
    | some byte => if byte ≠ 0 then some none else some (some (p + 1))
  | size + 1, p =>
    match checkStringDataChar file p with
    | some (some p') => checkStringDataLoop file size p'
    | r => r

/-- CheckIntraStringDataItem with `ptr_` at `ptr`. -/
def checkIntraStringDataItem (file : List UInt8) (ptr : Nat) : Option (Option Nat) :=
  match Leb128.decodeUnsignedLeb128 file ptr with
  | none => none
  | some (size, p) => checkStringDataLoop file size.toNat p

section Bytes

theorem drop_eq_cons_of_getElem? {l : List UInt8} {n : Nat} {a : UInt8} (h : l[n]? = some a) :
    l.drop n = a :: l.drop (n + 1) := by
  obtain ⟨hn, rfl⟩ := List.getElem?_eq_some_iff.mp h
  exact List.drop_eq_getElem_cons hn

theorem drop_add_length {l pre rest : List UInt8} {n : Nat} (h : l.drop n = pre ++ rest) :
    l.drop (n + pre.length) = rest := by
  rw [← List.drop_drop, h, List.drop_left]

theorem getElem?_add_of_drop_eq {l pre rest : List UInt8} {n : Nat} (h : l.drop n = pre ++ rest)
    (i : Nat) : l[n + i]? = (pre ++ rest)[i]? := by
  rw [← List.getElem?_drop, h]

theorem toNat_shiftRight_four (b : UInt8) : (b >>> 4).toNat = b.toNat / 16 := by
  rw [UInt8.toNat_shiftRight, Nat.shiftRight_eq_div_pow]
  rfl

theorem shiftRight_four_eq_iff (b k : UInt8) : b >>> 4 = k ↔ b.toNat / 16 = k.toNat := by
  rw [← UInt8.toNat_inj, toNat_shiftRight_four]

theorem shiftRight_four_le_iff (b k : UInt8) : b >>> 4 ≤ k ↔ b.toNat / 16 ≤ k.toNat := by
  rw [UInt8.le_iff_toNat_le, toNat_shiftRight_four]

theorem eq_zero_iff_toNat (b : UInt8) : b = 0 ↔ b.toNat = 0 := by
  rw [← UInt8.toNat_inj]
  rfl

end Bytes

/-- The bytes of `file` from `p` to `q` are the encoding of one code unit. -/
def EncodedUnitAt (file : List UInt8) (p q : Nat) : Prop :=
  ∃ ch, q = p + (modifiedUtf8Bytes ch).length ∧ file.drop p = modifiedUtf8Bytes ch ++ file.drop q

section Unit

/-! What each accepting branch of the switch has read is an encoded code unit. -/

theorem encodedUnitAt_one {file : List UInt8} {p : Nat} {one : UInt8}
    (hd : file.drop p = one :: file.drop (p + 1)) (h0 : 0 < one.toNat) (h : one.toNat < 0x80) :
    EncodedUnitAt file p (p + 1) := by
  refine ⟨one.toUInt16, ?_, ?_⟩
  · rw [modifiedUtf8Bytes_toUInt16 h0 h]
    rfl
  · rw [modifiedUtf8Bytes_toUInt16 h0 h, hd]
    rfl

theorem encodedUnitAt_two {file : List UInt8} {p : Nat} {one two : UInt8}
    (hd : file.drop p = one :: two :: file.drop (p + 2)) (h1 : one.toNat / 32 = 6)
    (h2 : two.toNat / 64 = 2)
    (hv : one.toNat % 32 * 64 + two.toNat % 64 = 0 ∨ 0x80 ≤ one.toNat % 32 * 64 + two.toNat % 64) :
    EncodedUnitAt file p (p + 2) := by
  refine ⟨((one &&& 0x1f).toUInt16 <<< 6) ||| (two &&& 0x3f).toUInt16, ?_, ?_⟩
  · rw [modifiedUtf8Bytes_two_byte h1 h2 hv]
    rfl
  · rw [modifiedUtf8Bytes_two_byte h1 h2 hv, hd]
    rfl

theorem encodedUnitAt_three {file : List UInt8} {p : Nat} {one two three : UInt8}
    (hd : file.drop p = one :: two :: three :: file.drop (p + 3)) (h1 : one.toNat / 16 = 14)
    (h2 : two.toNat / 64 = 2) (h3 : three.toNat / 64 = 2)
    (hv : 0x800 ≤ one.toNat % 16 * 4096 + two.toNat % 64 * 64 + three.toNat % 64) :
    EncodedUnitAt file p (p + 3) := by
  refine ⟨((one &&& 0x0f).toUInt16 <<< 12) ||| ((two &&& 0x3f).toUInt16 <<< 6) |||
    (three &&& 0x3f).toUInt16, ?_, ?_⟩
  · rw [modifiedUtf8Bytes_three_byte h1 h2 h3 hv]
    rfl
  · rw [modifiedUtf8Bytes_three_byte h1 h2 h3 hv, hd]
    rfl

/-- A round that accepts has read one encoded code unit. -/
theorem checkStringDataChar_sound {file : List UInt8} {p q : Nat}
    (h : checkStringDataChar file p = some (some q)) : EncodedUnitAt file p q := by
  unfold checkStringDataChar at h
  cases h0 : file[p]? with
  | none => simp only [h0, Option.some.injEq, reduceCtorEq] at h
  | some one =>
    have hd0 := drop_eq_cons_of_getElem? h0
    -- the tests of the switch, as arithmetic on the bytes
    simp only [h0, ne_eq, shiftRight_four_eq_iff, shiftRight_four_le_iff, and_0xc0_eq_0x80_iff,
      ← UInt16.toNat_inj, UInt16.lt_iff_toNat_lt, toNat_two_byte, toNat_three_byte,
      UInt8.reduceToNat, UInt16.reduceToNat] at h
    have hone := one.toNat_lt
    split_ifs at h with hz hnul h7 h12 h14
    · -- a 0 where a code unit starts
      cases h
    · cases h
      exact encodedUnitAt_one hd0 (Nat.pos_of_ne_zero (fun h => hnul (UInt8.toNat_inj.mp h)))
        (by omega)
    · cases h
      exact encodedUnitAt_one hd0 (by omega) (by omega)
    · -- 110x: one continuation byte
      cases h1 : file[p + 1]? with
      | none => simp only [h1, reduceCtorEq] at h
      | some two =>
        have hd1 := drop_eq_cons_of_getElem? h1
        simp only [h1] at h
        split_ifs at h with hc hv
        · -- an over-long form of a value below 0x80
          cases h
        · cases h
          rw [hd1] at hd0
          exact encodedUnitAt_two hd0 (by omega) hc (by omega)
        · -- not a continuation byte
          cases h
    · -- 1110: two continuation bytes
      cases h1 : file[p + 1]? with
      | none => simp only [h1, reduceCtorEq] at h
      | some two =>
        have hd1 := drop_eq_cons_of_getElem? h1
        simp only [h1] at h
        split_ifs at h with hc
        · cases h2 : file[p + 2]? with
          | none => simp only [h2, reduceCtorEq] at h
          | some three =>
            have hd2 := drop_eq_cons_of_getElem? h2
            simp only [h2] at h
            split_ifs at h with hc' hv
            · -- an over-long form of a value below 0x800
              cases h
            · cases h
              rw [hd1, hd2] at hd0
              exact encodedUnitAt_three hd0 h14 hc hc' (by omega)
            · cases h
        · cases h
    · -- 10xx and 1111
      cases h

/-- A round accepts the encoding of any code unit, whatever follows it. -/
theorem checkStringDataChar_complete {file : List UInt8} {p q : Nat} (h : EncodedUnitAt file p q) :
    checkStringDataChar file p = some (some q) := by
  obtain ⟨ch, rfl, hd⟩ := h
  have hch := ch.toNat_lt
  have hget := getElem?_add_of_drop_eq hd
  unfold checkStringDataChar
  by_cases h1 : ch > 0 ∧ ch ≤ 0x7f
  · -- one byte, the code unit itself
    have hpos : 0 < ch.toNat := UInt16.lt_iff_toNat_lt.mp h1.1
    have hle : ch.toNat ≤ 0x7f := UInt16.le_iff_toNat_le.mp h1.2
    have hb : ch.toUInt8.toNat = ch.toNat := by
      rw [UInt16.toNat_toUInt8]
      omega
    rw [modifiedUtf8Bytes, if_pos h1] at hget ⊢
    have g0 : file[p]? = some ch.toUInt8 := hget 0
    simp only [g0, ne_eq, eq_zero_iff_toNat, toNat_shiftRight_four, shiftRight_four_eq_iff,
      shiftRight_four_le_iff, hb, UInt8.reduceToNat]
    by_cases hz : ch.toNat / 16 = 0
    · rw [if_pos hz, if_neg (by omega)]
      rfl
    · rw [if_neg hz, if_pos (by omega)]
      rfl
  · rw [modifiedUtf8Bytes, if_neg h1] at hget ⊢
    by_cases h3 : ch > 0x07ff
    · -- three bytes
      have h3' : 0x7ff < ch.toNat := UInt16.lt_iff_toNat_lt.mp h3
      rw [if_pos h3] at hget ⊢
      have hl := toNat_lead_three ch
      have hm := toNat_cont_mid ch
      have hr := toNat_cont_low ch
      generalize ((ch >>> 12) ||| 0xe0).toUInt8 = lead at hget hl ⊢
      generalize (((ch >>> 6) &&& 0x3f) ||| 0x80).toUInt8 = mid at hget hm ⊢
      generalize ((ch &&& 0x3f) ||| 0x80).toUInt8 = low at hget hr ⊢
      have g0 : file[p]? = some lead := hget 0
      have g1 : file[p + 1]? = some mid := hget 1
      have g2 : file[p + 2]? = some low := hget 2
      simp only [g0, g1, g2, ne_eq, eq_zero_iff_toNat, toNat_shiftRight_four, shiftRight_four_eq_iff,
        shiftRight_four_le_iff, and_0xc0_eq_0x80_iff, UInt16.lt_iff_toNat_lt, toNat_three_byte, hl, hm,
        hr, UInt8.reduceToNat, UInt16.reduceToNat]
      -- lead 1110, two continuation bytes, and a value of 0x800 or more
      rw [if_neg (by omega), if_neg (by omega), if_neg (by omega), if_pos (by omega), if_neg (by omega),
        if_neg (by omega), if_neg (by omega)]
      rfl
    · -- two bytes: 0, or 0x80 to 0x7ff
      have h3' : ch.toNat ≤ 0x7ff := UInt16.le_iff_toNat_le.mp (UInt16.not_lt.mp h3)
      rw [if_neg h3] at hget ⊢
      have hl := toNat_lead_two ch (Nat.lt_succ_of_le h3')
      have hr := toNat_cont_low ch
      generalize ((ch >>> 6) ||| 0xc0).toUInt8 = lead at hget hl ⊢
      generalize ((ch &&& 0x3f) ||| 0x80).toUInt8 = low at hget hr ⊢
      have g0 : file[p]? = some lead := hget 0
      have g1 : file[p + 1]? = some low := hget 1
      simp only [g0, g1, ne_eq, eq_zero_iff_toNat, toNat_shiftRight_four, shiftRight_four_eq_iff,
        shiftRight_four_le_iff, and_0xc0_eq_0x80_iff, ← UInt16.toNat_inj, UInt16.lt_iff_toNat_lt,
        toNat_two_byte, hl, hr, UInt8.reduceToNat, UInt16.reduceToNat]
      have h0 : ch.toNat = 0 ∨ 0x80 ≤ ch.toNat := by
        by_contra hv
        exact h1 ⟨UInt16.lt_iff_toNat_lt.mpr (by show 0 < ch.toNat; omega),
          UInt16.le_iff_toNat_le.mpr (by show ch.toNat ≤ 0x7f; omega)⟩
      -- lead 110x, a continuation byte, and a value that is 0 or above 0x7f
      rw [if_neg (by omega), if_neg (by omega), if_pos (by omega), if_neg (by omega), if_neg (by omega)]
      rfl

/-- The bound check guards the lead byte only: a file that ends just after
    the lead byte of a two-byte code unit makes the round read past its end. -/
theorem checkStringDataChar_reads_past_end (file : List UInt8) {lead : UInt8}
    (h : lead.toNat / 32 = 6) : checkStringDataChar (file ++ [lead]) file.length = none := by
  have g0 : (file ++ [lead])[file.length]? = some lead := by simp
  have g1 : (file ++ [lead])[file.length + 1]? = none := by simp
  unfold checkStringDataChar
  simp only [g0, g1, shiftRight_four_eq_iff, shiftRight_four_le_iff, eq_zero_iff_toNat,
    toNat_shiftRight_four, UInt8.reduceToNat]
  rw [if_neg (by omega), if_neg (by omega), if_pos (by omega)]

end Unit

section Loop

/-- A loop that accepts has read `size` encoded code units and a 0. -/
theorem checkStringDataLoop_sound {file : List UInt8} {size p q : Nat}
    (h : checkStringDataLoop file size p = some (some q)) :
    ∃ s : List UInt16, s.length = size ∧ q = p + (convertUtf16ToModifiedUtf8 s).length + 1 ∧
      file.drop p = convertUtf16ToModifiedUtf8 s ++ 0 :: file.drop q := by
  induction size generalizing p with
  | zero =>
    -- only the terminator is left
    rw [checkStringDataLoop] at h
    cases h0 : file[p]? with
    | none => simp only [h0, reduceCtorEq] at h
    | some byte =>
      simp only [h0] at h
      split_ifs at h with hb
      · cases h
      · cases h
        rw [not_not] at hb
        subst hb
        exact ⟨[], rfl, rfl, drop_eq_cons_of_getElem? h0⟩
  | succ size ih =>
    -- one code unit, then the rest of the loop from where it ends
    rw [checkStringDataLoop] at h
    cases hc : checkStringDataChar file p with
    | none => simp only [hc, reduceCtorEq] at h
    | some r =>
      cases r with
      | none => simp only [hc, Option.some.injEq, reduceCtorEq] at h
      | some p' =>
        simp only [hc] at h
        obtain ⟨ch, rfl, hd⟩ := checkStringDataChar_sound hc
        obtain ⟨s, hs, rfl, hds⟩ := ih h
        refine ⟨ch :: s, by rw [List.length_cons, hs], ?_, ?_⟩
        · rw [convertUtf16ToModifiedUtf8_cons, List.length_append]
          omega
        · rw [hd, hds, convertUtf16ToModifiedUtf8_cons, List.append_assoc]

/-- The loop accepts the encoding of any sequence of its length and a 0,
    whatever follows them. -/
theorem checkStringDataLoop_complete {file rest : List UInt8} {p : Nat} (s : List UInt16)
    (h : file.drop p = convertUtf16ToModifiedUtf8 s ++ 0 :: rest) :
    checkStringDataLoop file s.length p =
      some (some (p + (convertUtf16ToModifiedUtf8 s).length + 1)) := by
  induction s generalizing p with
  | nil =>
    have g0 : file[p]? = some 0 := getElem?_add_of_drop_eq h 0
    rw [List.length_nil, checkStringDataLoop, g0]
    rfl
  | cons ch s ih =>
    rw [convertUtf16ToModifiedUtf8_cons, List.append_assoc] at h
    have hrest := drop_add_length h
    have hunit : EncodedUnitAt file p (p + (modifiedUtf8Bytes ch).length) :=
      ⟨ch, rfl, by rw [hrest]; exact h⟩
    rw [List.length_cons, checkStringDataLoop, checkStringDataChar_complete hunit]
    dsimp only
    rw [ih hrest, convertUtf16ToModifiedUtf8_cons, List.length_append, Nat.add_assoc p]

end Loop

/-- CheckIntraStringDataItem accepts a string_data_item, with `ptr_` left
    just past it, exactly when the item is a count `n` and the encoding of
    `n` code units followed by a 0; the decoder then reads those units back. -/
theorem checkIntraStringDataItem_iff (pre b rest : List UInt8) (n : UInt32) :
    checkIntraStringDataItem (pre ++ Leb128.pushBackLoop n ++ b ++ rest) pre.length =
        some (some (pre.length + (Leb128.pushBackLoop n).length + b.length)) ↔
      ∃ s : List UInt16, s.length = n.toNat ∧ b = convertUtf16ToModifiedUtf8 s ++ [0] ∧
        convertModifiedUtf8ToUtf16 b 0 = s := by
  have hfile : pre ++ Leb128.pushBackLoop n ++ b ++ rest = pre ++ Leb128.pushBackLoop n ++ (b ++ rest) :=
    List.append_assoc _ _ _
  have hdrop : (pre ++ Leb128.pushBackLoop n ++ b ++ rest).drop
      (pre.length + (Leb128.pushBackLoop n).length) = b ++ rest := by
    rw [hfile, ← List.length_append, List.drop_left]
  rw [checkIntraStringDataItem, hfile, Leb128.decodeUnsignedLeb128_pushBackLoop, ← hfile]
  dsimp only
  constructor
  · intro h
    obtain ⟨s, hs, -, hds⟩ := checkStringDataLoop_sound h
    -- the 0 the loop stops at is the last byte of the item, so what follows it is rest
    have hrest := drop_add_length hdrop
    rw [hdrop, hrest] at hds
    have hb : b = convertUtf16ToModifiedUtf8 s ++ [0] :=
      List.append_cancel_right (by rw [hds, List.append_assoc]; rfl)
    refine ⟨s, hs, hb, ?_⟩
    have hdec := convertModifiedUtf8ToUtf16_encoded [] [] s
    rw [List.nil_append, List.length_nil] at hdec
    rw [hb, hdec]
  · rintro ⟨s, hs, rfl, -⟩
    have h := checkStringDataLoop_complete s (by rw [hdrop, List.append_assoc]; rfl)
    rw [hs] at h
    rw [h, List.length_append, List.length_singleton, Nat.add_assoc _ _ 1]

end DexFileVerifier

end ArtRuntime
