import ArtRuntime.Core.Word

/-!
# Unsigned LEB128

The compiler writes tables as unsigned LEB128 values
(`UnsignedLeb128EncodingVector::PushBack`): seven bits at a time from the
lowest, each byte but the last with its top bit set. The runtime reads them
back with `DecodeUnsignedLeb128`, which is unrolled by hand into one to five
bytes and takes the fifth byte whole.

The data is a list of bytes and a position in it; a read at or past the end
of the list is `none`, so a decoder that returns a value read only bytes of
the data.

## Main definitions

* `pushBackLoop`, `pushBack`, `insertBack`: The encoder.
* `decodeUnsignedLeb128`: `DecodeUnsignedLeb128`, from a position.
* `decodeUnsignedLeb128P1`, `decodeSignedLeb128`: `DecodeUnsignedLeb128P1`
  and `DecodeSignedLeb128`.

## Theorems

* `pushBackLoop_of_lt`, `pushBackLoop_of_ge`: One round of the encoder.
* `insertBack_eq`: What `InsertBack` appends.
* `decodeUnsignedLeb128_pushBackLoop`: Decoding at the start of an encoded
  value gives the value back and the position just after it, whatever bytes
  come before and after.
* `lt_of_decodeUnsignedLeb128`, `lt_of_decodeSignedLeb128`: A read moves past
  the position it starts at, so a loop of reads ends.
-/

namespace ArtRuntime

namespace Leb128

open MachineWord

/-- The low seven bits of a value, as the byte `value & 0x7f`. -/
theorem toNat_lowGroup (value : UInt32) : ((value &&& 0x7f).toUInt8).toNat = value.toNat % 128 := by
  rw [UInt32.toNat_toUInt8, toNat_and_mask value 0x7f (k := 7) rfl]
  omega

/-- The low seven bits are the whole value exactly when it is below `128`. -/
theorem lowGroup_eq_iff (value : UInt32) :
    ((value &&& 0x7f).toUInt8).toUInt32 = value ↔ value.toNat < 128 := by
  rw [← UInt32.toNat_inj, UInt8.toNat_toUInt32, toNat_lowGroup]
  omega

theorem toNat_shiftRight_seven (value : UInt32) : (value >>> 7).toNat = value.toNat / 128 := by
  rw [UInt32.toNat_shiftRight, Nat.shiftRight_eq_div_pow]
  rfl

/-- The rounds of `UnsignedLeb128EncodingVector::PushBack`: while the value
    does not fit its low seven bits, they go out with the top bit set and
    the value shifts down by seven. -/
def pushBackLoop (value : UInt32) : List UInt8 :=
  let out : UInt8 := (value &&& 0x7f).toUInt8
  if out.toUInt32 ≠ value then (out ||| 0x80) :: pushBackLoop (value >>> 7)
  else [out]
termination_by value.toNat
decreasing_by
  rename_i hne
  rw [toNat_shiftRight_seven]
  have : ¬ value.toNat < 128 := fun h => hne ((lowGroup_eq_iff value).mpr h)
  omega

/-- `UnsignedLeb128EncodingVector::PushBack`. -/
def pushBack (data : List UInt8) (value : UInt32) : List UInt8 :=
  data ++ pushBackLoop value

/-- `UnsignedLeb128EncodingVector::InsertBack`. -/
def insertBack (data : List UInt8) (values : List UInt32) : List UInt8 :=
  values.foldl pushBack data

/-- `DecodeUnsignedLeb128` from position `ptr` of `data`: the value and the
    position just past it. The source accumulates in an `int` and returns it
    as `uint32_t`; the fifth byte goes in whole, shifted by `28`. -/
def decodeUnsignedLeb128 (data : List UInt8) (ptr : Nat) : Option (UInt32 × Nat) := do
  let one ← data[ptr]?
  let result : UInt32 := one.toUInt32
  if result > 0x7f then
    let cur ← data[ptr + 1]?
    let result : UInt32 := (result &&& 0x7f) ||| ((cur.toUInt32 &&& 0x7f) <<< (7 : UInt32))
    if cur.toUInt32 > 0x7f then
      let cur ← data[ptr + 2]?
      let result : UInt32 := result ||| ((cur.toUInt32 &&& 0x7f) <<< (14 : UInt32))
      if cur.toUInt32 > 0x7f then
        let cur ← data[ptr + 3]?
        let result : UInt32 := result ||| ((cur.toUInt32 &&& 0x7f) <<< (21 : UInt32))
        if cur.toUInt32 > 0x7f then
          -- no check of the fifth byte: its four high bits are tolerated
          let cur ← data[ptr + 4]?
          pure (result ||| (cur.toUInt32 <<< (28 : UInt32)), ptr + 5)
        else pure (result, ptr + 4)
      else pure (result, ptr + 3)
    else pure (result, ptr + 2)
  else pure (result, ptr + 1)

/-- `DecodeUnsignedLeb128P1`: the value minus one, so that `0` reads as
    `-1`, returned as the bits of the `int32_t`. -/
def decodeUnsignedLeb128P1 (data : List UInt8) (ptr : Nat) : Option (UInt32 × Nat) :=
  (decodeUnsignedLeb128 data ptr).map fun (value, ptr) => (value - 1, ptr)

/-- `DecodeSignedLeb128`: the groups read so far are sign-extended from the
    last one's top bit by a left and an arithmetic right shift; a fifth byte
    goes in whole. -/
def decodeSignedLeb128 (data : List UInt8) (ptr : Nat) : Option (Int32 × Nat) := do
  let one ← data[ptr]?
  let result : Int32 := one.toUInt32.toInt32
  if result ≤ 0x7f then pure ((result <<< (25 : Int32)) >>> (25 : Int32), ptr + 1)
  else
    let cur ← data[ptr + 1]?
    let result : Int32 :=
      (result &&& (0x7f : Int32)) ||| ((cur.toUInt32.toInt32 &&& (0x7f : Int32)) <<< (7 : Int32))
    if cur ≤ 0x7f then pure ((result <<< (18 : Int32)) >>> (18 : Int32), ptr + 2)
    else
      let cur ← data[ptr + 2]?
      let result : Int32 := result ||| ((cur.toUInt32.toInt32 &&& (0x7f : Int32)) <<< (14 : Int32))
      if cur ≤ 0x7f then pure ((result <<< (11 : Int32)) >>> (11 : Int32), ptr + 3)
      else
        let cur ← data[ptr + 3]?
        let result : Int32 :=
          result ||| ((cur.toUInt32.toInt32 &&& (0x7f : Int32)) <<< (21 : Int32))
        if cur ≤ 0x7f then pure ((result <<< (4 : Int32)) >>> (4 : Int32), ptr + 4)
        else
          -- as in the unsigned decoder, the fifth byte is not checked
          let cur ← data[ptr + 4]?
          pure (result ||| (cur.toUInt32.toInt32 <<< (28 : Int32)), ptr + 5)

example : decodeSignedLeb128 [0x7f] 0 = some (-1, 1) := by decide
example : decodeSignedLeb128 [0x80, 0x7f] 0 = some (-128, 2) := by decide

/-! ### The encoder -/

theorem pushBackLoop_of_lt {value : UInt32} (h : value.toNat < 128) :
    pushBackLoop value = [(value &&& 0x7f).toUInt8] := by
  rw [pushBackLoop]
  simp only [(lowGroup_eq_iff value).mpr h, ne_eq, not_true_eq_false, if_false]

theorem pushBackLoop_of_ge {value : UInt32} (h : 128 ≤ value.toNat) :
    pushBackLoop value = ((value &&& 0x7f).toUInt8 ||| 0x80) :: pushBackLoop (value >>> 7) := by
  rw [pushBackLoop]
  have hne : ((value &&& 0x7f).toUInt8).toUInt32 ≠ value :=
    fun heq => absurd ((lowGroup_eq_iff value).mp heq) (by omega)
  simp only [hne, ne_eq, not_false_eq_true, if_true]

/-- Every value takes a byte at least. -/
theorem pushBackLoop_ne_nil (value : UInt32) : pushBackLoop value ≠ [] := by
  by_cases h : value.toNat < 128
  · rw [pushBackLoop_of_lt h]
    exact List.cons_ne_nil _ _
  · rw [pushBackLoop_of_ge (by omega)]
    exact List.cons_ne_nil _ _

/-- A byte with more to come: the low seven bits with the top bit set. -/
theorem toNat_continued (value : UInt32) :
    ((value &&& 0x7f).toUInt8 ||| 0x80).toNat = value.toNat % 128 + 128 := by
  rw [UInt8.toNat_or, toNat_lowGroup, show (0x80 : UInt8).toNat = 1 * 2 ^ 7 from rfl,
    or_mul_two_pow_eq_add _ (by omega)]
  rfl

/-! ### The decoder -/

/-- The decoder's test for a continuation byte. -/
theorem continues_iff (b : UInt8) : b.toUInt32 > 0x7f ↔ 128 ≤ b.toNat := by
  rw [gt_iff_lt, UInt32.lt_iff_toNat_lt, UInt8.toNat_toUInt32]
  exact Iff.rfl

theorem toNat_group (b : UInt8) : (b.toUInt32 &&& 0x7f).toNat = b.toNat % 128 := by
  rw [toNat_and_mask b.toUInt32 0x7f (k := 7) rfl, UInt8.toNat_toUInt32]
  rfl

/-- One more group or-ed in above the `n` bits read so far, as the decoder
    does at each depth. -/
theorem toNat_or_group {acc : UInt32} {A : Nat} (b : UInt8) (k : UInt32) (n : Nat)
    (hk : k.toNat = n) (hn : n + 7 ≤ 32) (hA : acc.toNat = A) (hacc : A < 2 ^ n) :
    (acc ||| ((b.toUInt32 &&& 0x7f) <<< k)).toNat = A + b.toNat % 128 * 2 ^ n := by
  subst hk hA
  have hy : (b.toUInt32 &&& 0x7f).toNat * 2 ^ k.toNat < 2 ^ 32 := by
    rw [toNat_group]
    calc b.toNat % 128 * 2 ^ k.toNat < 2 ^ 7 * 2 ^ k.toNat :=
          Nat.mul_lt_mul_of_pos_right (Nat.mod_lt _ (by decide)) (Nat.two_pow_pos _)
      _ = 2 ^ (k.toNat + 7) := by rw [← Nat.pow_add, Nat.add_comm]
      _ ≤ 2 ^ 32 := Nat.pow_le_pow_right (by decide) hn
  rw [toNat_or_shiftLeft _ _ _ (by omega) hacc hy, toNat_group]

theorem toNat_groups_two (b0 b1 : UInt8) :
    ((b0.toUInt32 &&& 0x7f) ||| ((b1.toUInt32 &&& 0x7f) <<< (7 : UInt32))).toNat =
      b0.toNat % 128 + b1.toNat % 128 * 2 ^ 7 :=
  toNat_or_group b1 7 7 rfl (by decide) (toNat_group b0) (Nat.mod_lt _ (by decide))

theorem getElem?_length_add {α : Type} (pre rest : List α) (i : Nat) :
    (pre ++ rest)[pre.length + i]? = rest[i]? := by
  rw [List.getElem?_append_right (Nat.le_add_right _ _), Nat.add_sub_cancel_left]

section Depths

/-! The decoder at each of its five depths, reading at the end of `pre`: every
byte but the last has its top bit set. -/

variable (pre rest : List UInt8)

theorem decode_one (b0 : UInt8) (c0 : b0.toNat < 128) :
    decodeUnsignedLeb128 (pre ++ b0 :: rest) pre.length =
      some (.ofNat (b0.toNat % 128), pre.length + 1) := by
  have hc0 : ¬ b0.toUInt32 > 0x7f := by rw [continues_iff]; omega
  have h0 := getElem?_length_add pre (b0 :: rest) 0
  simp only [Nat.add_zero, List.getElem?_cons_zero] at h0
  simp only [decodeUnsignedLeb128, h0, Option.bind_eq_bind, Option.bind_some, if_neg hc0,
    Option.pure_def, Option.some.injEq, Prod.mk.injEq, and_true]
  rw [← UInt32.toNat_inj, UInt8.toNat_toUInt32,
    UInt32.toNat_ofNat_of_lt' (by simp only [UInt32.size]; omega)]
  omega

theorem decode_two (b0 b1 : UInt8) (c0 : 128 ≤ b0.toNat) (c1 : b1.toNat < 128) :
    decodeUnsignedLeb128 (pre ++ b0 :: b1 :: rest) pre.length =
      some (.ofNat (b0.toNat % 128 + b1.toNat % 128 * 2 ^ 7), pre.length + 2) := by
  have hc0 : b0.toUInt32 > 0x7f := (continues_iff b0).mpr c0
  have hc1 : ¬ b1.toUInt32 > 0x7f := by rw [continues_iff]; omega
  have h0 := getElem?_length_add pre (b0 :: b1 :: rest) 0
  have h1 := getElem?_length_add pre (b0 :: b1 :: rest) 1
  simp only [Nat.add_zero, List.getElem?_cons_zero, List.getElem?_cons_succ] at h0 h1
  simp only [decodeUnsignedLeb128, h0, h1, Option.bind_eq_bind, Option.bind_some, if_pos hc0,
    if_neg hc1, Option.pure_def, Option.some.injEq, Prod.mk.injEq, and_true]
  rw [← UInt32.toNat_inj, toNat_groups_two,
    UInt32.toNat_ofNat_of_lt' (by simp only [UInt32.size]; omega)]

theorem decode_three (b0 b1 b2 : UInt8) (c0 : 128 ≤ b0.toNat) (c1 : 128 ≤ b1.toNat)
    (c2 : b2.toNat < 128) :
    decodeUnsignedLeb128 (pre ++ b0 :: b1 :: b2 :: rest) pre.length =
      some (.ofNat (b0.toNat % 128 + b1.toNat % 128 * 2 ^ 7 + b2.toNat % 128 * 2 ^ 14),
        pre.length + 3) := by
  have hc0 : b0.toUInt32 > 0x7f := (continues_iff b0).mpr c0
  have hc1 : b1.toUInt32 > 0x7f := (continues_iff b1).mpr c1
  have hc2 : ¬ b2.toUInt32 > 0x7f := by rw [continues_iff]; omega
  have h0 := getElem?_length_add pre (b0 :: b1 :: b2 :: rest) 0
  have h1 := getElem?_length_add pre (b0 :: b1 :: b2 :: rest) 1
  have h2 := getElem?_length_add pre (b0 :: b1 :: b2 :: rest) 2
  simp only [Nat.add_zero, List.getElem?_cons_zero, List.getElem?_cons_succ] at h0 h1 h2
  simp only [decodeUnsignedLeb128, h0, h1, h2, Option.bind_eq_bind, Option.bind_some,
    if_pos hc0, if_pos hc1, if_neg hc2, Option.pure_def, Option.some.injEq, Prod.mk.injEq,
    and_true]
  have g2 := toNat_groups_two b0 b1
  have g3 := toNat_or_group b2 14 14 rfl (by decide) g2 (by omega)
  rw [← UInt32.toNat_inj, g3, UInt32.toNat_ofNat_of_lt' (by simp only [UInt32.size]; omega)]

theorem decode_four (b0 b1 b2 b3 : UInt8) (c0 : 128 ≤ b0.toNat) (c1 : 128 ≤ b1.toNat)
    (c2 : 128 ≤ b2.toNat) (c3 : b3.toNat < 128) :
    decodeUnsignedLeb128 (pre ++ b0 :: b1 :: b2 :: b3 :: rest) pre.length =
      some (.ofNat (b0.toNat % 128 + b1.toNat % 128 * 2 ^ 7 + b2.toNat % 128 * 2 ^ 14 +
        b3.toNat % 128 * 2 ^ 21), pre.length + 4) := by
  have hc0 : b0.toUInt32 > 0x7f := (continues_iff b0).mpr c0
  have hc1 : b1.toUInt32 > 0x7f := (continues_iff b1).mpr c1
  have hc2 : b2.toUInt32 > 0x7f := (continues_iff b2).mpr c2
  have hc3 : ¬ b3.toUInt32 > 0x7f := by rw [continues_iff]; omega
  have h0 := getElem?_length_add pre (b0 :: b1 :: b2 :: b3 :: rest) 0
  have h1 := getElem?_length_add pre (b0 :: b1 :: b2 :: b3 :: rest) 1
  have h2 := getElem?_length_add pre (b0 :: b1 :: b2 :: b3 :: rest) 2
  have h3 := getElem?_length_add pre (b0 :: b1 :: b2 :: b3 :: rest) 3
  simp only [Nat.add_zero, List.getElem?_cons_zero, List.getElem?_cons_succ] at h0 h1 h2 h3
  simp only [decodeUnsignedLeb128, h0, h1, h2, h3, Option.bind_eq_bind, Option.bind_some,
    if_pos hc0, if_pos hc1, if_pos hc2, if_neg hc3, Option.pure_def, Option.some.injEq,
    Prod.mk.injEq, and_true]
  have g2 := toNat_groups_two b0 b1
  have g3 := toNat_or_group b2 14 14 rfl (by decide) g2 (by omega)
  have g4 := toNat_or_group b3 21 21 rfl (by decide) g3 (by omega)
  rw [← UInt32.toNat_inj, g4, UInt32.toNat_ofNat_of_lt' (by simp only [UInt32.size]; omega)]

/-- Five bytes: the fifth goes in whole, shifted by `28`; it fits when it is
    below `16`. -/
theorem decode_five (b0 b1 b2 b3 b4 : UInt8) (c0 : 128 ≤ b0.toNat) (c1 : 128 ≤ b1.toNat)
    (c2 : 128 ≤ b2.toNat) (c3 : 128 ≤ b3.toNat) (c4 : b4.toNat < 16) :
    decodeUnsignedLeb128 (pre ++ b0 :: b1 :: b2 :: b3 :: b4 :: rest) pre.length =
      some (.ofNat (b0.toNat % 128 + b1.toNat % 128 * 2 ^ 7 + b2.toNat % 128 * 2 ^ 14 +
        b3.toNat % 128 * 2 ^ 21 + b4.toNat * 2 ^ 28), pre.length + 5) := by
  have hc0 : b0.toUInt32 > 0x7f := (continues_iff b0).mpr c0
  have hc1 : b1.toUInt32 > 0x7f := (continues_iff b1).mpr c1
  have hc2 : b2.toUInt32 > 0x7f := (continues_iff b2).mpr c2
  have hc3 : b3.toUInt32 > 0x7f := (continues_iff b3).mpr c3
  have h0 := getElem?_length_add pre (b0 :: b1 :: b2 :: b3 :: b4 :: rest) 0
  have h1 := getElem?_length_add pre (b0 :: b1 :: b2 :: b3 :: b4 :: rest) 1
  have h2 := getElem?_length_add pre (b0 :: b1 :: b2 :: b3 :: b4 :: rest) 2
  have h3 := getElem?_length_add pre (b0 :: b1 :: b2 :: b3 :: b4 :: rest) 3
  have h4 := getElem?_length_add pre (b0 :: b1 :: b2 :: b3 :: b4 :: rest) 4
  simp only [Nat.add_zero, List.getElem?_cons_zero, List.getElem?_cons_succ] at h0 h1 h2 h3 h4
  simp only [decodeUnsignedLeb128, h0, h1, h2, h3, h4, Option.bind_eq_bind, Option.bind_some,
    if_pos hc0, if_pos hc1, if_pos hc2, if_pos hc3, Option.pure_def, Option.some.injEq,
    Prod.mk.injEq, and_true]
  have g2 := toNat_groups_two b0 b1
  have g3 := toNat_or_group b2 14 14 rfl (by decide) g2 (by omega)
  have g4 := toNat_or_group b3 21 21 rfl (by decide) g3 (by omega)
  have g5 := toNat_or_shiftLeft _ b4.toUInt32 28 (by decide)
    (by rw [g4]; simp only [UInt32.reduceToNat]; omega)
    (by rw [UInt8.toNat_toUInt32]; simp only [UInt32.reduceToNat]; omega)
  rw [← UInt32.toNat_inj, g5, g4, UInt8.toNat_toUInt32,
    UInt32.toNat_ofNat_of_lt' (by simp only [UInt32.size]; omega)]
  rfl

end Depths

/-- The decoder's value, once its groups are known to make up `v`. -/
theorem decode_of_groups {data : List UInt8} {ptr k F : Nat} {v : UInt32}
    (h : decodeUnsignedLeb128 data ptr = some (.ofNat F, ptr + k)) (hF : F = v.toNat) :
    decodeUnsignedLeb128 data ptr = some (v, ptr + k) := by
  rw [h, hF, UInt32.ofNat_toNat]

/-- Decoding at the start of an encoded value gives the value back and the
    position just after it, whatever bytes come before and after. -/
theorem decodeUnsignedLeb128_pushBackLoop (pre post : List UInt8) (v : UInt32) :
    decodeUnsignedLeb128 (pre ++ pushBackLoop v ++ post) pre.length =
      some (v, pre.length + (pushBackLoop v).length) := by
  -- the value left after each round of the encoder
  have s1 := toNat_shiftRight_seven v
  have s2 := toNat_shiftRight_seven (v >>> 7)
  have s3 := toNat_shiftRight_seven (v >>> 7 >>> 7)
  have s4 := toNat_shiftRight_seven (v >>> 7 >>> 7 >>> 7)
  have hv := UInt32.toNat_lt v
  rw [List.append_assoc]
  -- one case for each number of bytes the encoder writes
  by_cases d1 : v.toNat < 128
  · rw [pushBackLoop_of_lt d1]
    exact decode_of_groups (decode_one pre post _ (by rw [toNat_lowGroup]; omega))
      (by rw [toNat_lowGroup]; omega)
  rw [pushBackLoop_of_ge (by omega)]
  by_cases d2 : (v >>> 7).toNat < 128
  · rw [pushBackLoop_of_lt d2]
    exact decode_of_groups
      (decode_two pre post _ _ (by rw [toNat_continued]; omega) (by rw [toNat_lowGroup]; omega))
      (by simp only [toNat_continued, toNat_lowGroup]; omega)
  rw [pushBackLoop_of_ge (by omega)]
  by_cases d3 : (v >>> 7 >>> 7).toNat < 128
  · rw [pushBackLoop_of_lt d3]
    exact decode_of_groups
      (decode_three pre post _ _ _ (by rw [toNat_continued]; omega)
        (by rw [toNat_continued]; omega) (by rw [toNat_lowGroup]; omega))
      (by simp only [toNat_continued, toNat_lowGroup]; omega)
  rw [pushBackLoop_of_ge (by omega)]
  by_cases d4 : (v >>> 7 >>> 7 >>> 7).toNat < 128
  · rw [pushBackLoop_of_lt d4]
    exact decode_of_groups
      (decode_four pre post _ _ _ _ (by rw [toNat_continued]; omega)
        (by rw [toNat_continued]; omega) (by rw [toNat_continued]; omega)
        (by rw [toNat_lowGroup]; omega))
      (by simp only [toNat_continued, toNat_lowGroup]; omega)
  -- a value of 32 bits has at most four left for the fifth byte
  have d5 : (v >>> 7 >>> 7 >>> 7 >>> 7).toNat < 128 := by omega
  rw [pushBackLoop_of_ge (by omega), pushBackLoop_of_lt d5]
  exact decode_of_groups
    (decode_five pre post _ _ _ _ _ (by rw [toNat_continued]; omega)
      (by rw [toNat_continued]; omega) (by rw [toNat_continued]; omega)
      (by rw [toNat_continued]; omega) (by rw [toNat_lowGroup]; omega))
    (by simp only [toNat_continued, toNat_lowGroup]; omega)

/-- A read that starts at the end of the data fails. -/
theorem decodeUnsignedLeb128_of_length_le {data : List UInt8} {ptr : Nat}
    (h : data.length ≤ ptr) : decodeUnsignedLeb128 data ptr = none := by
  simp only [decodeUnsignedLeb128, List.getElem?_eq_none h, Option.bind_eq_bind,
    Option.bind_none]

/-- Every value the decoder returns comes with a position past its start. -/
theorem lt_of_decodeUnsignedLeb128 {data : List UInt8} {ptr p : Nat} {v : UInt32}
    (h : decodeUnsignedLeb128 data ptr = some (v, p)) : ptr < p := by
  -- the five depths as a disjunction of bytes read and positions returned
  simp only [decodeUnsignedLeb128, Option.bind_eq_bind, Option.pure_def, Option.bind_eq_some_iff,
    ite_eq_iff, Option.some.injEq, Prod.mk.injEq] at h
  grind

theorem lt_of_decodeUnsignedLeb128P1 {data : List UInt8} {ptr p : Nat} {v : UInt32}
    (h : decodeUnsignedLeb128P1 data ptr = some (v, p)) : ptr < p := by
  obtain ⟨⟨v', p'⟩, hd, he⟩ := Option.map_eq_some_iff.mp h
  cases he
  exact lt_of_decodeUnsignedLeb128 hd

theorem lt_of_decodeSignedLeb128 {data : List UInt8} {ptr p : Nat} {v : Int32}
    (h : decodeSignedLeb128 data ptr = some (v, p)) : ptr < p := by
  simp only [decodeSignedLeb128, Option.bind_eq_bind, Option.pure_def, Option.bind_eq_some_iff,
    ite_eq_iff, Option.some.injEq, Prod.mk.injEq] at h
  grind

/-- What the encoder appends for a list of values. -/
theorem insertBack_eq (data : List UInt8) (values : List UInt32) :
    insertBack data values = data ++ values.flatMap pushBackLoop := by
  induction values generalizing data with
  | nil => simp [insertBack]
  | cons v vs ih =>
    rw [insertBack, List.foldl_cons, ← insertBack, ih, pushBack, List.flatMap_cons,
      List.append_assoc]

end Leb128

end ArtRuntime
