import ArtRuntime.Core.BitField
import ArtRuntime.Core.Word

/-!
# Thumb-2 Immediates

The ARM code generator loads a constant with one instruction when the
constant has an immediate encoding, and from a literal pool otherwise. Two
encodings are asked for. A data-processing instruction takes a 12-bit
"modified immediate" that the processor expands by `ThumbExpandImm` to a
byte, a byte repeated in two or four lanes, or a byte with its top bit set
rotated right by 8 to 31 places; `ModifiedImmediate` searches for one. A VFP
`vmov` takes an 8-bit immediate that `VFPExpandImm` expands to a float with
a 3-bit exponent range and 4 fraction bits; `EncodeImmSingle` and
`EncodeImmDouble` test a bit pattern for that shape. An encoder that
accepts a value it cannot encode makes the generated code load a different
constant, and one that refuses an encodable value costs a literal load: the
theorems here say neither happens, for every word.

The two float encoders differ only in their width and masks, so both are
shown equal to `vfpEncode`, their common body over the bit pattern as a
number, and what holds of them is proved once, for each width.
`ModifiedImmediate` tries its fixed patterns and then finds the run of set
bits by counting leading and trailing zeros; `leadingZeros_eq` and
`trailingZeros_eq` reduce those counts to `Nat.size` and to the power of two
the word is an odd multiple of, and from there each branch is arithmetic.
The manual's `ThumbExpandImm` and `VFPExpandImm` are not in the source:
`thumbExpandImm` and `vfpExpandImm` state them, and are the specification.

## Main definitions

* `encodeImmSingle`, `encodeImmDouble`: `EncodeImmSingle`, `EncodeImmDouble`.
* `vfpEncode`: Their common body, for a width and an exponent length.
* `leadingZeros`: `LeadingZeros`, a binary search for the highest set bit.
* `modifiedImmediate`: `ArmMir2Lir::ModifiedImmediate`.
* `modImmValue`, `fpImmValue`: Where `AssembleInstructions` places a
  `kFmtModImm` and a `kFmtFPImm` operand.
* `thumbExpandImm`, `vfpExpandImm`: The manual's expansions.
* `modImmField`, `fpImmField`: The manual's reading of those fields.

## Theorems

* `encodeImmSingle_eq`, `encodeImmDouble_eq`: Both encoders are `vfpEncode`.
* `vfpEncode_sound`, `vfpEncode_vfpExpandImm`: What `vfpEncode` accepts
  expands back to the pattern, and every expansion is accepted.
* `leadingZerosLoop_spec`, `leadingZeros_eq`, `trailingZeros_eq`: The loop
  of `LeadingZeros` and the two zero counts.
* `modifiedImmediate_eq`: `ModifiedImmediate` as arithmetic on the word.
* `thumbExpandImm_cases`: The five forms an expansion takes.
* `modifiedImmediate_sound`: An immediate `ModifiedImmediate` returns
  expands to the word.
* `modifiedImmediate_complete`: Every expansion of a 12-bit immediate is
  accepted.
* `modImmField_modImmValue`, `fpImmField_fpImmValue`: The placed fields read
  back as the immediate.
* `immediates_invert_expansion`: All three encoders invert the expansions.
-/

namespace ArtRuntime

namespace Arm

/-! ### The float encoders -/

/-- `EncodeImmSingle`: the 8-bit VFP immediate `a:b:cdefgh` of a single's
    bit pattern, or `-1`. The fields are `int`s in the source, read off the
    word by a mask and a shift. -/
def encodeImmSingle (value : UInt32) : Int :=
  let bit_a := ((value &&& 0x80000000) >>> 31).toNat
  let not_bit_b := ((value &&& 0x40000000) >>> 30).toNat
  let bit_b := ((value &&& 0x20000000) >>> 29).toNat
  let b_smear := ((value &&& 0x3e000000) >>> 25).toNat
  let slice := ((value &&& 0x01f80000) >>> 19).toNat
  let zeroes := (value &&& 0x0007ffff).toNat
  if zeroes ≠ 0 then -1
  else if bit_b ≠ 0 then
    if not_bit_b ≠ 0 ∨ b_smear ≠ 0x1f then -1 else ((bit_a <<< 7) ||| (bit_b <<< 6) ||| slice : Nat)
  else
    if not_bit_b ≠ 1 ∨ b_smear ≠ 0x0 then -1 else ((bit_a <<< 7) ||| (bit_b <<< 6) ||| slice : Nat)

/-- `EncodeImmDouble`: the same for a double's bit pattern. -/
def encodeImmDouble (value : UInt64) : Int :=
  let bit_a := ((value &&& 0x8000000000000000) >>> 63).toNat
  let not_bit_b := ((value &&& 0x4000000000000000) >>> 62).toNat
  let bit_b := ((value &&& 0x2000000000000000) >>> 61).toNat
  let b_smear := ((value &&& 0x3fc0000000000000) >>> 54).toNat
  let slice := ((value &&& 0x003f000000000000) >>> 48).toNat
  let zeroes := (value &&& 0x0000ffffffffffff).toNat
  if zeroes ≠ 0 then -1
  else if bit_b ≠ 0 then
    if not_bit_b ≠ 0 ∨ b_smear ≠ 0xff then -1 else ((bit_a <<< 7) ||| (bit_b <<< 6) ||| slice : Nat)
  else
    if not_bit_b ≠ 1 ∨ b_smear ≠ 0x0 then -1 else ((bit_a <<< 7) ||| (bit_b <<< 6) ||| slice : Nat)

/-- The body both encoders share, for an `N`-bit float with `E` exponent
    bits: the sign at `N - 1`, the inverted and the repeated exponent bit
    below it, the `E - 3` copies of that bit ending at `N - E + 1`, then
    six bits `cdefgh`, and zeros under them. -/
def vfpEncode (N E x : Nat) : Int :=
  let bit_a := x / 2 ^ (N - 1) % 2
  let not_bit_b := x / 2 ^ (N - 2) % 2
  let bit_b := x / 2 ^ (N - 3) % 2
  let b_smear := x / 2 ^ (N - E + 1) % 2 ^ (E - 3)
  let slice := x / 2 ^ (N - E - 5) % 2 ^ 6
  let zeroes := x % 2 ^ (N - E - 5)
  if zeroes ≠ 0 then -1
  else if bit_b ≠ 0 then
    if not_bit_b ≠ 0 ∨ b_smear ≠ 2 ^ (E - 3) - 1 then -1 else ((bit_a <<< 7) ||| (bit_b <<< 6) ||| slice : Nat)
  else
    if not_bit_b ≠ 1 ∨ b_smear ≠ 0 then -1 else ((bit_a <<< 7) ||| (bit_b <<< 6) ||| slice : Nat)

/-- `VFPExpandImm(imm8, N)` of the ARM Architecture Reference Manual: the
    sign `imm8<7>`, the exponent `NOT(b):Replicate(b, E-3):imm8<5:4>` for
    `b = imm8<6>`, and the fraction `imm8<3:0>` followed by zeros. -/
def vfpExpandImm (N imm8 : Nat) : Nat :=
  let E := if N = 32 then 8 else 11
  let F := N - E - 1
  let sign := imm8 / 2 ^ 7 % 2
  let b := imm8 / 2 ^ 6 % 2
  let exp := (1 - b) * 2 ^ (E - 1) + b * (2 ^ (E - 3) - 1) * 2 ^ 2 + imm8 / 2 ^ 4 % 2 ^ 2
  let frac := imm8 % 2 ^ 4 * 2 ^ (F - 4)
  sign * 2 ^ (N - 1) + exp * 2 ^ F + frac

theorem encodeImmSingle_eq (value : UInt32) : encodeImmSingle value = vfpEncode 32 8 value.toNat := by
  have ha := BitField.toNat_and_shiftRight32 value 0x80000000 31 31 1 rfl (by decide) rfl
  have hnb := BitField.toNat_and_shiftRight32 value 0x40000000 30 30 1 rfl (by decide) rfl
  have hb := BitField.toNat_and_shiftRight32 value 0x20000000 29 29 1 rfl (by decide) rfl
  have hsmear := BitField.toNat_and_shiftRight32 value 0x3e000000 25 25 5 rfl (by decide) rfl
  have hslice := BitField.toNat_and_shiftRight32 value 0x01f80000 19 19 6 rfl (by decide) rfl
  have hzero : (value &&& 0x0007ffff).toNat = value.toNat % 2 ^ 19 := by
    rw [UInt32.toNat_and, show (0x0007ffff : UInt32).toNat = 2 ^ 19 - 1 from rfl,
      Nat.and_two_pow_sub_one_eq_mod]
  simp only [encodeImmSingle, vfpEncode, ha, hnb, hb, hsmear, hslice, hzero]
  rfl

theorem encodeImmDouble_eq (value : UInt64) : encodeImmDouble value = vfpEncode 64 11 value.toNat := by
  have ha := BitField.toNat_and_shiftRight64 value 0x8000000000000000 63 63 1 rfl (by decide) rfl
  have hnb := BitField.toNat_and_shiftRight64 value 0x4000000000000000 62 62 1 rfl (by decide) rfl
  have hb := BitField.toNat_and_shiftRight64 value 0x2000000000000000 61 61 1 rfl (by decide) rfl
  have hsmear := BitField.toNat_and_shiftRight64 value 0x3fc0000000000000 54 54 8 rfl (by decide) rfl
  have hslice := BitField.toNat_and_shiftRight64 value 0x003f000000000000 48 48 6 rfl (by decide) rfl
  have hzero : (value &&& 0x0000ffffffffffff).toNat = value.toNat % 2 ^ 48 := by
    rw [UInt64.toNat_and, show (0x0000ffffffffffff : UInt64).toNat = 2 ^ 48 - 1 from rfl,
      Nat.and_two_pow_sub_one_eq_mod]
  simp only [encodeImmDouble, vfpEncode, ha, hnb, hb, hsmear, hslice, hzero]
  rfl

/-! ### The float encoders against `VFPExpandImm` -/

section Vfp

variable {N E : Nat}

/-- The result's three fields do not overlap, so its ors are sums. -/
theorem pack_eq_add (a x k j : Nat) :
    (a <<< 7) ||| ((x / 2 ^ k % 2) <<< 6) ||| (x / 2 ^ j % 2 ^ 6) =
      a * 2 ^ 7 + x / 2 ^ k % 2 * 2 ^ 6 + x / 2 ^ j % 2 ^ 6 := by
  have hb : x / 2 ^ k % 2 < 2 := Nat.mod_lt _ (by decide)
  have hab : a <<< 7 ||| (x / 2 ^ k % 2) <<< 6 = a * 2 ^ 7 + x / 2 ^ k % 2 * 2 ^ 6 := by
    rw [Nat.shiftLeft_eq, Nat.shiftLeft_eq]
    exact BitField.or_eq_add_of_dvd (by omega) (Nat.dvd_mul_left _ _)
  rw [hab]
  exact BitField.or_eq_add_of_dvd (Nat.mod_lt _ (by decide)) (by omega)

/-- The fields `vfpEncode` reads of an expansion: the zeros, the sign, the
    inverted and the repeated exponent bit, and `cdefgh`. -/
theorem vfpExpandImm_fields (hNE : (N = 32 ∧ E = 8) ∨ (N = 64 ∧ E = 11)) (e : Nat) :
    vfpExpandImm N e % 2 ^ (N - E - 5) = 0 ∧
    vfpExpandImm N e / 2 ^ (N - 1) % 2 = e / 2 ^ 7 % 2 ∧
    vfpExpandImm N e / 2 ^ (N - 2) % 2 = 1 - e / 2 ^ 6 % 2 ∧
    vfpExpandImm N e / 2 ^ (N - 3) % 2 = e / 2 ^ 6 % 2 ∧
    vfpExpandImm N e / 2 ^ (N - E + 1) % 2 ^ (E - 3) = e / 2 ^ 6 % 2 * (2 ^ (E - 3) - 1) ∧
    vfpExpandImm N e / 2 ^ (N - E - 5) % 2 ^ 6 = e % 2 ^ 6 := by
  rcases hNE with ⟨rfl, rfl⟩ | ⟨rfl, rfl⟩
  all_goals
    simp only [vfpExpandImm, ↓reduceIte, Nat.reduceEqDiff, Nat.reducePow, Nat.reduceSub, Nat.reduceAdd]
    -- the exponent's two halves depend on `b`: fix it, and each field is linear
    rcases Nat.mod_two_eq_zero_or_one (e / 64) with hb | hb <;> simp only [hb] <;>
      refine ⟨?_, ?_, ?_, ?_, ?_, ?_⟩ <;> omega

theorem vfpExpandImm_lt (hNE : (N = 32 ∧ E = 8) ∨ (N = 64 ∧ E = 11)) (e : Nat) :
    vfpExpandImm N e < 2 ^ N := by
  rcases hNE with ⟨rfl, rfl⟩ | ⟨rfl, rfl⟩
  all_goals
    simp only [vfpExpandImm, ↓reduceIte, Nat.reduceEqDiff, Nat.reducePow, Nat.reduceSub]
    rcases Nat.mod_two_eq_zero_or_one (e / 64) with hb | hb <;> simp only [hb] <;> omega

/-- An `N`-bit pattern is fixed by the five fields `vfpEncode` reads. -/
theorem eq_of_vfpFields (hNE : (N = 32 ∧ E = 8) ∨ (N = 64 ∧ E = 11)) {x y : Nat}
    (hx : x < 2 ^ N) (hy : y < 2 ^ N) (hzero : x % 2 ^ (N - E - 5) = y % 2 ^ (N - E - 5))
    (ha : x / 2 ^ (N - 1) % 2 = y / 2 ^ (N - 1) % 2) (hnb : x / 2 ^ (N - 2) % 2 = y / 2 ^ (N - 2) % 2)
    (hsmear : x / 2 ^ (N - E + 1) % 2 ^ (E - 3) = y / 2 ^ (N - E + 1) % 2 ^ (E - 3))
    (hslice : x / 2 ^ (N - E - 5) % 2 ^ 6 = y / 2 ^ (N - E - 5) % 2 ^ 6) : x = y := by
  rcases hNE with ⟨rfl, rfl⟩ | ⟨rfl, rfl⟩
  all_goals
    simp only [Nat.reducePow, Nat.reduceSub, Nat.reduceAdd] at *
    omega

/-- Every expansion is accepted, and encodes to the immediate it came from. -/
theorem vfpEncode_vfpExpandImm (hNE : (N = 32 ∧ E = 8) ∨ (N = 64 ∧ E = 11)) {e : Nat}
    (he : e < 2 ^ 8) : vfpEncode N E (vfpExpandImm N e) = e := by
  obtain ⟨h0, ha, hnb, hb, hsmear, hslice⟩ := vfpExpandImm_fields hNE e
  simp only [vfpEncode, pack_eq_add]
  simp only [h0, ha, hnb, hb, hsmear, hslice]
  -- the checks `vfpEncode` makes all hold, on either side of the exponent bit
  rcases Nat.mod_two_eq_zero_or_one (e / 2 ^ 6) with hbit | hbit
  · simp only [hbit, Nat.zero_mul, ne_eq, not_true_eq_false, ↓reduceIte, Nat.sub_zero, false_or]
    omega
  · simp only [hbit, Nat.one_mul, ne_eq, one_ne_zero, not_false_eq_true, ↓reduceIte, Nat.sub_self,
      not_true_eq_false, or_self]
    omega

/-- What `vfpEncode` accepts is an 8-bit immediate that expands back to the
    pattern. -/
theorem vfpEncode_sound (hNE : (N = 32 ∧ E = 8) ∨ (N = 64 ∧ E = 11)) {x e : Nat}
    (hx : x < 2 ^ N) (h : vfpEncode N E x = e) : e < 2 ^ 8 ∧ vfpExpandImm N e = x := by
  simp only [vfpEncode, pack_eq_add] at h
  have hbit : x / 2 ^ (N - 3) % 2 < 2 := Nat.mod_lt _ (by decide)
  -- both accepting branches leave the same facts: zeros at the bottom, the
  -- exponent bit inverted above it and repeated below it
  suffices hfields : x % 2 ^ (N - E - 5) = 0 ∧ x / 2 ^ (N - 2) % 2 = 1 - x / 2 ^ (N - 3) % 2 ∧
      x / 2 ^ (N - E + 1) % 2 ^ (E - 3) = x / 2 ^ (N - 3) % 2 * (2 ^ (E - 3) - 1) ∧
      e = x / 2 ^ (N - 1) % 2 * 2 ^ 7 + x / 2 ^ (N - 3) % 2 * 2 ^ 6 + x / 2 ^ (N - E - 5) % 2 ^ 6 by
    obtain ⟨h0, hnb, hsmear, rfl⟩ := hfields
    have ha : x / 2 ^ (N - 1) % 2 < 2 := Nat.mod_lt _ (by decide)
    have hslice : x / 2 ^ (N - E - 5) % 2 ^ 6 < 2 ^ 6 := Nat.mod_lt _ (by decide)
    refine ⟨by omega, ?_⟩
    obtain ⟨y0, ya, ynb, yb, ysmear, yslice⟩ := vfpExpandImm_fields hNE
      (x / 2 ^ (N - 1) % 2 * 2 ^ 7 + x / 2 ^ (N - 3) % 2 * 2 ^ 6 + x / 2 ^ (N - E - 5) % 2 ^ 6)
    have hb_eq : (x / 2 ^ (N - 1) % 2 * 2 ^ 7 + x / 2 ^ (N - 3) % 2 * 2 ^ 6 +
        x / 2 ^ (N - E - 5) % 2 ^ 6) / 2 ^ 6 % 2 = x / 2 ^ (N - 3) % 2 := by omega
    rw [hb_eq] at ynb ysmear
    refine eq_of_vfpFields hNE (vfpExpandImm_lt hNE _) hx (y0.trans h0.symm) ?_ (ynb.trans hnb.symm)
      (ysmear.trans hsmear.symm) ?_
    · rw [ya]
      omega
    · rw [yslice]
      omega
  -- the refusing branches end at `-1 = e`, which `split_ifs` discards
  split_ifs at h with h0 hb hcheck hcheck'
  · -- the exponent bit is set: the bit above it is clear and the copies are all set
    refine ⟨not_not.1 h0, ?_, ?_, (Int.ofNat.inj h).symm⟩
    · omega
    · rw [show x / 2 ^ (N - 3) % 2 = 1 by omega, Nat.one_mul]
      omega
  · -- the exponent bit is clear: the bit above it is set and the copies are all clear
    refine ⟨not_not.1 h0, ?_, ?_, (Int.ofNat.inj h).symm⟩
    · omega
    · rw [show x / 2 ^ (N - 3) % 2 = 0 by omega, Nat.zero_mul]
      omega

/-- At either width, `vfpEncode` accepts exactly the expansions, and what it
    returns expands back to the pattern. -/
theorem vfpEncode_spec (hNE : (N = 32 ∧ E = 8) ∨ (N = 64 ∧ E = 11)) {x : Nat} (hx : x < 2 ^ N) :
    (0 ≤ vfpEncode N E x ↔ ∃ e < 2 ^ 8, vfpExpandImm N e = x) ∧
      ∀ e : Nat, vfpEncode N E x = e → e < 2 ^ 8 ∧ vfpExpandImm N e = x := by
  refine ⟨⟨fun h => ?_, ?_⟩, fun e he => vfpEncode_sound hNE hx he⟩
  · obtain ⟨e, he⟩ := Int.eq_ofNat_of_zero_le h
    obtain ⟨hlt, hexp⟩ := vfpEncode_sound hNE hx he
    exact ⟨e, hlt, hexp⟩
  · rintro ⟨e, he, rfl⟩
    rw [vfpEncode_vfpExpandImm hNE he]
    exact Int.natCast_nonneg e

end Vfp

/-! ### `ModifiedImmediate` -/

/-- The `do`/`while` loop of `LeadingZeros` from `count` on: a round moves
    `val` down by `count` bits when anything is left above them, taking
    `count` from `n`, and the loop halves `count` until it is zero. -/
def leadingZerosLoop (count n : Nat) (val : UInt32) : Nat × UInt32 :=
  let alt := val >>> count.toUInt32
  let n := if alt ≠ 0 then n - count else n
  let val := if alt ≠ 0 then alt else val
  if count >>> 1 = 0 then (n, val) else leadingZerosLoop (count >>> 1) n val
termination_by count
decreasing_by
  rw [Nat.shiftRight_eq_div_pow] at *
  omega

/-- `LeadingZeros`: the zeros above the highest set bit, by a binary search
    over halves, quarters and so on of the word; `n - val` takes the last bit. -/
def leadingZeros (val : UInt32) : Nat :=
  let r := leadingZerosLoop 16 32 val
  r.1 - r.2.toNat

/-- `ArmMir2Lir::ModifiedImmediate`: the 12-bit `i:imm3:a:bcdefgh` of a word,
    or `-1`. A byte, a byte in lanes 0 and 2, in all four lanes, or in lanes 1
    and 3 is encoded directly; otherwise the set bits must span at most
    eight places, and the immediate is the seven bits below the highest one
    with the rotation that brings that bit back to bit 7. -/
def modifiedImmediate (value : UInt32) : Int :=
  let b0 := value &&& 0xff
  if value ≤ 0xFF then b0.toNat
  else if value = (b0 <<< 16) ||| b0 then (((0x1 : UInt32) <<< 8) ||| b0).toNat
  else if value = (b0 <<< 24) ||| (b0 <<< 16) ||| (b0 <<< 8) ||| b0 then (((0x3 : UInt32) <<< 8) ||| b0).toNat
  else
    let b0 := (value >>> 8) &&& 0xff
    if value = (b0 <<< 24) ||| (b0 <<< 8) then (((0x2 : UInt32) <<< 8) ||| b0).toNat
    else
      let z_leading := leadingZeros value
      let z_trailing := 32 - leadingZeros (~~~value &&& (value - 1))
      if z_leading + z_trailing < 24 then -1
      else
        -- left-justify, dropping the top bit, and keep the seven below it
        let value := value <<< (z_leading + 1).toUInt32
        let value := value >>> 25
        (value ||| ((0x8 + z_leading).toUInt32 <<< 7)).toNat

/-- `ThumbExpandImm(imm12)` of the ARM Architecture Reference Manual, `none`
    where it is UNPREDICTABLE: with `imm12<11:10> = '00'` the byte
    `imm12<7:0>` is placed in the lanes `imm12<9:8>` names, and otherwise
    `'1':imm12<6:0>` is rotated right by `imm12<11:7>`. -/
def thumbExpandImm (imm12 : Nat) : Option Nat :=
  let imm8 := imm12 % 2 ^ 8
  if imm12 / 2 ^ 10 % 2 ^ 2 = 0 then
    match imm12 / 2 ^ 8 % 2 ^ 2 with
    | 0 => some imm8
    | 1 => if imm8 = 0 then none else some (imm8 * 2 ^ 16 + imm8)
    | 2 => if imm8 = 0 then none else some (imm8 * 2 ^ 24 + imm8 * 2 ^ 8)
    | _ => if imm8 = 0 then none else some (imm8 * 2 ^ 24 + imm8 * 2 ^ 16 + imm8 * 2 ^ 8 + imm8)
  else
    let unrotated_value := 2 ^ 7 + imm12 % 2 ^ 7
    some ((BitVec.ofNat 32 unrotated_value).rotateRight (imm12 / 2 ^ 7 % 2 ^ 5)).toNat

/-- One round of the loop, on a value below `2 ^ (2 * count)`: what is left
    is below `2 ^ count`, and `n` drops by exactly the bits shifted out. -/
theorem leadingZerosLoop_round {count n : Nat} {val : UInt32} (hc : 0 < count) (hc32 : count < 32)
    (hval : val.toNat < 2 ^ (2 * count)) (hn : val.toNat.size ≤ n) :
    let alt := val >>> count.toUInt32
    (if alt ≠ 0 then alt else val).toNat < 2 ^ count ∧
      (if alt ≠ 0 then alt else val).toNat.size ≤ (if alt ≠ 0 then n - count else n) ∧
      (if alt ≠ 0 then n - count else n) + val.toNat.size =
        n + (if alt ≠ 0 then alt else val).toNat.size := by
  intro alt
  have halt : alt.toNat = val.toNat / 2 ^ count := by
    rw [UInt32.toNat_shiftRight, Nat.toUInt32_eq, UInt32.toNat_ofNat',
      Nat.mod_eq_of_lt (by omega : count < 2 ^ 32), Nat.mod_eq_of_lt hc32, Nat.shiftRight_eq_div_pow]
  by_cases h0 : alt = 0
  · -- nothing above `count` bits: the value stays, and is already small
    have hsmall : val.toNat < 2 ^ count := by
      have := congrArg UInt32.toNat h0
      rw [halt, UInt32.toNat_zero, Nat.div_eq_zero_iff_lt (Nat.two_pow_pos _)] at this
      exact this
    simp only [h0, ne_eq, not_true_eq_false, ↓reduceIte]
    exact ⟨hsmall, hn, trivial⟩
  · -- the top half is kept, and its bit length is `count` less
    have hpos : 2 ^ count ≤ val.toNat := by
      have hne : alt.toNat ≠ 0 := fun e => h0 (UInt32.toNat_inj.mp (by rw [e]; rfl))
      rw [halt] at hne
      exact Nat.le_of_not_lt fun hlt => hne (Nat.div_eq_of_lt hlt)
    have hsize : count < val.toNat.size := Nat.lt_size.2 hpos
    have hsize' : alt.toNat.size = val.toNat.size - count := by
      rw [halt, BitField.size_div_two_pow]
    simp only [h0, ne_eq, not_false_eq_true, ↓reduceIte]
    refine ⟨?_, by omega, by omega⟩
    rw [halt, Nat.div_lt_iff_lt_mul (Nat.two_pow_pos _), ← Nat.pow_add]
    rwa [show count + count = 2 * count by omega]

/-- The loop from `count = 2 ^ k`, on a value below `2 ^ (2 ^ (k + 1))`,
    ends with one bit at most left, and with `n` less every bit it shifted
    out. -/
theorem leadingZerosLoop_spec (k : Nat) (hk : k < 5) :
    ∀ (n : Nat) (val : UInt32), val.toNat < 2 ^ (2 ^ (k + 1)) → val.toNat.size ≤ n →
      (leadingZerosLoop (2 ^ k) n val).2.toNat < 2 ∧
        (leadingZerosLoop (2 ^ k) n val).1 + val.toNat.size =
          n + (leadingZerosLoop (2 ^ k) n val).2.toNat.size := by
  -- induction on the halvings left: `count` runs through 2 ^ k, ..., 2, 1
  induction k with
  | zero =>
    intro n val hval hn
    obtain ⟨hlt, -, heq⟩ := leadingZerosLoop_round (Nat.two_pow_pos 0) (by decide) hval hn
    rw [leadingZerosLoop]
    -- `1 >>> 1` is zero: this was the last round
    exact ⟨hlt, heq⟩
  | succ k ih =>
    intro n val hval hn
    have hc32 : 2 ^ (k + 1) < 32 :=
      lt_of_le_of_lt (Nat.pow_le_pow_right (by decide) (by omega : k + 1 ≤ 4)) (by decide)
    have hwidth : 2 ^ (k + 1 + 1) = 2 * 2 ^ (k + 1) := by rw [Nat.pow_succ, Nat.mul_comm]
    obtain ⟨hlt, hsz, heq⟩ := leadingZerosLoop_round (Nat.two_pow_pos (k + 1)) hc32
      (by rwa [hwidth] at hval) hn
    have hhalf : 2 ^ (k + 1) >>> 1 = 2 ^ k := by
      rw [Nat.shiftRight_eq_div_pow, Nat.pow_succ, Nat.pow_one, Nat.mul_div_cancel _ (by decide)]
    rw [leadingZerosLoop]
    simp only [hhalf, (Nat.two_pow_pos k).ne', ↓reduceIte]
    obtain ⟨h1, h2⟩ := ih (by omega) _ _ hlt hsz
    exact ⟨h1, by omega⟩

/-- `LeadingZeros` is the width less the bit length, so `32` for zero. -/
theorem leadingZeros_eq (val : UInt32) : leadingZeros val = 32 - val.toNat.size := by
  obtain ⟨hlast, heq⟩ := leadingZerosLoop_spec 4 (by decide) 32 val val.toNat_lt
    (Nat.size_le.2 val.toNat_lt)
  -- the loop leaves one bit at most, and `n - val` counts it
  have hbit : (leadingZerosLoop (2 ^ 4) 32 val).2.toNat.size = (leadingZerosLoop (2 ^ 4) 32 val).2.toNat := by
    rcases (by omega : (leadingZerosLoop (2 ^ 4) 32 val).2.toNat = 0 ∨
        (leadingZerosLoop (2 ^ 4) 32 val).2.toNat = 1) with h | h <;> rw [h] <;> rfl
  show (leadingZerosLoop (2 ^ 4) 32 val).1 - (leadingZerosLoop (2 ^ 4) 32 val).2.toNat = _
  omega

/-- `32 - LeadingZeros(~v & (v - 1))` counts the zeros below the lowest set
    bit: `t` for an odd multiple of `2 ^ t`. -/
theorem trailingZeros_eq (value : UInt32) {t m : Nat} (hv : value.toNat = 2 ^ t * (2 * m + 1)) :
    32 - leadingZeros (~~~value &&& (value - 1)) = t := by
  have hlow : 2 ^ t ≤ value.toNat := by
    rw [hv]
    exact Nat.le_mul_of_pos_right _ (by omega)
  have ht : t < 32 := (Nat.pow_lt_pow_iff_right (by decide)).1 (lt_of_le_of_lt hlow value.toNat_lt)
  rw [leadingZeros_eq, BitField.toNat_not_and_sub_one value hv, BitField.size_two_pow_sub_one]
  omega

section Lanes

variable {y : UInt32}

/-- A byte shifted into a lane of the word. -/
theorem toNat_byte_shiftLeft (hy : y.toNat < 2 ^ 8) (s : UInt32) (k : Nat) (hs : s.toNat = k)
    (hk : k ≤ 24) : (y <<< s).toNat = y.toNat * 2 ^ k := by
  refine BitField.toNat_shiftLeft32 y s k hs (by omega) ?_
  calc y.toNat * 2 ^ k < 2 ^ 8 * 2 ^ k := Nat.mul_lt_mul_of_pos_right hy (Nat.two_pow_pos _)
    _ ≤ 2 ^ 8 * 2 ^ 24 := Nat.mul_le_mul_left _ (Nat.pow_le_pow_right (by decide) hk)
    _ = 2 ^ 32 := by rw [← Nat.pow_add]

/-- A byte in lanes 0 and 2. -/
theorem toNat_lanes02 (hy : y.toNat < 2 ^ 8) :
    ((y <<< 16) ||| y).toNat = y.toNat * 2 ^ 16 + y.toNat := by
  rw [UInt32.toNat_or, toNat_byte_shiftLeft hy 16 16 rfl (by decide)]
  exact BitField.or_eq_add_of_dvd (by omega) (Nat.dvd_mul_left _ _)

/-- A byte in all four lanes. -/
theorem toNat_lanes0123 (hy : y.toNat < 2 ^ 8) :
    ((y <<< 24) ||| (y <<< 16) ||| (y <<< 8) ||| y).toNat =
      y.toNat * 2 ^ 24 + y.toNat * 2 ^ 16 + y.toNat * 2 ^ 8 + y.toNat := by
  rw [UInt32.toNat_or, UInt32.toNat_or, UInt32.toNat_or, toNat_byte_shiftLeft hy 24 24 rfl (by decide),
    toNat_byte_shiftLeft hy 16 16 rfl (by decide), toNat_byte_shiftLeft hy 8 8 rfl (by decide)]
  -- each lane sits above the ones or-ed in after it
  have h24 : y.toNat * 2 ^ 24 ||| y.toNat * 2 ^ 16 = y.toNat * 2 ^ 24 + y.toNat * 2 ^ 16 :=
    BitField.or_eq_add_of_dvd (k := 24) (by omega) (Nat.dvd_mul_left _ _)
  have h16 : y.toNat * 2 ^ 24 + y.toNat * 2 ^ 16 ||| y.toNat * 2 ^ 8 =
      y.toNat * 2 ^ 24 + y.toNat * 2 ^ 16 + y.toNat * 2 ^ 8 :=
    BitField.or_eq_add_of_dvd (k := 16) (by omega) (by omega)
  rw [h24, h16]
  exact BitField.or_eq_add_of_dvd (k := 8) hy (by omega)

/-- A byte in lanes 1 and 3. -/
theorem toNat_lanes13 (hy : y.toNat < 2 ^ 8) :
    ((y <<< 24) ||| (y <<< 8)).toNat = y.toNat * 2 ^ 24 + y.toNat * 2 ^ 8 := by
  rw [UInt32.toNat_or, toNat_byte_shiftLeft hy 24 24 rfl (by decide),
    toNat_byte_shiftLeft hy 8 8 rfl (by decide)]
  exact BitField.or_eq_add_of_dvd (by omega) (Nat.dvd_mul_left _ _)

/-- An encoding `imm3:a` above the byte `bcdefgh`. -/
theorem toNat_tag (t : UInt32) (ht : t.toNat < 2 ^ 4) (hy : y.toNat < 2 ^ 8) :
    ((t <<< 8) ||| y).toNat = t.toNat * 2 ^ 8 + y.toNat := by
  rw [UInt32.toNat_or, toNat_byte_shiftLeft (by omega) 8 8 rfl (by decide)]
  exact BitField.or_eq_add_of_dvd hy (Nat.dvd_mul_left _ _)

end Lanes

/-- The rotation form: seven bits below the top one, under `8 + z_leading`. -/
theorem toNat_rotation (value : UInt32) {z : Nat} (hz : z ≤ 32) :
    (((value <<< (z + 1).toUInt32) >>> 25) ||| ((0x8 + z).toUInt32 <<< 7)).toNat =
      (8 + z) * 2 ^ 7 + value.toNat * 2 ^ ((z + 1) % 32) % 2 ^ 32 / 2 ^ 25 := by
  have hshift : (value <<< (z + 1).toUInt32).toNat = value.toNat * 2 ^ ((z + 1) % 32) % 2 ^ 32 := by
    rw [UInt32.toNat_shiftLeft, Nat.toUInt32_eq, UInt32.toNat_ofNat',
      Nat.mod_eq_of_lt (by omega : z + 1 < 2 ^ 32), Nat.shiftLeft_eq]
  have hlow : ((value <<< (z + 1).toUInt32) >>> 25).toNat =
      value.toNat * 2 ^ ((z + 1) % 32) % 2 ^ 32 / 2 ^ 25 := by
    rw [UInt32.toNat_shiftRight, hshift, Nat.shiftRight_eq_div_pow]
    rfl
  have hhigh : ((0x8 + z).toUInt32 <<< 7).toNat = (8 + z) * 2 ^ 7 := by
    have hval : (0x8 + z).toUInt32.toNat = 8 + z := by
      rw [Nat.toUInt32_eq, UInt32.toNat_ofNat', Nat.mod_eq_of_lt (by omega)]
    rw [BitField.toNat_shiftLeft32 _ 7 7 rfl (by decide) (by rw [hval]; omega), hval]
  rw [UInt32.toNat_or, hlow, hhigh, Nat.lor_comm]
  refine BitField.or_eq_add_of_dvd ?_ (Nat.dvd_mul_left _ _)
  rw [Nat.div_lt_iff_lt_mul (Nat.two_pow_pos _), ← Nat.pow_add]
  exact Nat.mod_lt _ (Nat.two_pow_pos _)

/-- `ModifiedImmediate` on the word as a number: each fixed pattern as a sum
    of lanes, and the rotation form as arithmetic. -/
theorem modifiedImmediate_eq (value : UInt32) :
    modifiedImmediate value =
      if value.toNat ≤ 255 then ((value.toNat % 2 ^ 8 : Nat) : Int)
      else if value.toNat = value.toNat % 2 ^ 8 * 2 ^ 16 + value.toNat % 2 ^ 8 then
        ((1 * 2 ^ 8 + value.toNat % 2 ^ 8 : Nat) : Int)
      else if value.toNat = value.toNat % 2 ^ 8 * 2 ^ 24 + value.toNat % 2 ^ 8 * 2 ^ 16 +
          value.toNat % 2 ^ 8 * 2 ^ 8 + value.toNat % 2 ^ 8 then
        ((3 * 2 ^ 8 + value.toNat % 2 ^ 8 : Nat) : Int)
      else if value.toNat = value.toNat / 2 ^ 8 % 2 ^ 8 * 2 ^ 24 + value.toNat / 2 ^ 8 % 2 ^ 8 * 2 ^ 8 then
        ((2 * 2 ^ 8 + value.toNat / 2 ^ 8 % 2 ^ 8 : Nat) : Int)
      else if leadingZeros value + (32 - leadingZeros (~~~value &&& (value - 1))) < 24 then -1
      else (((8 + leadingZeros value) * 2 ^ 7 +
        value.toNat * 2 ^ ((leadingZeros value + 1) % 32) % 2 ^ 32 / 2 ^ 25 : Nat) : Int) := by
  have hb0 : (value &&& 0xff).toNat = value.toNat % 2 ^ 8 := MachineWord.toNat_and_mask value 0xff rfl
  have hb1 : ((value >>> 8) &&& 0xff).toNat = value.toNat / 2 ^ 8 % 2 ^ 8 :=
    MachineWord.toNat_field value 8 0xff (by decide) rfl
  have hlt0 : (value &&& 0xff).toNat < 2 ^ 8 := by
    rw [hb0]
    exact Nat.mod_lt _ (by decide)
  have hlt1 : ((value >>> 8) &&& 0xff).toNat < 2 ^ 8 := by
    rw [hb1]
    exact Nat.mod_lt _ (by decide)
  have hz : leadingZeros value ≤ 32 := by
    rw [leadingZeros_eq]
    omega
  simp only [modifiedImmediate, UInt32.le_iff_toNat_le, ← UInt32.toNat_inj, toNat_lanes02 hlt0,
    toNat_lanes0123 hlt0, toNat_lanes13 hlt1, toNat_tag 1 (by decide) hlt0, toNat_tag 3 (by decide) hlt0,
    toNat_tag 2 (by decide) hlt1, toNat_rotation value hz, hb0, hb1]
  rfl

/-! ### `ThumbExpandImm` -/

section Expand

variable {b : Nat}

theorem thumbExpandImm_byte (hb : b < 2 ^ 8) : thumbExpandImm b = some b := by
  have hsel : b / 2 ^ 8 % 2 ^ 2 = 0 := by omega
  simp only [thumbExpandImm, hsel, Nat.mod_eq_of_lt hb, show b / 2 ^ 10 % 2 ^ 2 = 0 by omega, ↓reduceIte]

theorem thumbExpandImm_lanes02 (hb : b < 2 ^ 8) (hb0 : b ≠ 0) :
    thumbExpandImm (1 * 2 ^ 8 + b) = some (b * 2 ^ 16 + b) := by
  have hsel : (1 * 2 ^ 8 + b) / 2 ^ 8 % 2 ^ 2 = 1 := by omega
  simp only [thumbExpandImm, hsel, show (1 * 2 ^ 8 + b) % 2 ^ 8 = b by omega,
    show (1 * 2 ^ 8 + b) / 2 ^ 10 % 2 ^ 2 = 0 by omega, hb0, ↓reduceIte]

theorem thumbExpandImm_lanes13 (hb : b < 2 ^ 8) (hb0 : b ≠ 0) :
    thumbExpandImm (2 * 2 ^ 8 + b) = some (b * 2 ^ 24 + b * 2 ^ 8) := by
  have hsel : (2 * 2 ^ 8 + b) / 2 ^ 8 % 2 ^ 2 = 2 := by omega
  simp only [thumbExpandImm, hsel, show (2 * 2 ^ 8 + b) % 2 ^ 8 = b by omega,
    show (2 * 2 ^ 8 + b) / 2 ^ 10 % 2 ^ 2 = 0 by omega, hb0, ↓reduceIte]

theorem thumbExpandImm_lanes0123 (hb : b < 2 ^ 8) (hb0 : b ≠ 0) :
    thumbExpandImm (3 * 2 ^ 8 + b) = some (b * 2 ^ 24 + b * 2 ^ 16 + b * 2 ^ 8 + b) := by
  have hsel : (3 * 2 ^ 8 + b) / 2 ^ 8 % 2 ^ 2 = 3 := by omega
  simp only [thumbExpandImm, hsel, show (3 * 2 ^ 8 + b) % 2 ^ 8 = b by omega,
    show (3 * 2 ^ 8 + b) / 2 ^ 10 % 2 ^ 2 = 0 by omega, hb0, ↓reduceIte]

/-- The rotation form: the byte `y`, top bit set, rotated right by `r`. -/
theorem thumbExpandImm_rotate {r y : Nat} (hr : 8 ≤ r) (hr32 : r < 32) (hy : 2 ^ 7 ≤ y) (hy8 : y < 2 ^ 8) :
    thumbExpandImm (r * 2 ^ 7 + (y - 2 ^ 7)) = some (y * 2 ^ (32 - r)) := by
  have hsel : (r * 2 ^ 7 + (y - 2 ^ 7)) / 2 ^ 10 % 2 ^ 2 ≠ 0 := by omega
  have hrot : (r * 2 ^ 7 + (y - 2 ^ 7)) / 2 ^ 7 % 2 ^ 5 = r := by omega
  have hun : 2 ^ 7 + (r * 2 ^ 7 + (y - 2 ^ 7)) % 2 ^ 7 = y := by omega
  simp only [thumbExpandImm, hsel, ↓reduceIte, hrot, hun, BitField.toNat_rotateRight_byte hy8 hr hr32]

/-- Every expansion of a 12-bit immediate is one of the five forms. -/
theorem thumbExpandImm_cases {e x : Nat} (he : e < 2 ^ 12) (h : thumbExpandImm e = some x) :
    x < 2 ^ 8 ∨
    (0 < e % 2 ^ 8 ∧ x = e % 2 ^ 8 * 2 ^ 16 + e % 2 ^ 8) ∨
    (0 < e % 2 ^ 8 ∧ x = e % 2 ^ 8 * 2 ^ 24 + e % 2 ^ 8 * 2 ^ 8) ∨
    (0 < e % 2 ^ 8 ∧ x = e % 2 ^ 8 * 2 ^ 24 + e % 2 ^ 8 * 2 ^ 16 + e % 2 ^ 8 * 2 ^ 8 + e % 2 ^ 8) ∨
    ∃ r y, 8 ≤ r ∧ r < 32 ∧ 2 ^ 7 ≤ y ∧ y < 2 ^ 8 ∧ x = y * 2 ^ (32 - r) := by
  simp only [thumbExpandImm] at h
  split at h
  · -- a byte in the lanes `imm12<9:8>` names
    split at h
    · left
      rw [← Option.some.inj h]
      exact Nat.mod_lt _ (by decide)
    all_goals
      split at h
      · cases h
      · rename_i hb
        have hx := (Option.some.inj h).symm
        omega
  · -- a rotated byte
    have hrot := BitField.toNat_rotateRight_byte (y := 2 ^ 7 + e % 2 ^ 7) (r := e / 2 ^ 7 % 2 ^ 5)
      (by omega) (by omega) (by omega)
    rw [hrot] at h
    exact .inr (.inr (.inr (.inr ⟨_, _, by omega, by omega, by omega, by omega, (Option.some.inj h).symm⟩)))

end Expand

/-! ### `ModifiedImmediate` against `ThumbExpandImm` -/

/-- The rotation branch: when the set bits of `x` span at most eight places,
    the immediate it computes rotates the run's top byte back onto `x`. -/
theorem rotation_sound {x t m : Nat} (hx : x < 2 ^ 32) (hbig : 2 ^ 8 ≤ x)
    (hodd : x = 2 ^ t * (2 * m + 1)) (hspan : ¬(32 - x.size) + t < 24) :
    (8 + (32 - x.size)) * 2 ^ 7 + x * 2 ^ ((32 - x.size + 1) % 32) % 2 ^ 32 / 2 ^ 25 < 2 ^ 12 ∧
      thumbExpandImm ((8 + (32 - x.size)) * 2 ^ 7 +
        x * 2 ^ ((32 - x.size + 1) % 32) % 2 ^ 32 / 2 ^ 25) = some x := by
  have hsize : 8 < x.size := Nat.lt_size.2 hbig
  have hsize32 : x.size ≤ 32 := Nat.size_le.2 hx
  -- the run starts `s` places up, and its top bit is at `s + 7`
  obtain ⟨s, hs⟩ : ∃ s, x.size = s + 8 := ⟨x.size - 8, by omega⟩
  rw [hs]
  have hdvd : 2 ^ s ∣ x := by
    rw [hodd]
    exact Dvd.dvd.mul_right (Nat.pow_dvd_pow 2 (by omega)) _
  obtain ⟨y, hy⟩ := hdvd
  have hylo : 2 ^ 7 ≤ y := by
    have hlo : 2 ^ (s + 7) ≤ x := Nat.lt_size.1 (by omega)
    rw [hy, Nat.pow_add] at hlo
    exact Nat.le_of_mul_le_mul_left hlo (Nat.two_pow_pos s)
  have hyhi : y < 2 ^ 8 := by
    have hhi : x < 2 ^ (s + 8) := hs ▸ Nat.lt_size_self x
    rw [hy, Nat.pow_add] at hhi
    exact Nat.lt_of_mul_lt_mul_left hhi
  -- left-justifying puts the run's top bit at bit 31, so `y` fills bits 25 to 32
  have hshift : x * 2 ^ ((32 - (s + 8) + 1) % 32) = y * 2 ^ 25 := by
    rw [Nat.mod_eq_of_lt (by omega), hy, Nat.mul_comm (2 ^ s) y, Nat.mul_assoc, ← Nat.pow_add,
      show s + (32 - (s + 8) + 1) = 25 by omega]
  have himm : x * 2 ^ ((32 - (s + 8) + 1) % 32) % 2 ^ 32 / 2 ^ 25 = y - 2 ^ 7 := by
    rw [hshift]
    omega
  rw [himm]
  refine ⟨by omega, ?_⟩
  rw [thumbExpandImm_rotate (by omega) (by omega) hylo hyhi, hy, Nat.mul_comm,
    show 32 - (8 + (32 - (s + 8))) = s by omega]

/-- An immediate `ModifiedImmediate` returns is 12 bits and expands to the
    word, in every branch. -/
theorem modifiedImmediate_sound (value : UInt32) {e : Nat} (h : modifiedImmediate value = e) :
    e < 2 ^ 12 ∧ thumbExpandImm e = some value.toNat := by
  have hx := value.toNat_lt
  rw [modifiedImmediate_eq] at h
  -- the refusing branch ends at `-1 = e`, which `split_ifs` discards
  split_ifs at h with h1 h2 h3 h4 h5
  · -- a byte
    obtain rfl := Int.ofNat.inj h
    rw [Nat.mod_eq_of_lt (by omega)]
    exact ⟨by omega, thumbExpandImm_byte (by omega)⟩
  · -- a byte in lanes 0 and 2
    obtain rfl := Int.ofNat.inj h
    refine ⟨by omega, ?_⟩
    rw [thumbExpandImm_lanes02 (Nat.mod_lt _ (by decide)) (by omega), ← h2]
  · -- a byte in all four lanes
    obtain rfl := Int.ofNat.inj h
    refine ⟨by omega, ?_⟩
    rw [thumbExpandImm_lanes0123 (Nat.mod_lt _ (by decide)) (by omega), ← h3]
  · -- a byte in lanes 1 and 3
    obtain rfl := Int.ofNat.inj h
    refine ⟨by omega, ?_⟩
    rw [thumbExpandImm_lanes13 (Nat.mod_lt _ (by decide)) (by omega), ← h4]
  · -- a rotated run of at most eight bits
    obtain ⟨t, m', ⟨m, rfl⟩, hxt⟩ := Nat.exists_eq_two_pow_mul_odd (n := value.toNat) (by omega)
    rw [trailingZeros_eq value hxt, leadingZeros_eq] at h5
    rw [leadingZeros_eq] at h
    obtain rfl := Int.ofNat.inj h
    exact rotation_sound hx (by omega) hxt h5

/-- Every word `ThumbExpandImm` produces from a 12-bit immediate is accepted:
    one of the fixed patterns matches, or its run spans at most eight places. -/
theorem modifiedImmediate_complete (value : UInt32) {e : Nat} (he : e < 2 ^ 12)
    (h : thumbExpandImm e = some value.toNat) : 0 ≤ modifiedImmediate value := by
  by_contra hneg
  rw [modifiedImmediate_eq] at hneg
  -- every branch but the refusing one returns a number
  split_ifs at hneg with h1 h2 h3 h4 h5 <;> try omega
  -- `omega` would try to read the expansion itself: only its five forms are needed
  rcases thumbExpandImm_cases he h with hbyte | ⟨-, hx2⟩ | ⟨-, hx13⟩ | ⟨-, hx4⟩ |
      ⟨r, y, hr, hr32, hy, hy8, hxr⟩ <;> clear h
  · exact h1 (by omega)
  -- a lane pattern: the word's own byte is the immediate's, so its check matches
  · rw [show value.toNat % 2 ^ 8 = e % 2 ^ 8 by omega] at h2
    exact h2 hx2
  · rw [show value.toNat / 2 ^ 8 % 2 ^ 8 = e % 2 ^ 8 by omega] at h4
    exact h4 hx13
  · rw [show value.toNat % 2 ^ 8 = e % 2 ^ 8 by omega] at h3
    exact h3 hx4
  · -- the run of `y * 2 ^ (32 - r)` starts at `32 - r` and has eight bits
    obtain ⟨t, m', ⟨m, rfl⟩, hxt⟩ :=
      Nat.exists_eq_two_pow_mul_odd (n := value.toNat)
        (by rw [hxr]; exact Nat.ne_of_gt (Nat.mul_pos (by omega) (Nat.two_pow_pos _)))
    rw [trailingZeros_eq value hxt, leadingZeros_eq] at h5
    have hlo : 2 ^ (32 - r + 7) ≤ value.toNat := by
      rw [hxr, Nat.pow_add, Nat.mul_comm]
      exact Nat.mul_le_mul_right _ hy
    have hhi : value.toNat < 2 ^ (32 - r + 7 + 1) := by
      rw [hxr, show 32 - r + 7 + 1 = 8 + (32 - r) by omega, Nat.pow_add]
      exact Nat.mul_lt_mul_of_pos_right hy8 (Nat.two_pow_pos _)
    have hsize := BitField.size_eq_of_bounds hlo hhi
    have ht : 32 - r ≤ t := BitField.le_of_two_pow_dvd ⟨y, by rw [← hxt, hxr, Nat.mul_comm]⟩
    omega

/-! ### Placing the immediates -/

/-- The `kFmtModImm` case of `AssembleInstructions`: `i` to bit 26, `imm3`
    to bits 14..12 and `imm8` to bits 7..0. -/
def modImmValue (operand : UInt32) : UInt32 :=
  (((operand &&& 0x800) >>> 11) <<< 26) ||| (((operand &&& 0x700) >>> 8) <<< 12) ||| (operand &&& 0x0ff)

/-- `i:imm3:imm8`, as the manual reads a Thumb-2 data-processing
    (modified immediate) encoding. -/
def modImmField (bits : UInt32) : Nat :=
  bits.toNat / 2 ^ 26 % 2 * 2 ^ 11 + bits.toNat / 2 ^ 12 % 2 ^ 3 * 2 ^ 8 + bits.toNat % 2 ^ 8

/-- The `kFmtFPImm` case: `imm4H` to the bits from `end`, `imm4L` to those
    from `start`; `vmov` places them at 16 and 0. -/
def fpImmValue (operand : UInt32) (end_ start : UInt32) : UInt32 :=
  (((operand &&& 0xF0) >>> 4) <<< end_) ||| ((operand &&& 0x0F) <<< start)

/-- `imm4H:imm4L`, as the manual reads a VFP `vmov` immediate. -/
def fpImmField (bits : UInt32) : Nat :=
  bits.toNat / 2 ^ 16 % 2 ^ 4 * 2 ^ 4 + bits.toNat % 2 ^ 4

/-- The manual reads `i`, `imm3` and `imm8` back off their bits. -/
theorem modImmField_of_toNat {bits : UInt32} {i imm3 imm8 : Nat} (hi : i < 2 ^ 1) (h3 : imm3 < 2 ^ 3)
    (h8 : imm8 < 2 ^ 8) (hbits : bits.toNat = i * 2 ^ 26 + imm3 * 2 ^ 12 + imm8) :
    modImmField bits = i * 2 ^ 11 + imm3 * 2 ^ 8 + imm8 := by
  rw [modImmField, hbits]
  omega

/-- A 12-bit number is its `i:imm3:imm8` fields. -/
theorem twelve_bits {e : Nat} (he : e < 2 ^ 12) :
    e / 2 ^ 11 % 2 ^ 1 * 2 ^ 11 + e / 2 ^ 8 % 2 ^ 3 * 2 ^ 8 + e % 2 ^ 8 = e := by
  omega

/-- A 12-bit immediate placed by `kFmtModImm` reads back whole. -/
theorem modImmField_modImmValue {e : Nat} (he : e < 2 ^ 12) :
    modImmField (modImmValue e.toUInt32) = e := by
  have hE : e.toUInt32.toNat = e := by
    rw [MachineWord.toNat_toUInt32]
    omega
  have hi := BitField.toNat_and_shiftRight32 e.toUInt32 0x800 11 11 1 rfl (by decide) rfl
  have h3 := BitField.toNat_and_shiftRight32 e.toUInt32 0x700 8 8 3 rfl (by decide) rfl
  have h8 : (e.toUInt32 &&& 0x0ff).toNat = e % 2 ^ 8 := by
    rw [MachineWord.toNat_and_mask _ 0x0ff (show (0x0ff : UInt32).toNat = 2 ^ 8 - 1 from rfl), hE]
  rw [hE] at hi h3
  -- the three fields land in disjoint bits, so the ors are sums
  have hval : (modImmValue e.toUInt32).toNat = e / 2 ^ 11 % 2 ^ 1 * 2 ^ 26 + e / 2 ^ 8 % 2 ^ 3 * 2 ^ 12 +
      e % 2 ^ 8 := by
    rw [modImmValue, UInt32.toNat_or, UInt32.toNat_or,
      BitField.toNat_shiftLeft32 _ 26 26 rfl (by decide) (by rw [hi]; omega),
      BitField.toNat_shiftLeft32 _ 12 12 rfl (by decide) (by rw [h3]; omega), hi, h3, h8]
    have hhigh : e / 2 ^ 11 % 2 ^ 1 * 2 ^ 26 ||| e / 2 ^ 8 % 2 ^ 3 * 2 ^ 12 =
        e / 2 ^ 11 % 2 ^ 1 * 2 ^ 26 + e / 2 ^ 8 % 2 ^ 3 * 2 ^ 12 :=
      BitField.or_eq_add_of_dvd (k := 26) (by omega) (Nat.dvd_mul_left _ _)
    rw [hhigh]
    exact BitField.or_eq_add_of_dvd (k := 8) (by omega) (by omega)
  rw [modImmField_of_toNat (Nat.mod_lt _ (by decide)) (Nat.mod_lt _ (by decide)) (Nat.mod_lt _ (by decide))
    hval]
  exact twelve_bits he

/-- A `vmov` immediate placed by `kFmtFPImm` at 16 and 0 reads back whole. -/
theorem fpImmField_fpImmValue {e : Nat} (he : e < 2 ^ 8) : fpImmField (fpImmValue e.toUInt32 16 0) = e := by
  have hE : e.toUInt32.toNat = e := by
    rw [MachineWord.toNat_toUInt32]
    omega
  have hH := BitField.toNat_and_shiftRight32 e.toUInt32 0xF0 4 4 4 rfl (by decide) rfl
  have hL : (e.toUInt32 &&& 0x0F).toNat = e % 2 ^ 4 := by
    rw [MachineWord.toNat_and_mask _ 0x0F (show (0x0F : UInt32).toNat = 2 ^ 4 - 1 from rfl), hE]
  rw [hE] at hH
  have hval : (fpImmValue e.toUInt32 16 0).toNat = e / 2 ^ 4 % 2 ^ 4 * 2 ^ 16 + e % 2 ^ 4 := by
    rw [fpImmValue, UInt32.toNat_or, BitField.toNat_shiftLeft32 _ 16 16 rfl (by decide) (by rw [hH]; omega),
      BitField.toNat_shiftLeft32 _ 0 0 rfl (by decide) (by rw [hL]; omega), hH, hL]
    rw [Nat.pow_zero, Nat.mul_one]
    exact BitField.or_eq_add_of_dvd (k := 16) (by omega) (Nat.dvd_mul_left _ _)
  rw [fpImmField, hval]
  omega

/-! ### The encoders invert the expansions -/

/-- `ModifiedImmediate` accepts exactly the expansions of 12-bit immediates,
    and what it returns expands back to the word, also when read off the
    bits `kFmtModImm` places it in. -/
theorem modifiedImmediate_spec (v : UInt32) :
    (0 ≤ modifiedImmediate v ↔ ∃ e < 2 ^ 12, thumbExpandImm e = some v.toNat) ∧
      ∀ e : Nat, modifiedImmediate v = e →
        e < 2 ^ 12 ∧ thumbExpandImm e = some v.toNat ∧
          thumbExpandImm (modImmField (modImmValue e.toUInt32)) = some v.toNat := by
  refine ⟨⟨fun h => ?_, fun ⟨e, he, hexp⟩ => modifiedImmediate_complete v he hexp⟩, fun e he => ?_⟩
  · obtain ⟨e, he⟩ := Int.eq_ofNat_of_zero_le h
    obtain ⟨hlt, hexp⟩ := modifiedImmediate_sound v he
    exact ⟨e, hlt, hexp⟩
  · obtain ⟨hlt, hexp⟩ := modifiedImmediate_sound v he
    refine ⟨hlt, hexp, ?_⟩
    rw [modImmField_modImmValue hlt]
    exact hexp

/-- The three immediate encoders invert the manual's expansions, for every
    word: `ModifiedImmediate` returns an immediate exactly when the word is
    the expansion of a 12-bit one, and then a 12-bit one that expands, once
    placed as `i:imm3:imm8`, to the word; `EncodeImmSingle` and
    `EncodeImmDouble` return an 8-bit immediate exactly when the pattern is a
    `VFPExpandImm` of one, and then one that expands to it. -/
theorem immediates_invert_expansion :
    (∀ v : UInt32,
      (0 ≤ modifiedImmediate v ↔ ∃ e < 2 ^ 12, thumbExpandImm e = some v.toNat) ∧
      ∀ e : Nat, modifiedImmediate v = e →
        e < 2 ^ 12 ∧ thumbExpandImm e = some v.toNat ∧
          thumbExpandImm (modImmField (modImmValue e.toUInt32)) = some v.toNat) ∧
    (∀ v : UInt32,
      (0 ≤ encodeImmSingle v ↔ ∃ e < 2 ^ 8, vfpExpandImm 32 e = v.toNat) ∧
      ∀ e : Nat, encodeImmSingle v = e → e < 2 ^ 8 ∧ vfpExpandImm 32 e = v.toNat) ∧
    (∀ v : UInt64,
      (0 ≤ encodeImmDouble v ↔ ∃ e < 2 ^ 8, vfpExpandImm 64 e = v.toNat) ∧
      ∀ e : Nat, encodeImmDouble v = e → e < 2 ^ 8 ∧ vfpExpandImm 64 e = v.toNat) := by
  refine ⟨modifiedImmediate_spec, fun v => ?_, fun v => ?_⟩
  · -- a single is the 32-bit body with an 8-bit exponent
    rw [encodeImmSingle_eq]
    exact vfpEncode_spec (.inl ⟨rfl, rfl⟩) v.toNat_lt
  · -- a double is the 64-bit body with an 11-bit exponent
    rw [encodeImmDouble_eq]
    exact vfpEncode_spec (.inr ⟨rfl, rfl⟩) v.toNat_lt

end Arm

end ArtRuntime
