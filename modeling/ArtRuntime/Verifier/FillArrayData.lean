import ArtRuntime.Core.Bytes
import ArtRuntime.Core.Word
import ArtRuntime.Dex.Instruction

/-!
# fill-array-data

`fill-array-data vAA, +BBBBBBBB` copies a table of constants, stored in the
method's code as an array-data payload, into the primitive array in `vAA`.
Three pieces of code look at the payload, each with its own arithmetic:

* the verifier's `CheckArrayData` computes the table's size in `uint32_t` as
  `4 + (width * count + 1) / 2` and checks that it ends inside the code;
* the verifier's type check of `FILL_ARRAY_DATA` compares `width` with the
  array's component size;
* the runtime (the interpreter's `FILL_ARRAY_DATA` case and the compiled
  code's `artHandleFillArrayDataFromCode`) compares the count, cast to
  `int32_t`, with the array's length and copies `count * width` bytes,
  computed in `uint32_t`.

With a count below `2 ^ 31` and a product that does not wrap, the three agree
and the runtime does what the instruction means (`copyArrayData_spec`,
`fillArrayData_verified`). A count of `2 ^ 31` or more is negative as an
`int32_t`, so the runtime never throws for it, and for an even width the
verifier's product wraps to a small table: the verifier accepts a five-unit
payload with `0x80000001` two-byte elements, and the runtime then copies two
bytes into a `short[0]` (`fillArrayData_negative_count`).

## Main definitions

* `checkArrayData`: `MethodVerifier::CheckArrayData`.
* `verifyFillArrayData`: The type check of `FILL_ARRAY_DATA`.
* `ArrayDataPayload`, `payloadOf`: The payload an instruction names.
* `PrimArray`: A primitive array and its element storage.
* `copyArrayData`, `artHandleFillArrayDataFromCode`, `executeFillArrayData`:
  The runtime.
* `FillSpec`: What a fill of a non-null array is meant to do.

## Theorems

* `checkArrayData_payload`: An accepted payload holds the table the verifier
  sized.
* `verifyFillArrayData_width`: The type check fixes the payload's width.
* `copyArrayData_spec`: Without wrap-around the runtime meets `FillSpec`.
* `fillArrayData_verified`: Verified code meets `FillSpec` on both paths, for
  counts below `2 ^ 31` whose `width * count + 1` does not wrap.
* `copyArrayData_no_throw`: A count of `2 ^ 31` or more never throws.
* `fillArrayData_negative_count`: A verified method whose fill writes past
  an empty array.
-/

namespace ArtRuntime

namespace FillArrayData

open Instruction MachineWord

/-! ### The verifier -/

/-- A code unit at a signed index from the start of the code; `none` outside
    the code item. -/
def fetchAt (insns : List UInt16) (i : Int) : Option UInt16 :=
  if 0 ≤ i then insns[i.toNat]? else none

/-- `VRegB_31t` of the instruction at `cur`, as the unsigned word `Fetch32(1)`
    reads; the code casts it to `int32_t`. -/
def vRegB31t (insns : List UInt16) (cur : Nat) : Option UInt32 := do
  let lo ← insns[cur + 1]?
  let hi ← insns[cur + 2]?
  pure (fetch32 lo hi)

/-- `MethodVerifier::CheckArrayData` for the instruction at `cur_offset`,
    whose code starts at address `insnsAddr`. `false` is a hard failure. The
    start check is `int32_t` arithmetic and the end checks `uint32_t`; the
    table start is the pointer `insns + array_data_offset`. -/
def checkArrayData (code : CodeItem) (insnsAddr : Nat) (cur_offset : UInt32) : Option Bool := do
  let insn_count := code.insnsSize
  let offset ← vRegB31t code.insns cur_offset.toNat
  let array_data_offset := offset.toInt32
  if cur_offset.toInt32 + array_data_offset < 0 ∨
      cur_offset + array_data_offset.toUInt32 + 2 ≥ insn_count then pure false
  else
    let array_data : Int := cur_offset.toNat + array_data_offset.toInt
    if (insnsAddr + 2 * array_data) % 4 ≠ 0 then pure false
    else
      let value_width ← fetchAt code.insns (array_data + 1)
      let lo ← fetchAt code.insns (array_data + 2)
      let hi ← fetchAt code.insns (array_data + 3)
      let value_count := fetch32 lo hi
      let table_size : UInt32 := 4 + (value_width.toUInt32 * value_count + 1) / 2
      pure !(cur_offset + array_data_offset.toUInt32 + table_size > insn_count)

/-- What the type check of `FILL_ARRAY_DATA` knows of the register `vAA`. -/
inductive ArrayRegType
  /-- `IsZero`: the null constant; the check is skipped. -/
  | zero
  /-- Not `IsArrayTypes`. -/
  | notArray
  /-- An array whose component `IsNonZeroReferenceTypes`. -/
  | referenceArray
  /-- A primitive array, with `Primitive::ComponentSize` of its component. -/
  | primitiveArray (componentSize : Nat)
  deriving DecidableEq, Repr

/-- The `FILL_ARRAY_DATA` case of `CodeFlowVerifyInstruction`: for a
    primitive array, the payload's `ident` and `width` must match. It reads
    the payload without a bounds check of its own. -/
def verifyFillArrayData (code : CodeItem) (cur : Nat) : ArrayRegType → Option Bool
  | .zero => pure true
  | .notArray => pure false
  | .referenceArray => pure false
  | .primitiveArray elem_width => do
      let offset ← vRegB31t code.insns cur
      let array_data : Int := cur + offset.toInt32.toInt
      let ident ← fetchAt code.insns array_data
      if ident ≠ kArrayDataSignature then pure false
      else
        let width ← fetchAt code.insns (array_data + 1)
        pure (width.toNat = elem_width)

/-- The checks a `fill-array-data` at `cur` passes in a method the verifier
    accepts: the walk of `ComputeWidthsAndCountOps` ends where the code does
    and reaches `cur`, the opcode there is `FILL_ARRAY_DATA`, and
    `CheckArrayData` and the type check succeed. -/
def verifiesFill (code : CodeItem) (insnsAddr : Nat) (cur : UInt32) (t : ArrayRegType) : Bool :=
  computeWidthsAndCountOps code == some true &&
    (match instructionStarts code with
     | some starts => starts.contains cur.toNat
     | none => false) &&
    (code.insns[cur.toNat]?.map opcode == some FILL_ARRAY_DATA) &&
    checkArrayData code insnsAddr cur == some true &&
    verifyFillArrayData code cur.toNat t == some true

/-! ### The runtime -/

/-- The bytes of code units, in the little-endian order the payload's `data`
    reads them. -/
def codeUnitBytes (units : List UInt16) : List UInt8 :=
  units.flatMap (fun u => ByteList.leEncode 2 u.toNat)

/-- `Instruction::ArrayDataPayload`; `data` is every byte from the payload's
    `data` to the end of the code item. -/
structure ArrayDataPayload where
  ident : UInt16
  element_width : UInt16
  element_count : UInt32
  data : List UInt8
  deriving DecidableEq, Repr

/-- The payload at code unit `p`. -/
def readPayload (insns : List UInt16) (p : Int) : Option ArrayDataPayload := do
  let ident ← fetchAt insns p
  let element_width ← fetchAt insns (p + 1)
  let lo ← fetchAt insns (p + 2)
  let hi ← fetchAt insns (p + 3)
  pure ⟨ident, element_width, fetch32 lo hi, codeUnitBytes (insns.drop (p + 4).toNat)⟩

/-- The payload of the instruction at `cur`: `inst + inst->VRegB_31t()`. -/
def payloadOf (insns : List UInt16) (cur : Nat) : Option ArrayDataPayload := do
  let offset ← vRegB31t insns cur
  readPayload insns (cur + offset.toInt32.toInt)

/-- A primitive array: `GetLength()`, never negative as an `int32_t`, and
    the element storage `GetRawData`, `length` elements of `componentSize`
    bytes. -/
structure PrimArray where
  componentSize : Nat
  length : Nat
  length_lt : length < 2 ^ 31
  data : List UInt8
  data_length : data.length = length * componentSize

/-- How a fill ends: an exception, the array's new storage, or a `memcpy`
    that leaves the element storage or the code item. -/
inductive FillResult
  | nullPointer
  | arrayIndexOutOfBounds (length index : Int32)
  | filled (data : List UInt8)
  | outOfBounds
  deriving DecidableEq, Repr

/-- `memcpy(dst, src, n)`, `none` when either side is shorter than `n`. -/
def memcpy (dst src : List UInt8) (n : Nat) : Option (List UInt8) :=
  if n ≤ dst.length ∧ n ≤ src.length then some (src.take n ++ dst.drop n) else none

/-- The fill both runtime paths perform on a non-null array: the count, cast
    to `int32_t`, against the length, then a `uint32_t` byte count. The two
    paths differ only in the index their exception message reports. -/
def copyArrayData (reportedIndex : UInt32 → Int32) (array : PrimArray)
    (payload : ArrayDataPayload) : FillResult :=
  if payload.element_count.toInt32 > Int32.ofNat array.length then
    .arrayIndexOutOfBounds (Int32.ofNat array.length) (reportedIndex payload.element_count)
  else
    let size_in_bytes : UInt32 := payload.element_count * payload.element_width.toUInt32
    match memcpy array.data payload.data size_in_bytes.toNat with
    | some data => .filled data
    | none => .outOfBounds

/-- `artHandleFillArrayDataFromCode`; its message reports `element_count - 1`. -/
def artHandleFillArrayDataFromCode (array : Option PrimArray) (payload : ArrayDataPayload) :
    FillResult :=
  match array with
  | none => .nullPointer
  | some a => copyArrayData (fun count => (count - 1).toInt32) a payload

/-- The interpreter's `FILL_ARRAY_DATA` at `pc`: the null check, then the
    payload at `inst + VRegB_31t()`; its message reports `element_count`. -/
def executeFillArrayData (insns : List UInt16) (pc : Nat) (array : Option PrimArray) :
    Option FillResult :=
  match array with
  | none => some .nullPointer
  | some a => (payloadOf insns pc).map (copyArrayData (fun count => count.toInt32) a)

/-! ### What a fill is for -/

/-- A fill of a non-null array, as the instruction means it: it throws
    exactly when the payload has more elements than the array, and otherwise
    copies `element_count * element_width` bytes (without wrap-around) from
    the payload into the front of the storage. -/
def FillSpec (a : PrimArray) (p : ArrayDataPayload) : FillResult → Prop
  | .arrayIndexOutOfBounds _ _ => a.length < p.element_count.toNat
  | .filled d =>
      p.element_count.toNat ≤ a.length ∧
        d = p.data.take (p.element_count.toNat * p.element_width.toNat) ++
          a.data.drop (p.element_count.toNat * p.element_width.toNat)
  | .nullPointer => False
  | .outOfBounds => False

instance (a : PrimArray) (p : ArrayDataPayload) : DecidablePred (FillSpec a p)
  | .arrayIndexOutOfBounds _ _ => inferInstanceAs (Decidable (_ < _))
  | .filled _ => inferInstanceAs (Decidable (_ ∧ _))
  | .nullPointer => inferInstanceAs (Decidable False)
  | .outOfBounds => inferInstanceAs (Decidable False)

/-! ### The verifier's guarantees -/

@[simp] theorem length_codeUnitBytes (units : List UInt16) :
    (codeUnitBytes units).length = 2 * units.length := by
  induction units with
  | nil => rfl
  | cons u us ih =>
      simp only [codeUnitBytes, List.flatMap_cons, List.length_append, ByteList.length_leEncode,
        List.length_cons] at ih ⊢
      rw [ih]
      ring

theorem fetchAt_isSome (insns : List UInt16) (i : Nat) (h : i < insns.length) :
    ∃ u, fetchAt insns i = some u := by
  unfold fetchAt
  rw [if_pos (by omega), Int.toNat_natCast, List.getElem?_eq_getElem h]
  exact ⟨_, rfl⟩

theorem vRegB31t_lt (insns : List UInt16) (cur : Nat) (o : UInt32) (h : vRegB31t insns cur = some o) :
    cur + 2 < insns.length := by
  unfold vRegB31t at h
  simp only [Option.bind_eq_bind, Option.bind_eq_some_iff] at h
  obtain ⟨_, -, hi, hhi, -⟩ := h
  exact (List.getElem?_eq_some_iff.mp hhi).1

/-- The `uint32_t` the C++ converts an `int32_t` offset back to is the word
    it was read as. -/
theorem toUInt32_toInt32 (x : UInt32) : x.toInt32.toUInt32 = x := rfl

/-- What `CheckArrayData` guarantees, on a code item below `2 ^ 30` units:
    the instruction names a payload, and the payload's bytes hold the table
    the verifier sized, `2 * ((width * count + 1) / 2)` bytes in `uint32_t`
    arithmetic. -/
theorem checkArrayData_payload (code : CodeItem) (addr : Nat) (cur : UInt32)
    (hsize : code.insns.length < 2 ^ 30) (h : checkArrayData code addr cur = some true) :
    ∃ p, payloadOf code.insns cur.toNat = some p ∧
      2 * (((p.element_width.toNat * p.element_count.toNat) % 2 ^ 32 + 1) % 2 ^ 32 / 2) ≤
        p.data.length := by
  unfold checkArrayData at h
  simp only [Option.bind_eq_bind, Option.bind_eq_some_iff] at h
  obtain ⟨offset, hoff, h⟩ := h
  have hcur := vRegB31t_lt _ _ _ hoff
  split at h
  · simp at h
  rename_i hstart
  rw [not_or, ge_iff_le, toUInt32_toInt32] at hstart
  obtain ⟨hneg, hend⟩ := hstart
  -- The table starts at code unit `s`, the integer sum of the position and
  -- the signed offset; the start check rules out a wrapped sum.
  have hs := add_toInt32_nonneg cur offset (by omega) hneg
  obtain ⟨s, hsn⟩ : ∃ s : Nat, (cur.toNat : Int) + offset.toInt32.toInt = s :=
    ⟨_, (Int.toNat_of_nonneg hs.1).symm⟩
  have hsum := toNat_add_toInt32 cur offset hs.1 (by omega)
  rw [hsn] at hsum hs
  have hsum' : (cur + offset).toNat = s := by exact_mod_cast hsum
  rw [UInt32.le_iff_toNat_le, UInt32.toNat_add, toNat_insnsSize, hsum'] at hend
  simp only [hsn] at h
  split at h
  · simp at h
  simp only [Option.bind_eq_some_iff, Option.pure_def, Option.some.injEq] at h
  obtain ⟨value_width, hw, lo, hlo, hi, hhi, h⟩ := h
  rw [Bool.not_eq_true', decide_eq_false_iff_not, gt_iff_lt, UInt32.lt_iff_toNat_lt,
    toUInt32_toInt32, UInt32.toNat_add, hsum', toNat_insnsSize] at h
  simp only [UInt32.toNat_add, UInt32.toNat_div, UInt32.toNat_mul, UInt16.toNat_toUInt32,
    UInt32.reduceToNat] at h hend
  -- The payload the runtime reads starts at the same code unit `s`.
  obtain ⟨ident, hident⟩ := fetchAt_isSome code.insns s (by omega)
  refine ⟨⟨ident, value_width, fetch32 lo hi, codeUnitBytes (code.insns.drop (s + 4))⟩, ?_, ?_⟩
  · unfold payloadOf readPayload
    simp only [hoff, hsn, hident, hw, hlo, hhi, Option.bind_eq_bind, Option.bind_some,
      Option.pure_def]
    rfl
  · simp only [length_codeUnitBytes, List.length_drop]
    generalize value_width.toNat * (fetch32 lo hi).toNat = prod at h ⊢
    omega

/-- The type check pins the payload's `ident` and its `width` to the array's
    component size. -/
theorem verifyFillArrayData_width (code : CodeItem) (cur w : Nat) (p : ArrayDataPayload)
    (hp : payloadOf code.insns cur = some p)
    (h : verifyFillArrayData code cur (.primitiveArray w) = some true) :
    p.ident = kArrayDataSignature ∧ p.element_width.toNat = w := by
  unfold verifyFillArrayData at h
  unfold payloadOf readPayload at hp
  simp only [Option.bind_eq_bind, Option.bind_eq_some_iff, Option.pure_def,
    Option.some.injEq] at h hp
  obtain ⟨offset, hoff, ident, hident, h⟩ := h
  obtain ⟨offset', hoff', ident', hident', width', hwidth', lo, -, hi, -, rfl⟩ := hp
  -- Both read the same offset, so the same code units.
  rw [hoff, Option.some.injEq] at hoff'
  subst hoff'
  rw [hident, Option.some.injEq] at hident'
  subst hident'
  split at h
  · simp at h
  rename_i hsig
  simp only [Option.bind_eq_some_iff, Option.some.injEq] at h
  obtain ⟨width, hwidth, h⟩ := h
  rw [hwidth, Option.some.injEq] at hwidth'
  subst hwidth'
  exact ⟨not_not.mp hsig, of_decide_eq_true h⟩

/-! ### The runtime against `FillSpec` -/

/-- The runtime's signed comparison is the comparison of the count with the
    length when the count is below `2 ^ 31`. -/
theorem count_gt_length_iff (count : UInt32) (length : Nat) (hc : count.toNat < 2 ^ 31)
    (hl : length < 2 ^ 31) :
    count.toInt32 > Int32.ofNat length ↔ length < count.toNat := by
  rw [gt_iff_lt, Int32.lt_iff_toInt_lt, toInt_toInt32_of_lt count hc, Int32.toInt_ofNat_of_lt hl]
  omega

/-- Without wrap-around, the fill both runtime paths share meets `FillSpec`:
    it throws exactly for a count above the length, and otherwise copies the
    `count * width` payload bytes the verifier found room for. -/
theorem copyArrayData_spec (reportedIndex : UInt32 → Int32) (a : PrimArray) (p : ArrayDataPayload)
    (hcount : p.element_count.toNat < 2 ^ 31)
    (hbytes : p.element_count.toNat * p.element_width.toNat < 2 ^ 32)
    (hdata : p.element_count.toNat * p.element_width.toNat ≤ p.data.length)
    (hw : p.element_width.toNat = a.componentSize) :
    FillSpec a p (copyArrayData reportedIndex a p) := by
  unfold copyArrayData
  by_cases hgt : p.element_count.toInt32 > Int32.ofNat a.length
  · rw [if_pos hgt]
    exact (count_gt_length_iff _ _ hcount a.length_lt).mp hgt
  · rw [if_neg hgt]
    have hle : p.element_count.toNat ≤ a.length := by
      rw [count_gt_length_iff _ _ hcount a.length_lt] at hgt
      omega
    -- The byte count does not wrap, and fits both the storage and the payload.
    have hsize : (p.element_count * p.element_width.toUInt32).toNat =
        p.element_count.toNat * p.element_width.toNat := by
      rw [UInt32.toNat_mul, UInt16.toNat_toUInt32, Nat.mod_eq_of_lt hbytes]
    have hdst : p.element_count.toNat * p.element_width.toNat ≤ a.data.length := by
      rw [a.data_length, ← hw]
      exact Nat.mul_le_mul_right _ hle
    simp only [hsize, memcpy, if_pos (And.intro hdst hdata)]
    exact ⟨hle, rfl⟩

/-- Verified code meets `FillSpec` on both runtime paths, as long as the
    count is below `2 ^ 31` and the verifier's `width * count + 1` does not
    wrap: the instruction names a payload, and whichever path runs, the fill
    throws exactly when the array is too short and otherwise copies the
    whole table. -/
theorem fillArrayData_verified (code : CodeItem) (addr : Nat) (cur : UInt32) (a : PrimArray)
    (hsize : code.insns.length < 2 ^ 30)
    (hv : verifiesFill code addr cur (.primitiveArray a.componentSize) = true) :
    ∃ p, payloadOf code.insns cur.toNat = some p ∧
      (p.element_count.toNat < 2 ^ 31 →
        p.element_count.toNat * p.element_width.toNat + 1 < 2 ^ 32 →
        FillSpec a p (artHandleFillArrayDataFromCode (some a) p) ∧
          ∃ r, executeFillArrayData code.insns cur.toNat (some a) = some r ∧ FillSpec a p r) := by
  simp only [verifiesFill, Bool.and_eq_true, beq_iff_eq] at hv
  obtain ⟨⟨⟨⟨-, -⟩, -⟩, hcheck⟩, htype⟩ := hv
  obtain ⟨p, hp, hroom⟩ := checkArrayData_payload code addr cur hsize hcheck
  obtain ⟨-, hw⟩ := verifyFillArrayData_width code cur.toNat _ p hp htype
  refine ⟨p, hp, fun hcount hbytes => ?_⟩
  -- Without wrap-around the table the verifier sized holds the bytes copied.
  have hdata : p.element_count.toNat * p.element_width.toNat ≤ p.data.length := by
    have hprod : p.element_count.toNat * p.element_width.toNat % 2 ^ 32 =
        p.element_count.toNat * p.element_width.toNat := Nat.mod_eq_of_lt (by omega)
    rw [Nat.mul_comm p.element_width.toNat, hprod, Nat.mod_eq_of_lt hbytes] at hroom
    omega
  have hspec := fun reportedIndex =>
    copyArrayData_spec reportedIndex a p hcount (by omega) hdata hw
  have hrun : executeFillArrayData code.insns cur.toNat (some a) =
      some (copyArrayData (fun count => count.toInt32) a p) := by
    rw [executeFillArrayData, hp]
    rfl
  exact ⟨hspec (fun count => (count - 1).toInt32), _, hrun, hspec _⟩

/-- A count of `2 ^ 31` or more is negative as an `int32_t`, so neither
    runtime path ever throws for it, whatever the array's length. -/
theorem copyArrayData_no_throw (reportedIndex : UInt32 → Int32) (a : PrimArray)
    (p : ArrayDataPayload) (hcount : 2 ^ 31 ≤ p.element_count.toNat) (length index : Int32) :
    copyArrayData reportedIndex a p ≠ .arrayIndexOutOfBounds length index := by
  unfold copyArrayData
  have hneg : ¬ p.element_count.toInt32 > Int32.ofNat a.length := by
    rw [gt_iff_lt, Int32.lt_iff_toInt_lt, toInt_toInt32, if_neg (by omega),
      Int32.toInt_ofNat_of_lt a.length_lt]
    have := p.element_count.toNat_lt
    omega
  rw [if_neg hneg]
  dsimp only
  split <;> simp

/-- The alignment check sees only the code's address modulo four. -/
theorem checkArrayData_addr_mod (code : CodeItem) (addr : Nat) (cur : UInt32) :
    checkArrayData code addr cur = checkArrayData code (addr % 4) cur := by
  have halign : ∀ x : Int, ((addr : Int) + 2 * x) % 4 = (((addr % 4 : Nat) : Int) + 2 * x) % 4 := by
    intro x
    omega
  simp only [checkArrayData, halign]

/-! ### A count of `2 ^ 31` or more -/

/-- `const/4 v0, #0; new-array v0, v0, [S; fill-array-data v0, +5;
    return-void; nop`, then at code unit `8` an array-data payload of
    `0x80000001` two-byte elements with one code unit of data. -/
def negativeCountMethod : CodeItem :=
  ⟨[0x0012, 0x0023, 0x0000, 0x0026, 0x0005, 0x0000, 0x000E, 0x0000,
    0x0300, 0x0002, 0x0001, 0x8000, 0x0000], by decide⟩

/-- The `short[0]` that `new-array` leaves in `v0`. -/
def emptyShortArray : PrimArray :=
  ⟨2, 0, by decide, [], rfl⟩

/-- The verifier accepts `negativeCountMethod` at every 4-byte aligned
    address: its `uint32_t` table size is `4 + (2 * 0x80000001 + 1) / 2 = 5`
    after wrapping. `FillSpec` then asks for an exception, since the array is
    shorter than the count, but the count is negative as an `int32_t`: both
    runtime paths go on to a `memcpy` of `2` bytes into the empty storage. -/
theorem fillArrayData_negative_count (addr : Nat) :
    verifiesFill negativeCountMethod (4 * addr) 3 (.primitiveArray 2) = true ∧
      payloadOf negativeCountMethod.insns 3 =
        some ⟨kArrayDataSignature, 2, 0x80000001, [0, 0]⟩ ∧
      executeFillArrayData negativeCountMethod.insns 3 (some emptyShortArray) =
        some .outOfBounds ∧
      artHandleFillArrayDataFromCode (some emptyShortArray)
        ⟨kArrayDataSignature, 2, 0x80000001, [0, 0]⟩ = .outOfBounds ∧
      ∀ r, FillSpec emptyShortArray ⟨kArrayDataSignature, 2, 0x80000001, [0, 0]⟩ r →
        ∃ length index, r = .arrayIndexOutOfBounds length index := by
  have hverify : verifiesFill negativeCountMethod (4 * addr) 3 (.primitiveArray 2) = true := by
    unfold verifiesFill
    rw [checkArrayData_addr_mod, Nat.mul_mod_right]
    decide
  refine ⟨hverify, by decide, by decide, by decide, ?_⟩
  -- The spec leaves only the exception: a copy needs a count within the length.
  intro r hr
  cases r with
  | arrayIndexOutOfBounds length index => exact ⟨length, index, rfl⟩
  | filled d =>
      simp only [FillSpec] at hr
      exact absurd hr.1 (by decide)
  | nullPointer => exact hr.elim
  | outOfBounds => exact hr.elim

end FillArrayData

end ArtRuntime
