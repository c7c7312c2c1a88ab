import ArtRuntime.Core.Bytes

/-!
# The Dex-PC Reference Map

The table the method verifier hands to the compiler: for every GC point of a
method (an instruction the verifier marks `IsCompileTimeInfoPoint`), which
registers hold non-null references there. `MethodVerifier::GenerateGcMap`
writes it and `DexPcToReferenceMap` reads it, in two files:

* a four-byte header: the pc format (`kRegMapFormatCompact8` or
  `kRegMapFormatCompact16`) in the low three bits of byte 0, bits 8 to 12 of
  the bitmap width in the upper five bits of byte 0, the low byte of the width
  in byte 1, and the entry count in bytes 2 and 3;
* one entry per GC point in increasing pc order: the pc in one or two bytes,
  then the register bitmap.

The register lines enter the model only through the one predicate the map
reads, `IsNonZeroReferenceTypes`: a line is a list of booleans, one per
register.

The width field has thirteen bits, so the header holds widths below `8192`.
`GenerateGcMap` refuses a method only when `ref_bitmap_bits` reaches
`8 * 8192`, and a bitmap of `65529` to `65535` bits needs exactly `8192`
bytes: the header then records a width of zero. `generateGcMap_regWidth_zero`
is that failure for every method at the boundary.

## Main definitions

* `Method`: A method's GC points and their register lines.
* `getMaxNonZeroReferenceReg`, `computeGcMapSizes`: The sizing pass.
* `writeReferenceBitMap`: One register line as bitmap bytes.
* `generateGcMap`: The encoder.
* `numEntries`, `regWidth`, `getDexPc`, `findBitMap`: The decoder.

## Theorems

* `getMaxNonZeroReferenceReg_last`: The sizing scan ends on a line's last
  register when that register holds a reference.
* `regWidth_header_append`: The width the decoder reads is a function of the
  header bytes alone.
* `generateGcMap_regWidth_zero`: At `8192` bytes the encoder succeeds and the
  decoder reads a width of zero.
* `generateGcMap_last_register`: A method with `65535` registers reaches that
  boundary.
-/

namespace ArtRuntime

namespace DexGcMap

open ByteList

/-- A method as the map generator sees it: the register count and, for each
    dex pc below `insns_size_in_code_units_`, the register line of a GC point
    (`true` where the register holds a non-null reference) or `none` for any
    other pc. -/
structure Method where
  registersSize : Nat
  points : List (Option (List Bool))
  deriving DecidableEq, Repr

/-- `RegisterLine::GetMaxNonZeroReferenceReg`: scan from the previous maximum
    (or from `0` while it is still `-1`) for a higher reference register. -/
def getMaxNonZeroReferenceReg (line : List Bool) (max_ref_reg : Int) : Int :=
  let start := if max_ref_reg < 0 then 0 else max_ref_reg.toNat
  (List.range' start (line.length - start)).foldl
    (fun m i => if line.getD i false then (i : Int) else m) max_ref_reg

/-- The `while ((1U << i) <= max_insn) i++` loop of `ComputeGcMapSizes`. -/
def log2MaxGcPc (max_insn i : Nat) : Nat :=
  if 1 <<< i ≤ max_insn then log2MaxGcPc max_insn (i + 1) else i
termination_by max_insn + 1 - i
decreasing_by
  rename_i h
  rw [Nat.one_shiftLeft] at h
  have := Nat.lt_two_pow_self (n := i)
  omega

/-- The per-pc loop of `ComputeGcMapSizes`: GC points seen, the last GC
    point's pc, and the highest reference register so far. -/
def sizesLoop : List (Option (List Bool)) → Nat → Nat × Nat × Int → Nat × Nat × Int
  | [], _, acc => acc
  | none :: rest, i, acc => sizesLoop rest (i + 1) acc
  | some line :: rest, i, (n, _, r) =>
      sizesLoop rest (i + 1) (n + 1, i, getMaxNonZeroReferenceReg line r)

/-- `MethodVerifier::ComputeGcMapSizes`: the number of GC points, the bits a
    bitmap needs (`max_ref_reg + 1`, zero when there is no reference) and the
    bits a pc needs. -/
def computeGcMapSizes (m : Method) : Nat × Nat × Nat :=
  let (gc_points, max_insn, max_ref_reg) := sizesLoop m.points 0 (0, 0, -1)
  (gc_points, (max_ref_reg + 1).toNat, log2MaxGcPc max_insn 0)

/-- Byte `i / 8` of a line's bitmap: bit `j` set where register `i + j` holds
    a reference. -/
def refByte (line : List Bool) (i : Nat) : UInt8 :=
  (List.range 8).foldl
    (fun v j => if i + j < line.length ∧ line.getD (i + j) false then v ||| (1 <<< j.toUInt8) else v) 0

/-- `RegisterLine::WriteReferenceBitMap`: one byte per eight registers,
    dropping the bytes at or past `max_bytes`. -/
def writeReferenceBitMap (line : List Bool) (max_bytes : Nat) : List UInt8 :=
  (List.range ((line.length + 7) / 8)).filterMap
    (fun k => if k ≥ max_bytes then none else some (refByte line (8 * k)))

/-- The header's first byte: the format under bits 8 to 12 of the width. The
    C++ mask `~kRegMapFormatMask` is an `int`, `0xFFFFFFF8` as a `size_t`; the
    `push_back` keeps the low byte. -/
def headerByte0 (format ref_bitmap_bytes : Nat) : UInt8 :=
  UInt8.ofNat (format ||| ((ref_bitmap_bytes >>> 5) &&& 0xFFFFFFF8))

/-- The header `GenerateGcMap` writes. -/
def header (format ref_bitmap_bytes num_entries : Nat) : List UInt8 :=
  [headerByte0 format ref_bitmap_bytes, UInt8.ofNat (ref_bitmap_bytes &&& 0xFF),
   UInt8.ofNat (num_entries &&& 0xFF), UInt8.ofNat ((num_entries >>> 8) &&& 0xFF)]

/-- The table data: for each GC point in pc order, its pc in `pc_bytes` bytes
    and its bitmap. -/
def entries : List (Option (List Bool)) → Nat → Nat → Nat → List UInt8
  | [], _, _, _ => []
  | none :: rest, i, pc_bytes, bytes => entries rest (i + 1) pc_bytes bytes
  | some line :: rest, i, pc_bytes, bytes =>
      (UInt8.ofNat (i &&& 0xFF) ::
        (if pc_bytes = 2 then [UInt8.ofNat ((i >>> 8) &&& 0xFF)] else [])) ++
        writeReferenceBitMap line bytes ++ entries rest (i + 1) pc_bytes bytes

/-- `MethodVerifier::GenerateGcMap`: size the map, refuse what the format
    cannot hold (`none` is the verifier's hard failure), then write it. -/
def generateGcMap (m : Method) : Option (List UInt8) :=
  let (num_entries, ref_bitmap_bits, pc_bits) := computeGcMapSizes m
  if ref_bitmap_bits ≥ 8 * 8192 then none
  else
    let ref_bitmap_bytes := (ref_bitmap_bits + 7) / 8
    if num_entries ≥ 65536 then none
    else if pc_bits ≤ 8 then
      some (header 2 ref_bitmap_bytes num_entries ++ entries m.points 0 1 ref_bitmap_bytes)
    else if pc_bits ≤ 16 then
      some (header 3 ref_bitmap_bytes num_entries ++ entries m.points 0 2 ref_bitmap_bytes)
    else none

/-! ### The decoder -/

/-- `DexPcToReferenceMap::NumEntries`. -/
def numEntries (data : List UInt8) : Nat :=
  (data.getD 2 0).toNat ||| ((data.getD 3 0).toNat <<< 8)

/-- `DexPcToReferenceMap::RegWidth`: byte 1, and the upper five bits of byte
    0 shifted up by `kRegMapFormatShift`. -/
def regWidth (data : List UInt8) : Nat :=
  (data.getD 1 0).toNat ||| (((data.getD 0 0).toNat &&& 0xF8) <<< 5)

/-- `DexPcToReferenceMap::DexPcWidth`; any other format is `LOG(FATAL)`. -/
def dexPcWidth (data : List UInt8) : Option Nat :=
  match (data.getD 0 0).toNat &&& 7 with
  | 2 => some 1
  | 3 => some 2
  | _ => none

/-- `DexPcToReferenceMap::GetDexPc`. -/
def getDexPc (data : List UInt8) (index : Nat) : Option Nat := do
  let pc_width ← dexPcWidth data
  let entry_offset := 4 + index * (pc_width + regWidth data)
  if pc_width = 1 then pure (data.getD entry_offset 0).toNat
  else pure ((data.getD entry_offset 0).toNat ||| ((data.getD (entry_offset + 1) 0).toNat <<< 8))

/-- `DexPcToReferenceMap::GetBitMap`: where entry `index`'s bitmap starts. -/
def getBitMap (data : List UInt8) (index : Nat) : Option Nat := do
  let pc_width ← dexPcWidth data
  pure (4 + index * (pc_width + regWidth data) + pc_width)

/-- The binary search of `FindBitMap`, over `int` bounds; each round shrinks
    `[lo, hi]`, so `fuel` rounds for `fuel` entries suffice. -/
def binarySearch (data : List UInt8) (dex_pc : Nat) : Nat → Int → Int → Option (Option Nat)
  | 0, _, _ => some none
  | fuel + 1, lo, hi =>
      if hi ≥ lo then do
        let mid := (hi + lo) / 2
        let mid_pc ← getDexPc data mid.toNat
        if dex_pc > mid_pc then binarySearch data dex_pc fuel (mid + 1) hi
        else if dex_pc < mid_pc then binarySearch data dex_pc fuel lo (mid - 1)
        else (getBitMap data mid.toNat).map some
      else some none

/-- `DexPcToReferenceMap::FindBitMap`: linear search below eight entries,
    binary search from eight on; `some none` is the `NULL` result and `none`
    an abort. -/
def findBitMap (data : List UInt8) (dex_pc : UInt16) : Option (Option Nat) :=
  let num_entries := numEntries data
  if num_entries < 8 then
    (List.range num_entries).foldr
      (fun i rest => do
        let pc ← getDexPc data i
        if pc = dex_pc.toNat then (getBitMap data i).map some else rest)
      (some none)
  else binarySearch data dex_pc.toNat (num_entries + 1) 0 (num_entries - 1)

/-! ### The sizing pass -/

/-- The scan keeps the last register it passes that holds a reference; when
    the last register scanned holds one, that register is the result. -/
theorem foldl_range'_last (f : Nat → Bool) (m : Int) (s k : Nat) (hf : f (s + k) = true) :
    (List.range' s (k + 1)).foldl (fun m i => if f i then (i : Int) else m) m = ((s + k : Nat) : Int) := by
  rw [List.range'_concat, List.foldl_append, List.foldl_cons, List.foldl_nil, Nat.one_mul,
    if_pos hf]

/-- A line whose last register holds a reference has that register as its
    highest, scanning from the start. -/
theorem getMaxNonZeroReferenceReg_last (line : List Bool) (k : Nat) (hlen : line.length = k + 1)
    (hlast : line.getD k false = true) : getMaxNonZeroReferenceReg line (-1) = k := by
  unfold getMaxNonZeroReferenceReg
  simp only [show (-1 : Int) < 0 by norm_num, if_true, Nat.sub_zero, hlen]
  rw [foldl_range'_last _ _ 0 k (by simpa using hlast)]
  simp

@[simp] theorem log2MaxGcPc_zero : log2MaxGcPc 0 0 = 0 := by
  rw [log2MaxGcPc]
  simp

/-- The sizes of a method with one GC point, at pc `0`. -/
theorem computeGcMapSizes_single (regs : Nat) (line : List Bool) :
    computeGcMapSizes ⟨regs, [some line]⟩ =
      (1, (getMaxNonZeroReferenceReg line (-1) + 1).toNat, 0) := by
  simp [computeGcMapSizes, sizesLoop]

/-! ### The header -/

/-- The width the decoder reads depends only on the header. -/
theorem regWidth_header_append (format bytes n : Nat) (rest : List UInt8) :
    regWidth (header format bytes n ++ rest) =
      (UInt8.ofNat (bytes &&& 0xFF)).toNat ||| (((headerByte0 format bytes).toNat &&& 0xF8) <<< 5) := by
  simp [regWidth, header]

/-- A bitmap of `65529` to `65535` bits passes the size guard, and the width
    `8192` it needs leaves nothing in thirteen bits: the decoder reads a width
    of zero. -/
theorem generateGcMap_regWidth_zero (m : Method)
    (hbits : 65529 ≤ (computeGcMapSizes m).2.1) (hbits' : (computeGcMapSizes m).2.1 < 65536)
    (hn : (computeGcMapSizes m).1 < 65536) (hpc : (computeGcMapSizes m).2.2 ≤ 16) :
    ∃ t, generateGcMap m = some t ∧ regWidth t = 0 := by
  rcases hsizes : computeGcMapSizes m with ⟨n, bits, pc_bits⟩
  rw [hsizes] at hbits hbits' hn hpc
  have hbytes : (bits + 7) / 8 = 8192 := by
    simp only at hbits hbits'
    omega
  simp only at hbits hbits' hn hpc
  unfold generateGcMap
  rw [hsizes]
  simp only [show ¬ 8 * 8192 ≤ bits by omega, show ¬ 65536 ≤ n by omega, if_false, hbytes]
  -- Both pc formats write the same header bytes for the width.
  by_cases h8 : pc_bits ≤ 8
  · rw [if_pos h8]
    refine ⟨_, rfl, ?_⟩
    rw [regWidth_header_append]
    decide
  · rw [if_neg h8, if_pos hpc]
    refine ⟨_, rfl, ?_⟩
    rw [regWidth_header_append]
    decide

/-- The boundary method: `65535` registers and one GC point at which only the
    last register holds a reference. `GenerateGcMap` accepts it with
    `ref_bitmap_bits = 65535`, so `ceil(65535 / 8) = 8192` bitmap bytes, and
    the decoder reads a register width of zero. -/
theorem generateGcMap_last_register :
    (computeGcMapSizes ⟨65535, [some (List.replicate 65534 false ++ [true])]⟩).2.1 = 65535 ∧
      ∃ t, generateGcMap ⟨65535, [some (List.replicate 65534 false ++ [true])]⟩ = some t ∧
        regWidth t = 0 ∧ regWidth t ≠ (65535 + 7) / 8 := by
  have hlen : (List.replicate 65534 false ++ [true]).length = 65534 + 1 := by
    rw [List.length_append, List.length_replicate]
    rfl
  have hlast : (List.replicate 65534 false ++ [true]).getD 65534 false = true := by
    rw [List.getD_eq_getElem?_getD, List.getElem?_append_right (by rw [List.length_replicate]),
      List.length_replicate, Nat.sub_self]
    rfl
  have hmax : getMaxNonZeroReferenceReg (List.replicate 65534 false ++ [true]) (-1) = 65534 :=
    getMaxNonZeroReferenceReg_last _ 65534 hlen hlast
  have hsizes : computeGcMapSizes ⟨65535, [some (List.replicate 65534 false ++ [true])]⟩ =
      (1, 65535, 0) := by
    rw [computeGcMapSizes_single, hmax]
    rfl
  rcases generateGcMap_regWidth_zero _ (by rw [hsizes]; decide) (by rw [hsizes]; decide)
    (by rw [hsizes]; decide) (by rw [hsizes]; decide) with ⟨t, ht, hw⟩
  exact ⟨by rw [hsizes], t, ht, hw, by rw [hw]; decide⟩

end DexGcMap

end ArtRuntime
