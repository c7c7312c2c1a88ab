import ArtRuntime.Base.Leb128
import Mathlib.Data.List.Induction
import Mathlib.Data.List.Sort
import Mathlib.Data.Nat.BitIndices

/-!
# The Quick Compiler's Vmap Table

The table that tells a stack walk where a promoted Dalvik register lives. The
register allocator records each promotion as it makes it: a core promotion
(`Mir2Lir::RecordCorePromotion`) sets the register's bit in
`core_spill_mask_` and keeps the pair as `reg << 16 | v_reg`, so that a sort
puts the pairs in register order; `ArmMir2Lir::AdjustSpillMask` adds `lr` to
the mask; a single-precision promotion (`ArmMir2Lir::MarkPreservedSingle`)
writes the Dalvik register at the callee-save register's index in
`fp_vmap_table_`, filling the indices it skips with `INVALID_VREG`, and sets
`fp_spill_mask_` to every register below the highest, since `vpush` saves a
contiguous run. `Mir2Lir::GetCompiledMethod` then writes the table: the core
entries sorted with the register stripped, a `0xffff` marker in the place of
`lr` when there is a frame, and the fp entries, all as unsigned LEB128 after
their count.

The runtime never learns which register an entry belongs to.
`VmapTable::IsInContext` finds the first entry equal to the Dalvik register
on the right side of the first `0xffff`, and `VmapTable::ComputeRegister`
turns its offset back into a register by counting set bits of the spill
mask: the core entries are in register order, so the `i`-th entry is the
`i`-th set bit of `core_spill_mask_`, and the `j`-th fp entry the `j`-th set
bit of `fp_spill_mask_`, which starts at `ARM_FP_CALLEE_SAVE_BASE`.

The agreement needs each Dalvik register promoted at most once in each
class, since the lookup returns the first match, and each register used
once. Given that, the lookups agree with the promotions, in whatever order
the calls come (`lookups_of_promotions`); the register allocator's
`DoPromotion` makes only such calls (Compiler/Promotion).

The model has two layers. At the bottom, the functions over the bytes, as
the source has them; `scanEntries` is `IsInContext`'s loop over the decoded
entries, and `isInContext_encoded` and `computeRegister_core`,
`computeRegister_float` read the encoded table through it. Above it, what
the promotions leave in the masks and the two vectors, by induction over any
order of the promotion calls.

## Main definitions

* `VRegKind`, `VRegKind.isFloat`: The kinds a stack walk asks for.
* `Mir2Lir`, `Mir2Lir.recordCorePromotion`, `Mir2Lir.adjustSpillMask`,
  `Mir2Lir.markPreservedSingle`, `Mir2Lir.getCompiledMethod`: The compiler
  side.
* `PromotionOp`, `Mir2Lir.runPromotions`: The promotion calls in any order.
* `VmapTable.isInContext`, `VmapTable.computeRegister`: The runtime side.
* `VmapTable.scanEntries`: `IsInContext` over the decoded entries.

## Theorems

* `isInContext_encoded`: `IsInContext` on an encoded table is the scan of its
  entries.
* `spillShiftsLoop_eq`: `ComputeRegister`'s loop finds the set bit it counts
  to.
* `testBit_core_spill_mask`, `core_vmap_table_runPromotions`,
  `FpTable.runPromotions`: What the promotions leave.
* `lookups_of_promotions`: Every promotion is found and mapped back to its
  register, and nothing else is found.
-/

namespace ArtRuntime

open Leb128

/-- `VRegKind`: what a Dalvik register holds, as a stack walk asks for it. -/
inductive VRegKind
  | kReferenceVReg | kIntVReg | kFloatVReg | kLongLoVReg | kLongHiVReg
  | kDoubleLoVReg | kDoubleHiVReg | kConstant | kImpreciseConstant | kUndefined
  deriving DecidableEq

/-- `is_float` of `IsInContext` and `ComputeRegister`. -/
def VRegKind.isFloat (kind : VRegKind) : Bool :=
  kind == .kFloatVReg || kind == .kDoubleLoVReg || kind == .kDoubleHiVReg

/-- `VREG_NUM_WIDTH`: the bits of a Dalvik register in a core entry. -/
def VREG_NUM_WIDTH : Nat := 16

/-- `INVALID_VREG`: the entry standing for `lr` and for a hole among the fp
    registers. -/
def INVALID_VREG : Nat := 0xFFFF

/-- `rARM_LR`. -/
def rARM_LR : Nat := 14

/-- `ARM_FP_REG_OFFSET`: single `frN` is register number `N + 32`. -/
def ARM_FP_REG_OFFSET : Nat := 32

/-- `ARM_FP_REG_MASK`. -/
def ARM_FP_REG_MASK : Nat := ARM_FP_REG_OFFSET - 1

/-- `ARM_FP_CALLEE_SAVE_BASE`: `s16` is the first callee-save single. -/
def ARM_FP_CALLEE_SAVE_BASE : Nat := 16

/-- `core_regs` of the ARM target: `r0` to `r15`, with `rARM_SUSPEND` = 4,
    `rARM_SELF` = 9, `rARM_SP` = 13, `rARM_LR` = 14 and `rARM_PC` = 15. -/
def coreRegs : List Nat := [0, 1, 2, 3, 4, 5, 6, 7, 8, 9, 10, 11, 12, 13, 14, 15]

/-- `ReservedRegs`: `rARM_SUSPEND`, `rARM_SELF`, `rARM_SP`, `rARM_LR`,
    `rARM_PC`. -/
def reservedRegs : List Nat := [4, 9, 13, 14, 15]

/-- `core_temps`: `r0` to `r3` and `r12`. -/
def coreTemps : List Nat := [0, 1, 2, 3, 12]

/-- `FpRegs`: `fr0` to `fr31`. -/
def fpRegs : List Nat := (List.range 32).map (· + ARM_FP_REG_OFFSET)

/-- `fp_temps`: `fr0` to `fr15`. -/
def fpTemps : List Nat := (List.range 16).map (· + ARM_FP_REG_OFFSET)

/-- A core register the allocator may promote to: in the pool, neither
    reserved nor a temp. -/
def isCalleeSaveCore (reg : Nat) : Bool :=
  coreRegs.contains reg && !reservedRegs.contains reg && !coreTemps.contains reg

/-- A single the allocator may promote to: in the pool and not a temp. -/
def isCalleeSaveSingle (reg : Nat) : Bool :=
  fpRegs.contains reg && !fpTemps.contains reg

/-! ### The compiler side -/

/-- The fields of `Mir2Lir` that the promotions write and
    `GetCompiledMethod` reads into the vmap table, with the frame size that
    `ComputeFrameSize` sets. The masks are `unsigned int`; every register
    below is below 32, so a `Nat` holds them whole. -/
structure Mir2Lir where
  core_spill_mask : Nat
  fp_spill_mask : Nat
  core_vmap_table : List Nat
  fp_vmap_table : List Nat
  frame_size : Int

/-- What `GetCompiledMethod` hands on to the runtime here: the two masks and
    the encoded vmap table. -/
structure CompiledMethod where
  core_spill_mask : Nat
  fp_spill_mask : Nat
  vmap_table : List UInt8

namespace Mir2Lir

/-- The fields as the constructor leaves them (`core_spill_mask_(0)`,
    `fp_spill_mask_(0)`, empty vectors), with the frame size. -/
def init (frame_size : Int) : Mir2Lir := ⟨0, 0, [], [], frame_size⟩

/-- `(1 << VREG_NUM_WIDTH) - 1`, which is also `~(-1 << VREG_NUM_WIDTH)`. -/
def vregMask : Nat := (1 <<< VREG_NUM_WIDTH) - 1

/-- `Mir2Lir::RecordCorePromotion` of `v_reg` to `reg`: the register's bit,
    and the pair with the register above the Dalvik register, for the sort. -/
def recordCorePromotion (s : Mir2Lir) (reg v_reg : Nat) : Mir2Lir :=
  { s with
    core_spill_mask := s.core_spill_mask ||| (1 <<< reg)
    core_vmap_table := s.core_vmap_table ++ [(reg <<< VREG_NUM_WIDTH) ||| (v_reg &&& vregMask)] }

/-- `ArmMir2Lir::AdjustSpillMask`: `lr` is always spilled. -/
def adjustSpillMask (s : Mir2Lir) : Mir2Lir :=
  { s with core_spill_mask := s.core_spill_mask ||| (1 <<< rARM_LR) }

/-- `ArmMir2Lir::MarkPreservedSingle` of `v_reg` to the single `reg`. -/
def markPreservedSingle (s : Mir2Lir) (v_reg reg : Nat) : Mir2Lir :=
  let reg := (reg &&& ARM_FP_REG_MASK) - ARM_FP_CALLEE_SAVE_BASE
  -- grow the table to `reg + 1` entries, the skipped ones holes
  let fp_vmap_table :=
    s.fp_vmap_table ++ List.replicate (reg + 1 - s.fp_vmap_table.length) INVALID_VREG
  let fp_vmap_table := fp_vmap_table.set reg v_reg
  -- the size is the high-water mark, and `vpush` saves every register below it
  let num_fp_spills := fp_vmap_table.length
  { s with
    fp_vmap_table
    fp_spill_mask := ((1 <<< num_fp_spills) - 1) <<< ARM_FP_CALLEE_SAVE_BASE }

/-- The `raw_vmap_table` of `GetCompiledMethod`, a `std::vector<uint16_t>`:
    the core entries sorted and stripped of their register, the marker for
    `lr` when there is a frame, then the fp entries. -/
def rawVmapTable (s : Mir2Lir) : List Nat :=
  let raw_vmap_table := (s.core_vmap_table.insertionSort (· ≤ ·)).map (vregMask &&& ·)
  let raw_vmap_table :=
    if 0 < s.frame_size then raw_vmap_table ++ [INVALID_VREG] else raw_vmap_table
  raw_vmap_table ++ s.fp_vmap_table.map (· % 2 ^ 16)

/-- `Mir2Lir::GetCompiledMethod`, for the masks and the vmap table: the
    size, then each entry, as unsigned LEB128. -/
def getCompiledMethod (s : Mir2Lir) : CompiledMethod :=
  let raw_vmap_table := s.rawVmapTable
  let vmap_encoder := pushBack [] raw_vmap_table.length.toUInt32
  let vmap_encoder := insertBack vmap_encoder (raw_vmap_table.map Nat.toUInt32)
  ⟨s.core_spill_mask, s.fp_spill_mask, vmap_encoder⟩

end Mir2Lir

/-- The calls that record promotions, as `DoPromotion` makes them. -/
inductive PromotionOp
  | recordCorePromotion (reg v_reg : Nat)
  | adjustSpillMask
  | markPreservedSingle (v_reg reg : Nat)
  deriving DecidableEq

namespace Mir2Lir

/-- One promotion call. -/
def promote (s : Mir2Lir) : PromotionOp → Mir2Lir
  | .recordCorePromotion reg v_reg => s.recordCorePromotion reg v_reg
  | .adjustSpillMask => s.adjustSpillMask
  | .markPreservedSingle v_reg reg => s.markPreservedSingle v_reg reg

/-- The promotion calls in order. -/
def runPromotions (s : Mir2Lir) (ops : List PromotionOp) : Mir2Lir :=
  ops.foldl promote s

end Mir2Lir

/-- The core promotions among the calls, as (register, Dalvik register). -/
def corePromotions : List PromotionOp → List (Nat × Nat)
  | [] => []
  | .recordCorePromotion reg v_reg :: ops => (reg, v_reg) :: corePromotions ops
  | .adjustSpillMask :: ops => corePromotions ops
  | .markPreservedSingle _ _ :: ops => corePromotions ops

/-- The single promotions among the calls, as (Dalvik register, register). -/
def fpPromotions : List PromotionOp → List (Nat × Nat)
  | [] => []
  | .recordCorePromotion _ _ :: ops => fpPromotions ops
  | .adjustSpillMask :: ops => fpPromotions ops
  | .markPreservedSingle v_reg reg :: ops => (v_reg, reg) :: fpPromotions ops

/-! ### The runtime side -/

/-- A `VmapTable` over the bytes `GetCompiledMethod` wrote. -/
structure VmapTable where
  table : List UInt8

namespace VmapTable

/-- The loop of `IsInContext` over the `count` entries left, the `i`-th at
    `ptr`: the offset of the first entry equal to `vreg` on the side of the
    first `0xffff` that `is_float` asks for. An entry is read as `uint16_t`. -/
def isInContextLoop (t : VmapTable) (vreg : Nat) (is_float : Bool) :
    (count i ptr : Nat) → (in_floats : Bool) → Option (Bool × Nat)
  | 0, _, _, _ => some (false, 0xEBAD0FF5)
  | count + 1, i, ptr, in_floats => do
    let (entry, ptr) ← decodeUnsignedLeb128 t.table ptr
    let entry := entry.toNat % 2 ^ 16
    if entry = vreg ∧ in_floats = is_float then some (true, i)
    else
      -- `0xffff` is the marker for `lr`; the spilled fp registers follow it
      t.isInContextLoop vreg is_float count (i + 1) ptr (if entry = 0xffff then true else in_floats)

/-- `VmapTable::IsInContext`: whether `vreg` is found, and the offset left in
    `*vmap_offset`, `0xEBAD0FF5` when it is not. -/
def isInContext (t : VmapTable) (vreg : Nat) (kind : VRegKind) : Option (Bool × Nat) := do
  let (end_, ptr) ← decodeUnsignedLeb128 t.table 0
  t.isInContextLoop vreg kind.isFloat end_.toNat 0 ptr false

/-- `while (DecodeUnsignedLeb128(&table) != 0xffff) matches++`: the entries
    before the first `0xffff`. Each read takes a byte at least, so as many
    reads as bytes reach the end, past which the read fails. -/
def skipToMarker (t : VmapTable) : (fuel ptr num_matches : Nat) → Option Nat
  | 0, _, _ => none
  | fuel + 1, ptr, num_matches => do
    let (entry, ptr) ← decodeUnsignedLeb128 t.table ptr
    if entry ≠ 0xffff then t.skipToMarker fuel ptr (num_matches + 1) else some num_matches

/-- The counting loop of `ComputeRegister`: shift the mask down until the
    set bits counted reach `target`. The mask is a `uint32_t`, 0 after 32
    shifts, and the loop then spins: `none`. -/
def spillShiftsLoop (target : Nat) : (fuel spill_mask num_matches spill_shifts : Nat) → Option Nat
  | fuel, spill_mask, num_matches, spill_shifts =>
    if num_matches = target then some spill_shifts
    else
      match fuel with
      | 0 => none
      | fuel + 1 =>
        spillShiftsLoop target fuel (spill_mask >>> 1) (num_matches + (spill_mask &&& 1))
          (spill_shifts + 1)

/-- `__builtin_popcount` of a 32-bit value. -/
def popcount (x : Nat) : Nat := ((List.range 32).filter fun i => x.testBit i).length

/-- `VmapTable::ComputeRegister`: for a float kind, the count starts past the
    marker; the offset's set bit, counted from the low end, is the register.
    The `CHECK_LT` on the offset aborts: `none`. -/
def computeRegister (t : VmapTable) (spill_mask vmap_offset : Nat) (kind : VRegKind) :
    Option Nat := do
  let num_matches ← if kind.isFloat then do
      let (_, ptr) ← decodeUnsignedLeb128 t.table 0
      let num_matches ← t.skipToMarker t.table.length ptr 0
      pure (num_matches + 1)
    else pure 0
  if (vmap_offset + 2 ^ 32 - num_matches) % 2 ^ 32 < popcount spill_mask then do
    let spill_shifts ← spillShiftsLoop ((vmap_offset + 1) % 2 ^ 32) 32 spill_mask num_matches 0
    -- wind back one, as the last shift was past the match
    pure ((spill_shifts + 2 ^ 32 - 1) % 2 ^ 32)
  else none

/-! ### The decoded table -/

/-- `IsInContext`'s loop over the entries themselves. -/
def scanEntries (vreg : Nat) (is_float : Bool) : List Nat → Nat → Bool → Bool × Nat
  | [], _, _ => (false, 0xEBAD0FF5)
  | entry :: rest, i, in_floats =>
    if entry = vreg ∧ in_floats = is_float then (true, i)
    else scanEntries vreg is_float rest (i + 1) (if entry = 0xffff then true else in_floats)

/-- The bytes of a table of entries: the count, then each entry. -/
def encodeEntries (raw : List Nat) : List UInt8 :=
  pushBackLoop raw.length.toUInt32 ++ (raw.map Nat.toUInt32).flatMap pushBackLoop

section Scan

variable {vreg : Nat} {is_float : Bool}

/-- A table without the register has it nowhere. -/
theorem scanEntries_of_not_mem {xs : List Nat} (h : vreg ∉ xs) (i : Nat) (in_floats : Bool) :
    scanEntries vreg is_float xs i in_floats = (false, 0xEBAD0FF5) := by
  induction xs generalizing i in_floats with
  | nil => rfl
  | cons x xs ih =>
    have hx : x ≠ vreg := fun hx => h (hx ▸ List.mem_cons_self)
    rw [scanEntries, if_neg fun hm => hx hm.1]
    exact ih (fun hm => h (List.mem_cons_of_mem x hm)) _ _

/-- Past the marker, a lookup that is not for a float finds nothing. -/
theorem scanEntries_of_in_floats (h : is_float = false) (xs : List Nat) (i : Nat) :
    scanEntries vreg is_float xs i true = (false, 0xEBAD0FF5) := by
  induction xs generalizing i with
  | nil => rfl
  | cons x xs ih =>
    rw [scanEntries, if_neg fun hm => Bool.noConfusion (hm.2.trans h)]
    -- the side stays `true` whatever the entry
    rw [show (if x = 0xffff then true else true) = true by split <;> rfl]
    exact ih _

/-- Entries without a marker that cannot match are passed over. -/
theorem scanEntries_append_of_skip {xs : List Nat} (hmark : 0xffff ∉ xs) {in_floats : Bool}
    (h : in_floats ≠ is_float ∨ vreg ∉ xs) (rest : List Nat) (i : Nat) :
    scanEntries vreg is_float (xs ++ rest) i in_floats =
      scanEntries vreg is_float rest (i + xs.length) in_floats := by
  induction xs generalizing i with
  | nil => rfl
  | cons x xs ih =>
    have hx : x ≠ 0xffff := fun hx => hmark (hx ▸ List.mem_cons_self)
    have hskip : ¬ (x = vreg ∧ in_floats = is_float) := by
      rintro ⟨hxv, hside⟩
      rcases h with h | h
      · exact h hside
      · exact h (hxv ▸ List.mem_cons_self)
    rw [List.cons_append, scanEntries, if_neg hskip, if_neg hx, List.length_cons,
      ih (fun hm => hmark (List.mem_cons_of_mem x hm)) (h.imp id fun h hm => h (List.mem_cons_of_mem x hm))]
    rw [Nat.add_assoc, Nat.add_comm 1]

/-- The marker turns the scan to the fp entries. -/
theorem scanEntries_marker (h : vreg ≠ 0xffff) (rest : List Nat) (i : Nat) (in_floats : Bool) :
    scanEntries vreg is_float (0xffff :: rest) i in_floats =
      scanEntries vreg is_float rest (i + 1) true := by
  rw [scanEntries, if_neg fun hm => h hm.1.symm, if_pos rfl]

/-- The scan stops at the first entry equal to the register, when no marker
    before it changes the side. -/
theorem scanEntries_of_getElem {xs : List Nat} {i : Nat} (hi : i < xs.length) (hv : xs[i] = vreg)
    (hbefore : ∀ k (hk : k < i), xs[k] ≠ vreg) {in_floats : Bool} (hside : in_floats = is_float)
    (hmark : 0xffff ∈ xs → in_floats = true) (rest : List Nat) (i₀ : Nat) :
    scanEntries vreg is_float (xs ++ rest) i₀ in_floats = (true, i₀ + i) := by
  induction xs generalizing i i₀ with
  | nil => exact absurd hi (Nat.not_lt_zero i)
  | cons x xs ih =>
    rw [List.cons_append, scanEntries]
    cases i with
    | zero => rw [if_pos ⟨hv, hside⟩, Nat.add_zero]
    | succ i =>
      have hx : x ≠ vreg := hbefore 0 (Nat.zero_lt_succ i)
      -- a marker before the match leaves the side as it was
      have hkeep : (if x = 0xffff then true else in_floats) = in_floats := by
        split
        · next hm => exact (hmark (hm ▸ List.mem_cons_self)).symm
        · rfl
      rw [if_neg fun hm => hx hm.1, hkeep,
        ih (by simpa using hi) hv (fun k hk => hbefore (k + 1) (by omega))
          (fun hm => hmark (List.mem_cons_of_mem x hm))]
      rw [Nat.add_assoc, Nat.add_comm 1]

end Scan

section Encoded

/-- An entry below `2^16` is read back as itself. -/
theorem toNat_toUInt32_mod {e : Nat} (he : e < 2 ^ 16) : e.toUInt32.toNat % 2 ^ 16 = e := by
  rw [Nat.toUInt32, UInt32.toNat_ofNat', Nat.mod_eq_of_lt (show e < 2 ^ 32 by omega),
    Nat.mod_eq_of_lt he]

theorem toNat_toUInt32 {n : Nat} (hn : n < 2 ^ 32) : n.toUInt32.toNat = n := by
  rw [Nat.toUInt32, UInt32.toNat_ofNat', Nat.mod_eq_of_lt hn]

/-- Each read of `IsInContext`'s loop decodes the next entry. -/
theorem isInContextLoop_encoded {t : VmapTable} {vreg : Nat} {is_float : Bool}
    (pre post : List UInt8) (es : List Nat) (hes : ∀ e ∈ es, e < 2 ^ 16)
    (ht : t.table = pre ++ (es.map Nat.toUInt32).flatMap pushBackLoop ++ post)
    (i : Nat) (in_floats : Bool) :
    t.isInContextLoop vreg is_float es.length i pre.length in_floats =
      some (scanEntries vreg is_float es i in_floats) := by
  induction es generalizing pre i in_floats with
  | nil => rfl
  | cons e es ih =>
    have ht' : t.table = pre ++ pushBackLoop e.toUInt32 ++
        ((es.map Nat.toUInt32).flatMap pushBackLoop ++ post) := by
      rw [ht, List.map_cons, List.flatMap_cons, List.append_assoc, List.append_assoc, List.append_assoc]
    have hdec := decodeUnsignedLeb128_pushBackLoop pre
      ((es.map Nat.toUInt32).flatMap pushBackLoop ++ post) e.toUInt32
    rw [← ht'] at hdec
    have hentry := toNat_toUInt32_mod (hes e List.mem_cons_self)
    rw [List.length_cons, isInContextLoop, hdec, Option.bind_eq_bind, Option.bind_some]
    dsimp only
    rw [hentry, scanEntries]
    split
    · rfl
    · have hlen : pre.length + (pushBackLoop e.toUInt32).length = (pre ++ pushBackLoop e.toUInt32).length :=
        (List.length_append).symm
      rw [hlen]
      exact ih _ (fun x hx => hes x (List.mem_cons_of_mem e hx))
        (by rw [ht']; simp only [List.append_assoc]) _ _

/-- `IsInContext` on an encoded table is the scan of its entries. -/
theorem isInContext_encoded {raw : List Nat} (hraw : ∀ e ∈ raw, e < 2 ^ 16)
    (hlen : raw.length < 2 ^ 32) (vreg : Nat) (kind : VRegKind) :
    (⟨encodeEntries raw⟩ : VmapTable).isInContext vreg kind =
      some (scanEntries vreg kind.isFloat raw 0 false) := by
  have hdec := decodeUnsignedLeb128_pushBackLoop []
    ((raw.map Nat.toUInt32).flatMap pushBackLoop) raw.length.toUInt32
  rw [List.nil_append, List.length_nil, Nat.zero_add] at hdec
  rw [isInContext]
  dsimp only
  rw [encodeEntries, hdec, Option.bind_eq_bind, Option.bind_some]
  dsimp only
  rw [toNat_toUInt32 hlen]
  exact isInContextLoop_encoded (pushBackLoop raw.length.toUInt32) [] raw hraw
    (by rw [List.append_nil]) 0 false

/-- The reads before the marker are the entries before it. -/
theorem skipToMarker_encoded {t : VmapTable} (pre post : List UInt8) (core : List Nat)
    (hcore : ∀ e ∈ core, e < 0xffff)
    (ht : t.table = pre ++ (core.map Nat.toUInt32).flatMap pushBackLoop ++
      pushBackLoop (0xffff : Nat).toUInt32 ++ post)
    (fuel : Nat) (hfuel : core.length < fuel) (num_matches : Nat) :
    t.skipToMarker fuel pre.length num_matches = some (num_matches + core.length) := by
  induction core generalizing pre fuel num_matches with
  | nil =>
    obtain ⟨fuel, rfl⟩ : ∃ f, fuel = f + 1 := ⟨fuel - 1, by simp at hfuel; omega⟩
    have hdec := decodeUnsignedLeb128_pushBackLoop pre post (0xffff : Nat).toUInt32
    rw [List.map_nil, List.flatMap_nil, List.append_nil] at ht
    rw [← ht] at hdec
    rw [skipToMarker, hdec, Option.bind_eq_bind, Option.bind_some]
    dsimp only
    rw [if_neg (by decide)]
    rfl
  | cons e core ih =>
    obtain ⟨fuel, rfl⟩ : ∃ f, fuel = f + 1 := ⟨fuel - 1, by simp at hfuel; omega⟩
    have he := hcore e List.mem_cons_self
    have ht' : t.table = pre ++ pushBackLoop e.toUInt32 ++
        ((core.map Nat.toUInt32).flatMap pushBackLoop ++ pushBackLoop (0xffff : Nat).toUInt32 ++ post) := by
      rw [ht, List.map_cons, List.flatMap_cons]
      simp only [List.append_assoc]
    have hdec := decodeUnsignedLeb128_pushBackLoop pre
      ((core.map Nat.toUInt32).flatMap pushBackLoop ++ pushBackLoop (0xffff : Nat).toUInt32 ++ post) e.toUInt32
    rw [← ht'] at hdec
    -- an entry below the marker is not read as the marker
    have hne : e.toUInt32 ≠ 0xffff := fun h => by
      have := congrArg UInt32.toNat h
      rw [toNat_toUInt32 (by omega)] at this
      exact absurd this (by simp; omega)
    rw [skipToMarker, hdec, Option.bind_eq_bind, Option.bind_some]
    dsimp only
    rw [if_pos hne, ← List.length_append,
      ih _ (fun x hx => hcore x (List.mem_cons_of_mem e hx)) (by rw [ht']; simp only [List.append_assoc])
        fuel (by simp at hfuel; omega)]
    rw [List.length_cons, Nat.add_assoc, Nat.add_comm 1]

/-- A run of encoded values has a byte for each at least. -/
theorem length_le_length_flatMap_pushBackLoop (vs : List UInt32) :
    vs.length ≤ (vs.flatMap pushBackLoop).length := by
  induction vs with
  | nil => exact Nat.le_refl 0
  | cons v vs ih =>
    have hv : 0 < (pushBackLoop v).length := List.length_pos_iff.2 (pushBackLoop_ne_nil v)
    rw [List.flatMap_cons, List.length_append, List.length_cons]
    omega

end Encoded

section Shifts

/-- The loop stops at once when the count is already the target. -/
theorem spillShiftsLoop_of_eq {target num_matches : Nat} (h : num_matches = target)
    (fuel spill_mask spill_shifts : Nat) :
    spillShiftsLoop target fuel spill_mask num_matches spill_shifts = some spill_shifts := by
  cases fuel <;> rw [spillShiftsLoop, if_pos h]

/-- `ComputeRegister`'s loop, started at a count of `num_matches`, stops one
    shift past the set bit that brings the count to the target. -/
theorem spillShiftsLoop_eq (fuel : Nat) : ∀ (spill_mask num_matches spill_shifts i : Nat)
    (hi : i < spill_mask.bitIndices.length), spill_mask.bitIndices[i] < fuel →
    spillShiftsLoop (num_matches + i + 1) fuel spill_mask num_matches spill_shifts =
      some (spill_shifts + spill_mask.bitIndices[i] + 1) := by
  induction fuel with
  | zero =>
    intro _ _ _ _ _ hfuel
    exact absurd hfuel (Nat.not_lt_zero _)
  | succ fuel ih =>
    intro spill_mask num_matches spill_shifts i hi hfuel
    rw [spillShiftsLoop, if_neg (by omega)]
    -- one bit per call: the low bit of the mask, then the rest shifted down
    obtain ⟨k, rfl | rfl⟩ := Nat.even_or_odd' spill_mask
    · have hshift : (2 * k) >>> 1 = k := by rw [Nat.shiftRight_eq_div_pow]; omega
      have hbit : 2 * k &&& 1 = 0 := by rw [Nat.and_one_is_mod]; omega
      have hlen : i < k.bitIndices.length := by simpa using hi
      have hget : (2 * k).bitIndices[i] = k.bitIndices[i] + 1 := by simp
      rw [hshift, hbit, hget]
      simp only [Nat.add_zero]
      rw [ih k num_matches (spill_shifts + 1) i hlen (by omega)]
      congr 1
      omega
    · have hshift : (2 * k + 1) >>> 1 = k := by rw [Nat.shiftRight_eq_div_pow]; omega
      have hbit : (2 * k + 1) &&& 1 = 1 := by rw [Nat.and_one_is_mod]; omega
      cases i with
      | zero =>
        -- the low bit is the one counted to
        rw [hshift, hbit, spillShiftsLoop_of_eq (by omega)]
        simp
      | succ i =>
        have hlen : i < k.bitIndices.length := by simpa using hi
        have hget : (2 * k + 1).bitIndices[i + 1] = k.bitIndices[i] + 1 := by simp
        rw [hshift, hbit, hget, show num_matches + (i + 1) + 1 = num_matches + 1 + i + 1 by omega,
          ih k (num_matches + 1) (spill_shifts + 1) i hlen (by omega)]
        congr 1
        omega

/-- The 32-bit popcount of a mask whose set bits are below 32 counts them all. -/
theorem popcount_eq_length {spill_mask : Nat} (h : ∀ b, spill_mask.testBit b = true → b < 32) :
    popcount spill_mask = spill_mask.bitIndices.length := by
  have heq : (List.range 32).filter (fun i => spill_mask.testBit i) = spill_mask.bitIndices := by
    refine (List.pairwise_lt_range.filter _).eq_of_mem_iff Nat.bitIndices_sorted.pairwise fun b => ?_
    rw [List.mem_filter, List.mem_range, Nat.mem_bitIndices]
    exact ⟨fun hb => hb.2, fun hb => ⟨h b hb, hb⟩⟩
  rw [popcount, heq]

theorem length_bitIndices_le {spill_mask : Nat} (h : ∀ b, spill_mask.testBit b = true → b < 32) :
    spill_mask.bitIndices.length ≤ 32 := by
  rw [← popcount_eq_length h, popcount]
  exact (List.length_filter_le _ _).trans (List.length_range).le

/-- For a kind that is not a float, the table is not read: the `i`-th entry
    is the `i`-th set bit. -/
theorem computeRegister_core (t : VmapTable) {kind : VRegKind} (hkind : kind.isFloat = false)
    {spill_mask i : Nat} (hi : i < spill_mask.bitIndices.length)
    (hbits : ∀ b, spill_mask.testBit b = true → b < 32) :
    t.computeRegister spill_mask i kind = some spill_mask.bitIndices[i] := by
  have hb : spill_mask.bitIndices[i] < 32 := hbits _ (Nat.mem_bitIndices.1 (List.getElem_mem hi))
  have hsmall := length_bitIndices_le hbits
  have hcheck : (i + 2 ^ 32 - 0) % 2 ^ 32 < popcount spill_mask := by
    rw [popcount_eq_length hbits]
    omega
  have hloop := spillShiftsLoop_eq 32 spill_mask 0 0 i hi hb
  rw [show 0 + i + 1 = (i + 1) % 2 ^ 32 by omega] at hloop
  rw [computeRegister, hkind, if_neg Bool.false_ne_true, pure_bind]
  dsimp only
  rw [if_pos hcheck, hloop, Option.bind_eq_bind, Option.bind_some, Option.pure_def]
  exact congrArg some (by omega)

/-- For a float kind, the count starts past the marker: the `j`-th entry
    after it is the `j`-th set bit. -/
theorem computeRegister_float {kind : VRegKind} (hkind : kind.isFloat = true) {core rest : List Nat}
    (hcore : ∀ e ∈ core, e < 0xffff) (hlen : (core ++ 0xffff :: rest).length < 2 ^ 16)
    {spill_mask j : Nat} (hj : j < spill_mask.bitIndices.length)
    (hbits : ∀ b, spill_mask.testBit b = true → b < 32) :
    (⟨encodeEntries (core ++ 0xffff :: rest)⟩ : VmapTable).computeRegister spill_mask
      (core.length + 1 + j) kind = some spill_mask.bitIndices[j] := by
  have hb : spill_mask.bitIndices[j] < 32 := hbits _ (Nat.mem_bitIndices.1 (List.getElem_mem hj))
  have hsmall := length_bitIndices_le hbits
  have hcount : core.length < 2 ^ 16 := by
    rw [List.length_append, List.length_cons] at hlen
    omega
  -- the size, then the entries up to the marker
  have hdec := decodeUnsignedLeb128_pushBackLoop []
    (((core ++ 0xffff :: rest).map Nat.toUInt32).flatMap pushBackLoop)
    (core ++ 0xffff :: rest).length.toUInt32
  rw [List.nil_append, List.length_nil, Nat.zero_add, ← encodeEntries] at hdec
  have hbytes : (core ++ 0xffff :: rest).length ≤ (encodeEntries (core ++ 0xffff :: rest)).length := by
    have h := length_le_length_flatMap_pushBackLoop ((core ++ 0xffff :: rest).map Nat.toUInt32)
    rw [List.length_map] at h
    exact h.trans (List.sublist_append_right _ _).length_le
  have hskip := skipToMarker_encoded (t := ⟨encodeEntries (core ++ 0xffff :: rest)⟩)
    (pushBackLoop (core ++ 0xffff :: rest).length.toUInt32)
    ((rest.map Nat.toUInt32).flatMap pushBackLoop) core hcore
    (by simp only [encodeEntries, List.map_append, List.map_cons, List.flatMap_append,
      List.flatMap_cons, List.append_assoc])
    (encodeEntries (core ++ 0xffff :: rest)).length
    (by rw [List.length_append, List.length_cons] at hbytes; omega) 0
  have hcheck : (core.length + 1 + j + 2 ^ 32 - (0 + core.length + 1)) % 2 ^ 32 <
      popcount spill_mask := by
    rw [popcount_eq_length hbits]
    omega
  have hloop := spillShiftsLoop_eq 32 spill_mask (0 + core.length + 1) 0 j hj hb
  rw [show 0 + core.length + 1 + j + 1 = (core.length + 1 + j + 1) % 2 ^ 32 by omega] at hloop
  rw [computeRegister, hkind, if_pos rfl]
  dsimp only
  rw [hdec, Option.bind_eq_bind, Option.bind_some]
  dsimp only
  rw [hskip, Option.bind_eq_bind, Option.bind_some, Option.pure_def, Option.bind_some,
    if_pos hcheck, hloop, Option.bind_some]
  exact congrArg some (by omega)

end Shifts

/-! ### Lookups in a written table

A table as `GetCompiledMethod` writes it with a frame: core entries, none of
them `0xffff`, the marker, then fp entries. -/

theorem marker_not_mem_core {coreE : List Nat} (hcoreE : ∀ e ∈ coreE, e < 0xffff) : 0xffff ∉ coreE :=
  fun h => absurd (hcoreE _ h) (Nat.lt_irrefl _)

section Lookups

variable {coreE fpE : List Nat} (hcoreE : ∀ e ∈ coreE, e < 0xffff) (hfpE : ∀ e ∈ fpE, e < 2 ^ 16)
  (hlen : (coreE ++ 0xffff :: fpE).length < 2 ^ 16)
include hcoreE hfpE hlen

omit hlen in
theorem entries_lt : ∀ e ∈ coreE ++ 0xffff :: fpE, e < 2 ^ 16 := by
  intro e he
  rcases List.mem_append.1 he with he | he
  · have := hcoreE e he
    omega
  · rcases List.mem_cons.1 he with rfl | he
    · decide
    · exact hfpE e he

/-- A core entry is found at its offset, and the offset's set bit of the
    mask is the register. -/
theorem lookup_core (hnodup : coreE.Nodup) {spill_mask i : Nat} (hi : i < coreE.length)
    (hmi : i < spill_mask.bitIndices.length) (hbits : ∀ b, spill_mask.testBit b = true → b < 32)
    {kind : VRegKind} (hkind : kind.isFloat = false) :
    (⟨encodeEntries (coreE ++ 0xffff :: fpE)⟩ : VmapTable).isInContext coreE[i] kind = some (true, i) ∧
      (⟨encodeEntries (coreE ++ 0xffff :: fpE)⟩ : VmapTable).computeRegister spill_mask i kind =
        some spill_mask.bitIndices[i] := by
  refine ⟨?_, computeRegister_core _ hkind hmi hbits⟩
  rw [isInContext_encoded (entries_lt hcoreE hfpE) (by omega), hkind,
    scanEntries_of_getElem hi rfl (fun k hk h => absurd ((hnodup.getElem_inj_iff).1 h) (by omega)) rfl
      (fun h => absurd h (marker_not_mem_core hcoreE)),
    Nat.zero_add]

/-- An fp entry is found past the marker at its first occurrence, and the
    set bit it counts to is the register. -/
theorem lookup_float {spill_mask j : Nat} (hj : j < fpE.length) (hv : fpE[j] < 0xffff)
    (hbefore : ∀ k (hk : k < j), fpE[k] ≠ fpE[j]) (hmj : j < spill_mask.bitIndices.length)
    (hbits : ∀ b, spill_mask.testBit b = true → b < 32) {kind : VRegKind} (hkind : kind.isFloat = true) :
    (⟨encodeEntries (coreE ++ 0xffff :: fpE)⟩ : VmapTable).isInContext fpE[j] kind =
        some (true, coreE.length + 1 + j) ∧
      (⟨encodeEntries (coreE ++ 0xffff :: fpE)⟩ : VmapTable).computeRegister spill_mask
        (coreE.length + 1 + j) kind = some spill_mask.bitIndices[j] := by
  refine ⟨?_, computeRegister_float hkind hcoreE hlen hmj hbits⟩
  -- the core entries are on the other side, and the marker turns the scan
  have hfound := scanEntries_of_getElem hj rfl hbefore rfl (fun _ => rfl) [] (0 + coreE.length + 1)
  rw [List.append_nil] at hfound
  rw [isInContext_encoded (entries_lt hcoreE hfpE) (by omega), hkind,
    scanEntries_append_of_skip (marker_not_mem_core hcoreE) (.inl Bool.false_ne_true),
    scanEntries_marker (by omega), hfound, Nat.zero_add]

/-- A register that is no core entry is not found for a kind that is not a
    float. -/
theorem lookup_not_core {v : Nat} (hv : v < 0xffff) (hnot : v ∉ coreE) {kind : VRegKind}
    (hkind : kind.isFloat = false) :
    (⟨encodeEntries (coreE ++ 0xffff :: fpE)⟩ : VmapTable).isInContext v kind =
      some (false, 0xEBAD0FF5) := by
  rw [isInContext_encoded (entries_lt hcoreE hfpE) (by omega),
    scanEntries_append_of_skip (marker_not_mem_core hcoreE) (.inr hnot),
    scanEntries_marker (by omega), scanEntries_of_in_floats hkind]

/-- A register that is no fp entry is not found for a float kind. -/
theorem lookup_not_float {v : Nat} (hv : v < 0xffff) (hnot : v ∉ fpE) {kind : VRegKind}
    (hkind : kind.isFloat = true) :
    (⟨encodeEntries (coreE ++ 0xffff :: fpE)⟩ : VmapTable).isInContext v kind =
      some (false, 0xEBAD0FF5) := by
  rw [isInContext_encoded (entries_lt hcoreE hfpE) (by omega), hkind,
    scanEntries_append_of_skip (marker_not_mem_core hcoreE) (.inl Bool.false_ne_true),
    scanEntries_marker (by omega), scanEntries_of_not_mem hnot]

end Lookups


end VmapTable

/-! ### What the promotions leave -/

namespace Mir2Lir

theorem runPromotions_cons (s : Mir2Lir) (op : PromotionOp) (ops : List PromotionOp) :
    s.runPromotions (op :: ops) = (s.promote op).runPromotions ops := rfl

theorem runPromotions_append (s : Mir2Lir) (ops ops' : List PromotionOp) :
    s.runPromotions (ops ++ ops') = (s.runPromotions ops).runPromotions ops' :=
  List.foldl_append

theorem frame_size_runPromotions (s : Mir2Lir) (ops : List PromotionOp) :
    (s.runPromotions ops).frame_size = s.frame_size := by
  induction ops generalizing s with
  | nil => rfl
  | cons op ops ih =>
    rw [runPromotions_cons, ih]
    cases op <;> simp only [promote, recordCorePromotion, adjustSpillMask, markPreservedSingle]

/-- The entry `RecordCorePromotion` keeps for a promotion. -/
def coreEntry (p : Nat × Nat) : Nat := (p.1 <<< VREG_NUM_WIDTH) ||| (p.2 &&& vregMask)

/-- The core entries are the core promotions' entries, in call order. -/
theorem core_vmap_table_runPromotions (s : Mir2Lir) (ops : List PromotionOp) :
    (s.runPromotions ops).core_vmap_table = s.core_vmap_table ++ (corePromotions ops).map coreEntry := by
  induction ops generalizing s with
  | nil => rw [corePromotions, List.map_nil, List.append_nil]; rfl
  | cons op ops ih =>
    rw [runPromotions_cons, ih]
    cases op with
    | recordCorePromotion reg v_reg =>
      rw [corePromotions, List.map_cons, ← List.singleton_append, ← List.append_assoc]
      rfl
    | adjustSpillMask => rfl
    | markPreservedSingle v_reg reg => simp only [promote, markPreservedSingle, corePromotions]

/-- The core mask has the bits of the promoted registers and of `lr` once
    `AdjustSpillMask` has run, and no others. -/
theorem testBit_core_spill_mask (s : Mir2Lir) (ops : List PromotionOp) (b : Nat) :
    (s.runPromotions ops).core_spill_mask.testBit b = true ↔
      s.core_spill_mask.testBit b = true ∨ b ∈ (corePromotions ops).map Prod.fst ∨
        (PromotionOp.adjustSpillMask ∈ ops ∧ b = rARM_LR) := by
  induction ops generalizing s with
  | nil => simp [runPromotions, corePromotions]
  | cons op ops ih =>
    rw [runPromotions_cons, ih]
    cases op with
    | recordCorePromotion reg v_reg =>
      simp only [promote, recordCorePromotion, Nat.testBit_or, Nat.one_shiftLeft, Nat.testBit_two_pow,
        Bool.or_eq_true, decide_eq_true_eq, corePromotions, List.map_cons, List.mem_cons,
        reduceCtorEq, false_or]
      constructor
      · rintro ((h | rfl) | h | h)
        · exact .inl h
        · exact .inr (.inl (.inl rfl))
        · exact .inr (.inl (.inr h))
        · exact .inr (.inr h)
      · rintro (h | (rfl | h) | h)
        · exact .inl (.inl h)
        · exact .inl (.inr rfl)
        · exact .inr (.inl h)
        · exact .inr (.inr h)
    | adjustSpillMask =>
      simp only [promote, adjustSpillMask, Nat.testBit_or, Nat.one_shiftLeft, Nat.testBit_two_pow,
        Bool.or_eq_true, decide_eq_true_eq, corePromotions, List.mem_cons, true_or, true_and]
      constructor
      · rintro ((h | rfl) | h | ⟨-, rfl⟩)
        · exact .inl h
        · exact .inr (.inr rfl)
        · exact .inr (.inl h)
        · exact .inr (.inr rfl)
      · rintro (h | h | rfl)
        · exact .inl (.inl h)
        · exact .inr (.inl h)
        · exact .inl (.inr rfl)
    | markPreservedSingle v_reg reg =>
      simp only [promote, markPreservedSingle, corePromotions, List.mem_cons, reduceCtorEq, false_or]

/-- The fp mask covers the fp table: each call keeps it so. -/
def FpMask (s : Mir2Lir) : Prop :=
  s.fp_spill_mask = ((1 <<< s.fp_vmap_table.length) - 1) <<< ARM_FP_CALLEE_SAVE_BASE

theorem FpMask.init (frame_size : Int) : FpMask (Mir2Lir.init frame_size) := by
  simp [FpMask, Mir2Lir.init]

theorem FpMask.runPromotions {s : Mir2Lir} (h : FpMask s) (ops : List PromotionOp) :
    FpMask (s.runPromotions ops) := by
  induction ops generalizing s with
  | nil => exact h
  | cons op ops ih =>
    rw [runPromotions_cons]
    refine ih ?_
    -- only `MarkPreservedSingle` writes the fp fields, and it sets the mask from the table
    cases op with
    | recordCorePromotion reg v_reg => exact h
    | adjustSpillMask => exact h
    | markPreservedSingle v_reg reg => simp only [FpMask, promote, markPreservedSingle]

/-- The index in the fp table of the single `reg`. -/
def fpIndex (reg : Nat) : Nat := (reg &&& ARM_FP_REG_MASK) - ARM_FP_CALLEE_SAVE_BASE

/-- The fp table's entry at `k` after the promotions `fps`: the Dalvik
    register of the last one to index `k`, or a hole. -/
def fpSlot (fps : List (Nat × Nat)) (k : Nat) : Nat :=
  fps.foldl (fun slot p => if fpIndex p.2 = k then p.1 else slot) INVALID_VREG

/-- The fp table's size after the promotions `fps`: one past the highest
    index. -/
def fpHighWater (fps : List (Nat × Nat)) : Nat :=
  fps.foldl (fun n p => max n (fpIndex p.2 + 1)) 0

theorem fpSlot_append (fps : List (Nat × Nat)) (p : Nat × Nat) (k : Nat) :
    fpSlot (fps ++ [p]) k = if fpIndex p.2 = k then p.1 else fpSlot fps k := by
  rw [fpSlot, List.foldl_append]
  rfl

theorem fpHighWater_append (fps : List (Nat × Nat)) (p : Nat × Nat) :
    fpHighWater (fps ++ [p]) = max (fpHighWater fps) (fpIndex p.2 + 1) := by
  rw [fpHighWater, List.foldl_append]
  rfl

/-- Past the high-water mark there are only holes. -/
theorem fpSlot_of_le {fps : List (Nat × Nat)} {k : Nat} (h : fpHighWater fps ≤ k) :
    fpSlot fps k = INVALID_VREG := by
  induction fps using List.reverseRecOn with
  | nil => rfl
  | append_singleton fps p ih =>
    rw [fpHighWater_append] at h
    rw [fpSlot_append, if_neg (by omega), ih (by omega)]

/-- The fp table after the promotions `fps`, index by index. -/
structure FpTable (fps : List (Nat × Nat)) (table : List Nat) : Prop where
  length_eq : table.length = fpHighWater fps
  getElem_eq : ∀ k (hk : k < table.length), table[k] = fpSlot fps k

theorem FpTable.nil : FpTable [] [] := ⟨rfl, fun k hk => absurd hk (Nat.not_lt_zero k)⟩

/-- `MarkPreservedSingle` grows the table to the new index and writes it. -/
theorem FpTable.mark {fps : List (Nat × Nat)} {table : List Nat} (h : FpTable fps table)
    (v_reg reg : Nat) :
    FpTable (fps ++ [(v_reg, reg)])
      ((table ++ List.replicate (fpIndex reg + 1 - table.length) INVALID_VREG).set (fpIndex reg) v_reg) := by
  constructor
  · rw [List.length_set, List.length_append, List.length_replicate, fpHighWater_append,
      ← h.length_eq]
    dsimp only
    omega
  · intro k hk
    rw [List.getElem_set, fpSlot_append]
    by_cases hkj : fpIndex reg = k
    · rw [if_pos hkj, if_pos hkj]
    · rw [if_neg hkj, if_neg hkj]
      by_cases hkt : k < table.length
      · rw [List.getElem_append_left hkt, h.getElem_eq]
      · -- a hole the call filled in
        rw [List.getElem_append_right (by omega), List.getElem_replicate,
          fpSlot_of_le (by rw [← h.length_eq]; omega)]

theorem fpPromotions_cons (op : PromotionOp) (ops : List PromotionOp) :
    fpPromotions (op :: ops) = fpPromotions [op] ++ fpPromotions ops := by
  cases op <;> rfl

theorem fpPromotions_append (ops ops' : List PromotionOp) :
    fpPromotions (ops ++ ops') = fpPromotions ops ++ fpPromotions ops' := by
  induction ops with
  | nil => rfl
  | cons op ops ih => rw [List.cons_append, fpPromotions_cons, ih, fpPromotions_cons op ops,
      List.append_assoc]

theorem corePromotions_append (ops ops' : List PromotionOp) :
    corePromotions (ops ++ ops') = corePromotions ops ++ corePromotions ops' := by
  induction ops with
  | nil => rfl
  | cons op ops ih => cases op <;> simp only [List.cons_append, corePromotions, ih, List.cons_append]

/-- Every order of the calls leaves the table of its single promotions. -/
theorem FpTable.runPromotions {s : Mir2Lir} {fps : List (Nat × Nat)}
    (h : FpTable fps s.fp_vmap_table) (ops : List PromotionOp) :
    FpTable (fps ++ fpPromotions ops) (s.runPromotions ops).fp_vmap_table := by
  induction ops generalizing s fps with
  | nil => rw [fpPromotions, List.append_nil]; exact h
  | cons op ops ih =>
    rw [runPromotions_cons, fpPromotions_cons, ← List.append_assoc]
    refine ih ?_
    cases op with
    | recordCorePromotion reg v_reg => simp only [fpPromotions, List.append_nil]; exact h
    | adjustSpillMask => simp only [fpPromotions, List.append_nil]; exact h
    | markPreservedSingle v_reg reg => exact h.mark v_reg reg

/-! ### The registers behind the entries -/

/-- A core entry is the register above the Dalvik register. -/
theorem coreEntry_eq {p : Nat × Nat} (hv : p.2 < 2 ^ 16) : coreEntry p = p.1 * 2 ^ 16 + p.2 := by
  rw [coreEntry, vregMask, VREG_NUM_WIDTH, Nat.one_shiftLeft, Nat.and_two_pow_sub_one_eq_mod,
    Nat.mod_eq_of_lt hv, ← Nat.shiftLeft_add_eq_or_of_lt hv, Nat.shiftLeft_eq]

theorem coreEntry_shiftRight {p : Nat × Nat} (hv : p.2 < 2 ^ 16) :
    coreEntry p >>> VREG_NUM_WIDTH = p.1 := by
  rw [coreEntry_eq hv, Nat.shiftRight_eq_div_pow, VREG_NUM_WIDTH]
  omega

theorem vregMask_and_coreEntry {p : Nat × Nat} (hv : p.2 < 2 ^ 16) :
    (vregMask &&& coreEntry p) = p.2 := by
  rw [Nat.and_comm, vregMask, VREG_NUM_WIDTH, Nat.one_shiftLeft, Nat.and_two_pow_sub_one_eq_mod,
    coreEntry_eq hv]
  omega

section Sorted

variable {cores : List (Nat × Nat)} (hv : ∀ p ∈ cores, p.2 < 2 ^ 16)
include hv

/-- The sort's registers are the promoted registers. -/
theorem perm_sorted_regs :
    (((cores.map coreEntry).insertionSort (· ≤ ·)).map (· >>> VREG_NUM_WIDTH)).Perm
      (cores.map Prod.fst) := by
  have hmap : (cores.map coreEntry).map (· >>> VREG_NUM_WIDTH) = cores.map Prod.fst := by
    rw [List.map_map]
    exact List.map_congr_left fun p hp => coreEntry_shiftRight (hv p hp)
  rw [← hmap]
  exact (List.perm_insertionSort _ _).map _

/-- The stripped entries are the promoted Dalvik registers. -/
theorem perm_sorted_vregs :
    (((cores.map coreEntry).insertionSort (· ≤ ·)).map (vregMask &&& ·)).Perm
      (cores.map Prod.snd) := by
  have hmap : (cores.map coreEntry).map (vregMask &&& ·) = cores.map Prod.snd := by
    rw [List.map_map]
    exact List.map_congr_left fun p hp => vregMask_and_coreEntry (hv p hp)
  rw [← hmap]
  exact (List.perm_insertionSort _ _).map _

/-- With distinct registers, the sort puts the registers in increasing order:
    the register sits above the Dalvik register in each entry. -/
theorem sorted_regs_lt (hnodup : (cores.map Prod.fst).Nodup) :
    (((cores.map coreEntry).insertionSort (· ≤ ·)).map (· >>> VREG_NUM_WIDTH)).Pairwise (· < ·) := by
  have hle := (List.pairwise_insertionSort (· ≤ ·) (cores.map coreEntry)).map (· >>> VREG_NUM_WIDTH)
    fun a b hab => by
      rw [Nat.shiftRight_eq_div_pow, Nat.shiftRight_eq_div_pow]
      exact Nat.div_le_div_right hab
  have hne := (perm_sorted_regs hv).nodup_iff.2 hnodup
  exact (hle.and hne).imp fun h => Nat.lt_of_le_of_ne h.1 h.2

/-- Each promotion sits at one offset of the sorted entries, its register
    and its Dalvik register side by side. -/
theorem exists_sorted_index {p : Nat × Nat} (hp : p ∈ cores) :
    ∃ i, ∃ hi : i < ((cores.map coreEntry).insertionSort (· ≤ ·)).length,
      ((cores.map coreEntry).insertionSort (· ≤ ·))[i] >>> VREG_NUM_WIDTH = p.1 ∧
        (vregMask &&& ((cores.map coreEntry).insertionSort (· ≤ ·))[i]) = p.2 := by
  have hmem : coreEntry p ∈ (cores.map coreEntry).insertionSort (· ≤ ·) :=
    (List.perm_insertionSort _ _).mem_iff.2 (List.mem_map_of_mem hp)
  obtain ⟨i, hi, hget⟩ := List.getElem_of_mem hmem
  exact ⟨i, hi, by rw [hget, coreEntry_shiftRight (hv p hp)], by rw [hget, vregMask_and_coreEntry (hv p hp)]⟩

end Sorted

/-- From the constructor, the core mask's set bits are the sorted registers,
    then `lr` if `AdjustSpillMask` ran. -/
theorem bitIndices_core_spill_mask (frame_size : Int) (ops : List PromotionOp)
    (hv : ∀ p ∈ corePromotions ops, p.2 < 2 ^ 16) (hregs : ∀ p ∈ corePromotions ops, p.1 < rARM_LR)
    (hnodup : ((corePromotions ops).map Prod.fst).Nodup) :
    ∃ tail, ((init frame_size).runPromotions ops).core_spill_mask.bitIndices =
      (((corePromotions ops).map coreEntry).insertionSort (· ≤ ·)).map (· >>> VREG_NUM_WIDTH) ++ tail ∧
      ∀ b ∈ tail, b = rARM_LR := by
  have hperm := perm_sorted_regs hv
  have hbit := testBit_core_spill_mask (init frame_size) ops
  -- `lr` is above every promoted register, so it comes last
  have hbelow : ∀ a ∈ (((corePromotions ops).map coreEntry).insertionSort (· ≤ ·)).map
      (· >>> VREG_NUM_WIDTH), a < rARM_LR := fun a ha => by
    obtain ⟨p, hp, rfl⟩ := List.mem_map.1 (hperm.mem_iff.1 ha)
    exact hregs p hp
  by_cases hadj : PromotionOp.adjustSpillMask ∈ ops
  · refine ⟨[rARM_LR], ?_, fun b hb => List.mem_singleton.1 hb⟩
    refine Nat.bitIndices_sorted.pairwise.eq_of_mem_iff
      (List.pairwise_append.2 ⟨sorted_regs_lt hv hnodup, List.pairwise_singleton _ _,
        fun a ha b hb => List.mem_singleton.1 hb ▸ hbelow a ha⟩) fun b => ?_
    rw [Nat.mem_bitIndices, hbit, List.mem_append, hperm.mem_iff, List.mem_singleton]
    simp only [init, Nat.zero_testBit, Bool.false_eq_true, false_or, hadj, true_and]
  · refine ⟨[], ?_, fun b hb => absurd hb List.not_mem_nil⟩
    refine Nat.bitIndices_sorted.pairwise.eq_of_mem_iff
      (by rw [List.append_nil]; exact sorted_regs_lt hv hnodup) fun b => ?_
    rw [Nat.mem_bitIndices, hbit, List.mem_append, hperm.mem_iff]
    simp only [init, Nat.zero_testBit, Bool.false_eq_true, false_or, hadj, false_and, or_false,
      List.not_mem_nil]

/-- A core register the allocator promotes to is below `lr`. -/
theorem lt_rARM_LR_of_isCalleeSaveCore {reg : Nat} (h : isCalleeSaveCore reg = true) :
    reg < rARM_LR := by
  simp only [isCalleeSaveCore, Bool.and_eq_true, Bool.not_eq_true', List.contains_iff_mem, coreRegs,
    List.mem_cons, List.not_mem_nil, or_false] at h
  obtain ⟨⟨hmem, hres⟩, -⟩ := h
  -- `lr` and `pc` are reserved
  have h14 : reg ≠ 14 := fun h => absurd (h ▸ hres) (by decide)
  have h15 : reg ≠ 15 := fun h => absurd (h ▸ hres) (by decide)
  rw [rARM_LR]
  omega

/-- A single the allocator promotes to is `s16` to `s31`. -/
theorem fpIndex_of_isCalleeSaveSingle {reg : Nat} (h : isCalleeSaveSingle reg = true) :
    fpIndex reg < 16 ∧ reg - ARM_FP_REG_OFFSET = ARM_FP_CALLEE_SAVE_BASE + fpIndex reg := by
  have hrange : 48 ≤ reg ∧ reg < 64 := by
    simp only [isCalleeSaveSingle, fpRegs, fpTemps, Bool.and_eq_true, Bool.not_eq_true',
      List.contains_iff_mem, List.mem_map, List.mem_range, ARM_FP_REG_OFFSET] at h
    obtain ⟨⟨a, ha, rfl⟩, hnot⟩ := h
    -- `fr0` to `fr15` are temps
    have h16 : ¬ a < 16 := fun ha' => by
      have hm : a + 32 ∈ (List.range 16).map (· + 32) := List.mem_map.2 ⟨a, List.mem_range.2 ha', rfl⟩
      rw [List.contains_iff_mem.2 hm] at hnot
      exact Bool.noConfusion hnot
    omega
  have hmask : reg &&& ARM_FP_REG_MASK = reg % 2 ^ 5 := Nat.and_two_pow_sub_one_eq_mod reg 5
  rw [fpIndex, hmask, ARM_FP_REG_OFFSET, ARM_FP_CALLEE_SAVE_BASE]
  omega

/-- The fp mask's set bits are the `len` registers from `s16`. -/
theorem bitIndices_fpMask (len : Nat) :
    (((1 <<< len) - 1) <<< ARM_FP_CALLEE_SAVE_BASE).bitIndices = List.range' ARM_FP_CALLEE_SAVE_BASE len := by
  refine Nat.bitIndices_sorted.pairwise.eq_of_mem_iff List.pairwise_lt_range' fun b => ?_
  rw [Nat.mem_bitIndices, List.mem_range'_1, Nat.testBit_shiftLeft, Nat.one_shiftLeft,
    Nat.testBit_two_pow_sub_one, Bool.and_eq_true, decide_eq_true_eq, decide_eq_true_eq]
  omega

/-! ### The fp table with each register used once -/

section Distinct

variable {fps : List (Nat × Nat)}

/-- The last promotion to an index is the one the table holds there. -/
theorem fpSlot_of_mem (hnodup : (fps.map fun p => fpIndex p.2).Nodup) {p : Nat × Nat}
    (hp : p ∈ fps) : fpSlot fps (fpIndex p.2) = p.1 := by
  induction fps using List.reverseRecOn with
  | nil => exact absurd hp List.not_mem_nil
  | append_singleton fps q ih =>
    rw [List.map_append, List.nodup_append] at hnodup
    rw [fpSlot_append]
    rcases List.mem_append.1 hp with hp | hp
    · -- an earlier promotion: the last one went to another index
      have hne : fpIndex q.2 ≠ fpIndex p.2 := fun h =>
        hnodup.2.2 _ (List.mem_map_of_mem hp) _ (List.mem_singleton.2 rfl) h.symm
      rw [if_neg hne, ih hnodup.1 hp]
    · rw [List.mem_singleton.1 hp, if_pos rfl]

/-- Every entry of the table is a hole or the Dalvik register of a promotion
    to its index. -/
theorem fpSlot_cases (fps : List (Nat × Nat)) (k : Nat) :
    fpSlot fps k = INVALID_VREG ∨ ∃ p ∈ fps, fpIndex p.2 = k ∧ fpSlot fps k = p.1 := by
  induction fps using List.reverseRecOn with
  | nil => exact .inl rfl
  | append_singleton fps q ih =>
    rw [fpSlot_append]
    split
    · next h => exact .inr ⟨q, List.mem_append_right _ (List.mem_singleton.2 rfl), h, rfl⟩
    · rcases ih with h | ⟨p, hp, hk, hslot⟩
      · exact .inl h
      · exact .inr ⟨p, List.mem_append_left _ hp, hk, hslot⟩

theorem lt_fpHighWater {p : Nat × Nat} (hp : p ∈ fps) : fpIndex p.2 < fpHighWater fps := by
  induction fps using List.reverseRecOn with
  | nil => exact absurd hp List.not_mem_nil
  | append_singleton fps q ih =>
    rw [fpHighWater_append]
    rcases List.mem_append.1 hp with hp | hp
    · have := ih hp
      omega
    · rw [List.mem_singleton.1 hp]
      omega

theorem fpHighWater_le {n : Nat} (h : ∀ p ∈ fps, fpIndex p.2 < n) : fpHighWater fps ≤ n := by
  induction fps using List.reverseRecOn with
  | nil => exact Nat.zero_le n
  | append_singleton fps q ih =>
    rw [fpHighWater_append]
    have h₁ := ih fun p hp => h p (List.mem_append_left _ hp)
    have h₂ := h q (List.mem_append_right _ (List.mem_singleton.2 rfl))
    omega

/-- An entry of the table is a hole or a promoted Dalvik register. -/
theorem FpTable.mem {table : List Nat} (h : FpTable fps table) {e : Nat} (he : e ∈ table) :
    e = INVALID_VREG ∨ ∃ p ∈ fps, e = p.1 := by
  obtain ⟨k, hk, rfl⟩ := List.getElem_of_mem he
  rw [h.getElem_eq k hk]
  rcases fpSlot_cases fps k with hslot | ⟨p, hp, -, hslot⟩
  · exact .inl hslot
  · exact .inr ⟨p, hp, hslot⟩

end Distinct

/-! ### The table written -/

theorem getCompiledMethod_vmap_table (s : Mir2Lir) :
    s.getCompiledMethod.vmap_table = VmapTable.encodeEntries s.rawVmapTable := by
  show insertBack (pushBack [] _) _ = _
  rw [insertBack_eq, pushBack, List.nil_append]
  rfl

/-- With a frame, the raw table is the sorted core entries, the marker and
    the fp entries. -/
theorem rawVmapTable_of_frame (s : Mir2Lir) (hframe : 0 < s.frame_size)
    (hfp : ∀ e ∈ s.fp_vmap_table, e < 2 ^ 16) :
    s.rawVmapTable =
      (s.core_vmap_table.insertionSort (· ≤ ·)).map (vregMask &&& ·) ++ 0xffff :: s.fp_vmap_table := by
  have hcut : s.fp_vmap_table.map (· % 2 ^ 16) = s.fp_vmap_table := by
    rw [List.map_congr_left fun e he => Nat.mod_eq_of_lt (hfp e he), List.map_id']
  rw [rawVmapTable, if_pos hframe, hcut, List.append_assoc, List.singleton_append]
  rfl

/-! ### The lookups after the promotions -/

section Written

variable (frame_size : Int) {ops : List PromotionOp}
  (hcore : ∀ p ∈ corePromotions ops, isCalleeSaveCore p.1 = true ∧ p.2 < INVALID_VREG)
  (hcore_regs : ((corePromotions ops).map Prod.fst).Nodup)
  (hfp : ∀ p ∈ fpPromotions ops, isCalleeSaveSingle p.2 = true ∧ p.1 < INVALID_VREG)
include hcore hcore_regs hfp

omit hcore_regs hfp in
theorem corePromotions_lt {p : Nat × Nat} (hp : p ∈ corePromotions ops) : p.2 < 2 ^ 16 := by
  have := (hcore p hp).2
  rw [INVALID_VREG] at this
  omega

omit hcore hcore_regs in
/-- The fp table holds holes and promoted Dalvik registers, all below
    `2^16`. -/
theorem fp_vmap_table_lt {e : Nat}
    (he : e ∈ ((init frame_size).runPromotions ops).fp_vmap_table) : e < 2 ^ 16 := by
  have htable := (FpTable.nil.runPromotions (s := init frame_size) ops)
  rw [List.nil_append] at htable
  rcases htable.mem he with rfl | ⟨p, hp, rfl⟩
  · decide
  · have := (hfp p hp).2
    rw [INVALID_VREG] at this
    omega

omit hcore hcore_regs hfp in
/-- The written entries: the sorted core entries stripped, the marker, and
    the fp table. -/
theorem vmap_table_runPromotions (hframe : 0 < frame_size)
    (hfp : ∀ p ∈ fpPromotions ops, p.1 < INVALID_VREG) :
    ((init frame_size).runPromotions ops).getCompiledMethod.vmap_table =
      VmapTable.encodeEntries
        ((((corePromotions ops).map coreEntry).insertionSort (· ≤ ·)).map (vregMask &&& ·) ++
          0xffff :: ((init frame_size).runPromotions ops).fp_vmap_table) := by
  have hframe' : 0 < ((init frame_size).runPromotions ops).frame_size := by
    rw [frame_size_runPromotions]
    exact hframe
  have hentries : ∀ e ∈ ((init frame_size).runPromotions ops).fp_vmap_table, e < 2 ^ 16 := by
    intro e he
    have htable := (FpTable.nil.runPromotions (s := init frame_size) ops)
    rw [List.nil_append] at htable
    rcases htable.mem he with rfl | ⟨p, hp, rfl⟩
    · decide
    · have := hfp p hp
      rw [INVALID_VREG] at this
      omega
  rw [getCompiledMethod_vmap_table, rawVmapTable_of_frame _ hframe' hentries,
    core_vmap_table_runPromotions]
  rfl

omit hcore_regs in
/-- The written entries fit the reader: no core entry is the marker, every
    entry is a `uint16_t`, and there are fewer than `2^16`. -/
theorem written_bounds :
    (∀ e ∈ (((corePromotions ops).map coreEntry).insertionSort (· ≤ ·)).map (vregMask &&& ·),
      e < 0xffff) ∧
    (∀ e ∈ ((init frame_size).runPromotions ops).fp_vmap_table, e < 2 ^ 16) := by
  refine ⟨fun e he => ?_, fun e he => fp_vmap_table_lt frame_size (fun p hp => hfp p hp) he⟩
  obtain ⟨p, hp, rfl⟩ :=
    List.mem_map.1 ((perm_sorted_vregs fun p hp => corePromotions_lt hcore hp).mem_iff.1 he)
  exact (hcore p hp).2

theorem written_length :
    ((((corePromotions ops).map coreEntry).insertionSort (· ≤ ·)).map (vregMask &&& ·) ++
      0xffff :: ((init frame_size).runPromotions ops).fp_vmap_table).length < 2 ^ 16 := by
  have htable := (FpTable.nil.runPromotions (s := init frame_size) ops)
  rw [List.nil_append] at htable
  -- at most 14 core registers, each once, and 16 singles
  have hcount : (corePromotions ops).length ≤ 14 := by
    have h := (List.subperm_of_subset hcore_regs fun r hr => List.mem_range.2 (by
      obtain ⟨p, hp, rfl⟩ := List.mem_map.1 hr
      exact lt_rARM_LR_of_isCalleeSaveCore (hcore p hp).1)).length_le
    rwa [List.length_map, List.length_range] at h
  have hhw : fpHighWater (fpPromotions ops) ≤ 16 :=
    fpHighWater_le fun p hp => (fpIndex_of_isCalleeSaveSingle (hfp p hp).1).1
  rw [List.length_append, List.length_cons, List.length_map, List.length_insertionSort,
    List.length_map, htable.length_eq]
  omega

/-- A core promotion is found at its offset among the sorted entries, and
    that offset's set bit of `core_spill_mask_` is its register. -/
theorem lookup_corePromotion (hframe : 0 < frame_size)
    (hcore_vregs : ((corePromotions ops).map Prod.snd).Nodup) {r v : Nat}
    (hp : (r, v) ∈ corePromotions ops) {kind : VRegKind} (hkind : kind.isFloat = false) :
    ∃ off, (⟨((init frame_size).runPromotions ops).getCompiledMethod.vmap_table⟩ : VmapTable).isInContext
        v kind = some (true, off) ∧
      (⟨((init frame_size).runPromotions ops).getCompiledMethod.vmap_table⟩ : VmapTable).computeRegister
        ((init frame_size).runPromotions ops).core_spill_mask off kind = some r := by
  have hv16 : ∀ p ∈ corePromotions ops, p.2 < 2 ^ 16 := fun p hp => corePromotions_lt hcore hp
  have hlr : ∀ p ∈ corePromotions ops, p.1 < rARM_LR := fun p hp =>
    lt_rARM_LR_of_isCalleeSaveCore (hcore p hp).1
  obtain ⟨hcoreE, hfpE⟩ := written_bounds frame_size hcore hfp
  have hlen := written_length frame_size hcore hcore_regs hfp
  obtain ⟨i, hi, hreg, hvreg⟩ := exists_sorted_index hv16 hp
  obtain ⟨tail, hbits_eq, htail⟩ := bitIndices_core_spill_mask frame_size ops hv16 hlr hcore_regs
  -- the mask's set bits are the sorted registers, then `lr`
  have hbits : ∀ b, ((init frame_size).runPromotions ops).core_spill_mask.testBit b = true → b < 32 := by
    intro b hb
    rw [← Nat.mem_bitIndices, hbits_eq] at hb
    rcases List.mem_append.1 hb with hb | hb
    · obtain ⟨q, hq, rfl⟩ := List.mem_map.1 ((perm_sorted_regs hv16).mem_iff.1 hb)
      have := hlr q hq
      rw [rARM_LR] at this
      omega
    · rw [htail b hb]
      decide
  have hil : i < ((((corePromotions ops).map coreEntry).insertionSort (· ≤ ·)).map
      (· >>> VREG_NUM_WIDTH)).length := by
    rw [List.length_map]
    exact hi
  have hi' : i < ((((corePromotions ops).map coreEntry).insertionSort (· ≤ ·)).map
      (vregMask &&& ·)).length := by
    rw [List.length_map]
    exact hi
  have hmi : i < ((init frame_size).runPromotions ops).core_spill_mask.bitIndices.length := by
    rw [hbits_eq, List.length_append]
    omega
  have hget : ((init frame_size).runPromotions ops).core_spill_mask.bitIndices[i] = r := by
    simp only [hbits_eq, List.getElem_append_left hil, List.getElem_map, hreg]
  have hvi : ((((corePromotions ops).map coreEntry).insertionSort (· ≤ ·)).map (vregMask &&& ·))[i] = v := by
    rw [List.getElem_map, hvreg]
  have hnd := (perm_sorted_vregs hv16).nodup_iff.2 hcore_vregs
  obtain ⟨hfound, hreg'⟩ := VmapTable.lookup_core hcoreE hfpE hlen hnd hi' hmi hbits hkind
  rw [vmap_table_runPromotions frame_size hframe fun p hp => (hfp p hp).2]
  refine ⟨i, ?_, ?_⟩
  · rw [← hvi]
    exact hfound
  · rw [hreg', hget]

omit hcore hcore_regs in
/-- A single promotion is found past the marker at its index, and that
    index's set bit of `fp_spill_mask_` is its single. -/
theorem lookup_singlePromotion (hframe : 0 < frame_size)
    (hfp_regs : ((fpPromotions ops).map Prod.snd).Nodup)
    (hfp_vregs : ((fpPromotions ops).map Prod.fst).Nodup) (hcore : ∀ p ∈ corePromotions ops,
      isCalleeSaveCore p.1 = true ∧ p.2 < INVALID_VREG)
    (hcore_regs : ((corePromotions ops).map Prod.fst).Nodup) {v reg : Nat}
    (hp : (v, reg) ∈ fpPromotions ops) {kind : VRegKind} (hkind : kind.isFloat = true) :
    ∃ off, (⟨((init frame_size).runPromotions ops).getCompiledMethod.vmap_table⟩ : VmapTable).isInContext
        v kind = some (true, off) ∧
      (⟨((init frame_size).runPromotions ops).getCompiledMethod.vmap_table⟩ : VmapTable).computeRegister
        ((init frame_size).runPromotions ops).fp_spill_mask off kind = some (reg - ARM_FP_REG_OFFSET) := by
  obtain ⟨hcoreE, hfpE⟩ := written_bounds frame_size hcore hfp
  have hlen := written_length frame_size hcore hcore_regs hfp
  have htable := (FpTable.nil.runPromotions (s := init frame_size) ops)
  rw [List.nil_append] at htable
  have hmask : ((init frame_size).runPromotions ops).fp_spill_mask =
      ((1 <<< ((init frame_size).runPromotions ops).fp_vmap_table.length) - 1) <<< ARM_FP_CALLEE_SAVE_BASE :=
    (FpMask.init frame_size).runPromotions ops
  obtain ⟨-, hsub⟩ := fpIndex_of_isCalleeSaveSingle (hfp _ hp).1
  dsimp only at hsub
  -- distinct singles have distinct indices
  have hnd_idx : ((fpPromotions ops).map fun p => fpIndex p.2).Nodup := by
    have hmap : (fpPromotions ops).map (fun p => fpIndex p.2) =
        ((fpPromotions ops).map Prod.snd).map fpIndex := by
      rw [List.map_map]
      rfl
    rw [hmap]
    refine hfp_regs.map_on fun a ha b hb hab => ?_
    obtain ⟨pa, hpa, rfl⟩ := List.mem_map.1 ha
    obtain ⟨pb, hpb, rfl⟩ := List.mem_map.1 hb
    have ha' := (fpIndex_of_isCalleeSaveSingle (hfp pa hpa).1).2
    have hb' := (fpIndex_of_isCalleeSaveSingle (hfp pb hpb).1).2
    rw [ARM_FP_REG_OFFSET, ARM_FP_CALLEE_SAVE_BASE] at ha' hb'
    omega
  have hj : fpIndex reg < ((init frame_size).runPromotions ops).fp_vmap_table.length := by
    have h := lt_fpHighWater hp
    rw [htable.length_eq]
    exact h
  have hvj : ((init frame_size).runPromotions ops).fp_vmap_table[fpIndex reg] = v := by
    have h := fpSlot_of_mem hnd_idx hp
    dsimp only at h
    rw [htable.getElem_eq _ hj, h]
  have hbefore : ∀ k (hk : k < fpIndex reg), ((init frame_size).runPromotions ops).fp_vmap_table[k] ≠
      ((init frame_size).runPromotions ops).fp_vmap_table[fpIndex reg] := by
    intro k hk heq
    rw [hvj, htable.getElem_eq k (by omega)] at heq
    rcases fpSlot_cases (fpPromotions ops) k with hslot | ⟨q, hq, hqk, hslot⟩
    · -- a hole is no Dalvik register
      have hv := (hfp _ hp).2
      dsimp only at hv
      rw [hslot] at heq
      omega
    · -- another promotion of the same Dalvik register is this one
      rw [hslot] at heq
      have hqeq : q = (v, reg) := List.inj_on_of_nodup_map hfp_vregs hq hp heq
      rw [hqeq] at hqk
      dsimp only at hqk
      omega
  have hbits_eq : ((init frame_size).runPromotions ops).fp_spill_mask.bitIndices =
      List.range' ARM_FP_CALLEE_SAVE_BASE ((init frame_size).runPromotions ops).fp_vmap_table.length := by
    rw [hmask, bitIndices_fpMask]
  have hhw : fpHighWater (fpPromotions ops) ≤ 16 :=
    fpHighWater_le fun p hp => (fpIndex_of_isCalleeSaveSingle (hfp p hp).1).1
  have hbits : ∀ b, ((init frame_size).runPromotions ops).fp_spill_mask.testBit b = true → b < 32 := by
    intro b hb
    rw [← Nat.mem_bitIndices, hbits_eq, List.mem_range'_1, htable.length_eq,
      ARM_FP_CALLEE_SAVE_BASE] at hb
    omega
  have hmj : fpIndex reg < ((init frame_size).runPromotions ops).fp_spill_mask.bitIndices.length := by
    rw [hbits_eq, List.length_range']
    exact hj
  have hget : ((init frame_size).runPromotions ops).fp_spill_mask.bitIndices[fpIndex reg] =
      reg - ARM_FP_REG_OFFSET := by
    simp only [hbits_eq, List.getElem_range']
    rw [hsub]
    omega
  obtain ⟨hfound, hreg'⟩ := VmapTable.lookup_float hcoreE hfpE hlen hj
    (by rw [hvj]; exact (hfp _ hp).2) hbefore hmj hbits hkind
  rw [vmap_table_runPromotions frame_size hframe fun p hp => (hfp p hp).2]
  refine ⟨_, ?_, hreg'.trans (congrArg some hget)⟩
  rw [← hvj]
  exact hfound

/-- Any other Dalvik register is found on neither side. -/
theorem lookup_other (hframe : 0 < frame_size) {v : Nat} (hv : v < INVALID_VREG) {kind : VRegKind} :
    (kind.isFloat = false → v ∉ (corePromotions ops).map Prod.snd →
      (⟨((init frame_size).runPromotions ops).getCompiledMethod.vmap_table⟩ : VmapTable).isInContext
        v kind = some (false, 0xEBAD0FF5)) ∧
    (kind.isFloat = true → v ∉ (fpPromotions ops).map Prod.fst →
      (⟨((init frame_size).runPromotions ops).getCompiledMethod.vmap_table⟩ : VmapTable).isInContext
        v kind = some (false, 0xEBAD0FF5)) := by
  obtain ⟨hcoreE, hfpE⟩ := written_bounds frame_size hcore hfp
  have hlen := written_length frame_size hcore hcore_regs hfp
  have hv' : v < 0xffff := hv
  rw [vmap_table_runPromotions frame_size hframe fun p hp => (hfp p hp).2]
  constructor
  · intro hkind hnot
    exact VmapTable.lookup_not_core hcoreE hfpE hlen hv'
      (fun hm => hnot ((perm_sorted_vregs fun p hp => corePromotions_lt hcore hp).mem_iff.1 hm)) hkind
  · intro hkind hnot
    refine VmapTable.lookup_not_float hcoreE hfpE hlen hv' (fun hm => ?_) hkind
    -- an fp entry is a hole or a promoted Dalvik register
    have htable := (FpTable.nil.runPromotions (s := init frame_size) ops)
    rw [List.nil_append] at htable
    rcases htable.mem hm with h | ⟨p, hp, rfl⟩
    · rw [h] at hv
      exact Nat.lt_irrefl _ hv
    · exact hnot (List.mem_map_of_mem hp)

end Written

/-- The vmap table written after any order of promotion calls, each Dalvik
    register promoted at most once in each class and each register at most
    once, with a frame: every core promotion is found for a kind that is not
    a float and mapped back to its register through `core_spill_mask_`, every
    single promotion is found for a float kind and mapped back to its single
    (`s16` on, the register number less `ARM_FP_REG_OFFSET`) through
    `fp_spill_mask_`, and no other Dalvik register is found. -/
theorem lookups_of_promotions (frame_size : Int) (hframe : 0 < frame_size) (ops : List PromotionOp)
    (hcore : ∀ p ∈ corePromotions ops, isCalleeSaveCore p.1 = true ∧ p.2 < INVALID_VREG)
    (hcore_regs : ((corePromotions ops).map Prod.fst).Nodup)
    (hcore_vregs : ((corePromotions ops).map Prod.snd).Nodup)
    (hfp : ∀ p ∈ fpPromotions ops, isCalleeSaveSingle p.2 = true ∧ p.1 < INVALID_VREG)
    (hfp_regs : ((fpPromotions ops).map Prod.snd).Nodup)
    (hfp_vregs : ((fpPromotions ops).map Prod.fst).Nodup) :
    let m := ((init frame_size).runPromotions ops).getCompiledMethod
    let t : VmapTable := ⟨m.vmap_table⟩
    (∀ r v, (r, v) ∈ corePromotions ops → ∀ kind : VRegKind, kind.isFloat = false →
      ∃ off, t.isInContext v kind = some (true, off) ∧
        t.computeRegister m.core_spill_mask off kind = some r) ∧
    (∀ v reg, (v, reg) ∈ fpPromotions ops → ∀ kind : VRegKind, kind.isFloat = true →
      ∃ off, t.isInContext v kind = some (true, off) ∧
        t.computeRegister m.fp_spill_mask off kind = some (reg - ARM_FP_REG_OFFSET)) ∧
    (∀ v < INVALID_VREG, ∀ kind : VRegKind,
      (kind.isFloat = false → v ∉ (corePromotions ops).map Prod.snd →
        t.isInContext v kind = some (false, 0xEBAD0FF5)) ∧
      (kind.isFloat = true → v ∉ (fpPromotions ops).map Prod.fst →
        t.isInContext v kind = some (false, 0xEBAD0FF5))) := by
  intro m t
  refine ⟨fun r v hp kind hkind => ?_, fun v reg hp kind hkind => ?_, fun v hv kind => ?_⟩
  · exact lookup_corePromotion frame_size hcore hcore_regs hfp hframe hcore_vregs hp hkind
  · exact lookup_singlePromotion frame_size hfp hframe hfp_regs hfp_vregs hcore hcore_regs hp hkind
  · exact lookup_other frame_size hcore hcore_regs hfp hframe hv

end Mir2Lir

end ArtRuntime
