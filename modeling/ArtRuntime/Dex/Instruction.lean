import Mathlib.Data.List.Basic
import Mathlib.Tactic.Ring

/-!
# Dex Instructions

A dex method body is an array of 16-bit code units. An instruction's first
code unit holds its opcode in the low byte; the opcode's format fixes the
instruction's size, except for `NOP`, whose code unit may instead be the
`ident` of a payload pseudo-instruction (a switch table or array data) whose
size the following code units give.

The model keeps the code units as a list and every read as an `Option`: the
C++ reads through raw pointers, and a read past the code item is `none`. The
pass that walks a method by these sizes, `ComputeWidthsAndCountOps`, is the
first the method verifier makes.

## Main definitions

* `Format`, `kInstructionFormats`, `formatOf`: The format column of
  `DEX_INSTRUCTION_LIST`.
* `kInstructionSizeInCodeUnits`: The size table, `-1` for `NOP`.
* `sizeInCodeUnitsComplexOpcode`, `sizeInCodeUnits`: The size of the
  instruction at a pc.
* `CodeItem`: A code item's instructions, at most `2 ^ 32` units.
* `computeWidthsLoop`, `computeWidthsAndCountOps`: The verifier's walk.

## Theorems

* `sizeInCodeUnits_pos`: Every instruction has at least one code unit.
* `computeWidthsLoop_covers`: With one round per code unit the walk always
  reaches the end of the code.
-/

namespace ArtRuntime

namespace Instruction

/-- The instruction formats of `dex_instruction.h`, in its order. -/
inductive Format
  | k10x | k12x | k11n | k11x | k10t | k20t | k22x | k21t | k21s | k21h | k21c | k23x
  | k22b | k22t | k22s | k22c | k32x | k30t | k31t | k31i | k31c | k35c | k3rc | k51l
  deriving DecidableEq, Repr

/-- `Instruction::kInstructionFormats`: the format of each opcode, as
    `DEX_INSTRUCTION_LIST` gives it. -/
def kInstructionFormats : List Format := [
  .k10x, .k12x, .k22x, .k32x, .k12x, .k22x, .k32x, .k12x,  -- 0x00
  .k22x, .k32x, .k11x, .k11x, .k11x, .k11x, .k10x, .k11x,  -- 0x08
  .k11x, .k11x, .k11n, .k21s, .k31i, .k21h, .k21s, .k31i,  -- 0x10
  .k51l, .k21h, .k21c, .k31c, .k21c, .k11x, .k11x, .k21c,  -- 0x18
  .k22c, .k12x, .k21c, .k22c, .k35c, .k3rc, .k31t, .k11x,  -- 0x20
  .k10t, .k20t, .k30t, .k31t, .k31t, .k23x, .k23x, .k23x,  -- 0x28
  .k23x, .k23x, .k22t, .k22t, .k22t, .k22t, .k22t, .k22t,  -- 0x30
  .k21t, .k21t, .k21t, .k21t, .k21t, .k21t, .k10x, .k10x,  -- 0x38
  .k10x, .k10x, .k10x, .k10x, .k23x, .k23x, .k23x, .k23x,  -- 0x40
  .k23x, .k23x, .k23x, .k23x, .k23x, .k23x, .k23x, .k23x,  -- 0x48
  .k23x, .k23x, .k22c, .k22c, .k22c, .k22c, .k22c, .k22c,  -- 0x50
  .k22c, .k22c, .k22c, .k22c, .k22c, .k22c, .k22c, .k22c,  -- 0x58
  .k21c, .k21c, .k21c, .k21c, .k21c, .k21c, .k21c, .k21c,  -- 0x60
  .k21c, .k21c, .k21c, .k21c, .k21c, .k21c, .k35c, .k35c,  -- 0x68
  .k35c, .k35c, .k35c, .k10x, .k3rc, .k3rc, .k3rc, .k3rc,  -- 0x70
  .k3rc, .k10x, .k10x, .k12x, .k12x, .k12x, .k12x, .k12x,  -- 0x78
  .k12x, .k12x, .k12x, .k12x, .k12x, .k12x, .k12x, .k12x,  -- 0x80
  .k12x, .k12x, .k12x, .k12x, .k12x, .k12x, .k12x, .k12x,  -- 0x88
  .k23x, .k23x, .k23x, .k23x, .k23x, .k23x, .k23x, .k23x,  -- 0x90
  .k23x, .k23x, .k23x, .k23x, .k23x, .k23x, .k23x, .k23x,  -- 0x98
  .k23x, .k23x, .k23x, .k23x, .k23x, .k23x, .k23x, .k23x,  -- 0xA0
  .k23x, .k23x, .k23x, .k23x, .k23x, .k23x, .k23x, .k23x,  -- 0xA8
  .k12x, .k12x, .k12x, .k12x, .k12x, .k12x, .k12x, .k12x,  -- 0xB0
  .k12x, .k12x, .k12x, .k12x, .k12x, .k12x, .k12x, .k12x,  -- 0xB8
  .k12x, .k12x, .k12x, .k12x, .k12x, .k12x, .k12x, .k12x,  -- 0xC0
  .k12x, .k12x, .k12x, .k12x, .k12x, .k12x, .k12x, .k12x,  -- 0xC8
  .k22s, .k22s, .k22s, .k22s, .k22s, .k22s, .k22s, .k22s,  -- 0xD0
  .k22b, .k22b, .k22b, .k22b, .k22b, .k22b, .k22b, .k22b,  -- 0xD8
  .k22b, .k22b, .k22b, .k22c, .k22c, .k22c, .k22c, .k22c,  -- 0xE0
  .k22c, .k35c, .k3rc, .k10x, .k10x, .k10x, .k10x, .k10x,  -- 0xE8
  .k10x, .k10x, .k10x, .k10x, .k10x, .k10x, .k10x, .k10x,  -- 0xF0
  .k10x, .k10x, .k10x, .k10x, .k10x, .k10x, .k10x, .k10x  -- 0xF8
]

/-- The format of an opcode. -/
def formatOf (opcode : UInt8) : Format :=
  kInstructionFormats.getD opcode.toNat .k10x

def NOP : UInt8 := 0x00
def RETURN_VOID : UInt8 := 0x0E
def FILL_ARRAY_DATA : UInt8 := 0x26

def kPackedSwitchSignature : UInt16 := 0x0100
def kSparseSwitchSignature : UInt16 := 0x0200
def kArrayDataSignature : UInt16 := 0x0300

/-- `Instruction::kInstructionSizeInCodeUnits`, the `INSTRUCTION_SIZE` macro:
    `-1` for `NOP` and otherwise the size of the opcode's format, by the
    format ranges `k10x..k10t`, `k20t..k22c`, `k32x..k3rc` and `k51l`. -/
def kInstructionSizeInCodeUnits (opcode : UInt8) : Int :=
  if opcode = NOP then -1
  else
    match formatOf opcode with
    | .k10x | .k12x | .k11n | .k11x | .k10t => 1
    | .k20t | .k22x | .k21t | .k21s | .k21h | .k21c | .k23x | .k22b | .k22t | .k22s | .k22c => 2
    | .k32x | .k30t | .k31t | .k31i | .k31c | .k35c | .k3rc => 3
    | .k51l => 5

/-- `Instruction::Opcode`: the low byte of the first code unit. -/
def opcode (inst : UInt16) : UInt8 :=
  (inst &&& 0xFF).toUInt8

/-- Two code units as the little-endian `uint32_t` they spell (`Fetch32`). -/
def fetch32 (lo hi : UInt16) : UInt32 :=
  lo.toUInt32 ||| (hi.toUInt32 <<< 16)

/-- `Instruction::SizeInCodeUnitsComplexOpcode` for the instruction at `pc`.
    The array-data size is `uint32_t` arithmetic and wraps. The `LOG(FATAL)`
    branch is `none`; the caller only reaches this function for `NOP`, whose
    low byte is zero. -/
def sizeInCodeUnitsComplexOpcode (insns : List UInt16) (pc : Nat) : Option Nat := do
  let ident ← insns[pc]?
  if ident = kPackedSwitchSignature then
    let size ← insns[pc + 1]?
    pure (4 + size.toNat * 2)
  else if ident = kSparseSwitchSignature then
    let size ← insns[pc + 1]?
    pure (2 + size.toNat * 4)
  else if ident = kArrayDataSignature then
    let element_size ← insns[pc + 1]?
    let lo ← insns[pc + 2]?
    let hi ← insns[pc + 3]?
    let length := fetch32 lo hi
    pure (4 + (element_size.toUInt32 * length + 1) / 2 : UInt32).toNat
  else if ident &&& 0xFF = 0 then pure 1
  else none

/-- `Instruction::SizeInCodeUnits` for the instruction at `pc`. -/
def sizeInCodeUnits (insns : List UInt16) (pc : Nat) : Option Nat := do
  let inst ← insns[pc]?
  let result := kInstructionSizeInCodeUnits (opcode inst)
  if result < 0 then sizeInCodeUnitsComplexOpcode insns pc else pure result.toNat

/-- A code item's instructions. `insns_size_in_code_units_` is a `uint32_t`,
    so a code item holds fewer than `2 ^ 32` code units. -/
structure CodeItem where
  insns : List UInt16
  size_lt : insns.length < 2 ^ 32

/-- `insns_size_in_code_units_`. -/
def CodeItem.insnsSize (code : CodeItem) : UInt32 :=
  UInt32.ofNat code.insns.length

/-- The loop of `ComputeWidthsAndCountOps`: from `dex_pc`, step over each
    instruction by its size while `dex_pc` is inside the code, and return the
    instruction starts it visits with the pc it stops at. -/
def computeWidthsLoop (insns : List UInt16) : Nat → Nat → Option (List Nat × Nat)
  | 0, dex_pc => some ([], dex_pc)
  | fuel + 1, dex_pc =>
      if dex_pc < insns.length then do
        let inst_size ← sizeInCodeUnits insns dex_pc
        let (starts, last) ← computeWidthsLoop insns fuel (dex_pc + inst_size)
        pure (dex_pc :: starts, last)
      else some ([], dex_pc)

/-- `MethodVerifier::ComputeWidthsAndCountOps`: the walk must end exactly at
    the end of the code (`false` is the hard failure "code did not end where
    expected"). The instruction counts it also takes are left out. -/
def computeWidthsAndCountOps (code : CodeItem) : Option Bool := do
  let (_, dex_pc) ← computeWidthsLoop code.insns code.insns.length 0
  pure (dex_pc = code.insns.length)

/-- The instruction starts `ComputeWidthsAndCountOps` records in
    `insn_flags_`. -/
def instructionStarts (code : CodeItem) : Option (List Nat) :=
  (computeWidthsLoop code.insns code.insns.length 0).map Prod.fst

@[simp] theorem toNat_insnsSize (code : CodeItem) : code.insnsSize.toNat = code.insns.length := by
  unfold CodeItem.insnsSize
  rw [UInt32.toNat_ofNat']
  exact Nat.mod_eq_of_lt code.size_lt

/-! ### Instruction sizes -/

theorem kInstructionSizeInCodeUnits_pos (op : UInt8) (h : op ≠ NOP) :
    0 < kInstructionSizeInCodeUnits op := by
  unfold kInstructionSizeInCodeUnits
  rw [if_neg h]
  split <;> decide

theorem sizeInCodeUnitsComplexOpcode_pos (insns : List UInt16) (pc s : Nat)
    (h : sizeInCodeUnitsComplexOpcode insns pc = some s) : 0 < s := by
  unfold sizeInCodeUnitsComplexOpcode at h
  simp only [Option.bind_eq_bind, Option.bind_eq_some_iff, Option.pure_def] at h
  obtain ⟨ident, -, h⟩ := h
  -- Each payload size starts with a constant; a wrapped array-data size is
  -- still at least `4`, since half a `uint32_t` leaves room for the `4 +`.
  split at h
  · simp only [Option.bind_eq_some_iff, Option.some.injEq] at h
    obtain ⟨size, -, rfl⟩ := h
    omega
  split at h
  · simp only [Option.bind_eq_some_iff, Option.some.injEq] at h
    obtain ⟨size, -, rfl⟩ := h
    omega
  split at h
  · simp only [Option.bind_eq_some_iff, Option.some.injEq] at h
    obtain ⟨element_size, -, lo, -, hi, -, rfl⟩ := h
    have hlt := (element_size.toUInt32 * fetch32 lo hi + 1).toNat_lt
    rw [UInt32.toNat_add, UInt32.toNat_div]
    simp only [UInt32.reduceToNat]
    omega
  split at h
  · simp only [Option.some.injEq] at h
    omega
  · simp at h

/-- Every instruction the walk can step over has at least one code unit. -/
theorem sizeInCodeUnits_pos (insns : List UInt16) (pc s : Nat)
    (h : sizeInCodeUnits insns pc = some s) : 0 < s := by
  unfold sizeInCodeUnits at h
  cases hinst : insns[pc]? with
  | none => simp [hinst] at h
  | some inst =>
      simp only [hinst, Option.bind_eq_bind, Option.bind_some] at h
      split at h
      · exact sizeInCodeUnitsComplexOpcode_pos insns pc s h
      · rename_i hneg
        simp only [Option.pure_def, Option.some.injEq] at h
        -- A non-negative table entry is never `NOP`'s `-1`.
        have hnop : opcode inst ≠ NOP := fun hn => hneg (by rw [hn]; decide)
        have hpos := kInstructionSizeInCodeUnits_pos _ hnop
        omega

/-! ### The walk -/

/-- The walk's fuel is enough: from `dex_pc`, with at least as many rounds as
    code units remain, the walk stops at or past the end of the code. Each
    round moves at least one code unit (`sizeInCodeUnits_pos`). -/
theorem computeWidthsLoop_covers (insns : List UInt16) :
    ∀ (fuel dex_pc : Nat) (r : List Nat × Nat), insns.length ≤ fuel + dex_pc →
      computeWidthsLoop insns fuel dex_pc = some r → insns.length ≤ r.2 := by
  intro fuel
  induction fuel with
  | zero =>
      intro dex_pc r hle h
      simp only [computeWidthsLoop, Option.some.injEq] at h
      subst h
      simpa using hle
  | succ fuel ih =>
      intro dex_pc r hle h
      unfold computeWidthsLoop at h
      split at h
      · cases hs : sizeInCodeUnits insns dex_pc with
        | none => simp [hs] at h
        | some s =>
            have hpos := sizeInCodeUnits_pos insns dex_pc s hs
            cases hrest : computeWidthsLoop insns fuel (dex_pc + s) with
            | none => simp [hs, hrest] at h
            | some rest =>
                simp only [hs, hrest, Option.bind_eq_bind, Option.bind_some, Option.pure_def,
                  Option.some.injEq] at h
                subst h
                exact ih (dex_pc + s) rest (by omega) hrest
      · rename_i hout
        simp only [Option.some.injEq] at h
        subst h
        simpa using hout

end Instruction

end ArtRuntime
