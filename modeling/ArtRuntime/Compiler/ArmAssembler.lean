import Mathlib.Data.Int.Bitwise
import ArtRuntime.Compiler.ArmImmediate

/-!
# The Thumb-2 Assembler

`Mir2Lir::AssembleLIR` turns the list of LIR instructions of a method into
code. `AssignOffsets` lays the list out: each instruction at the sum of the
sizes before it, `kPseudoPseudoAlign4` padding to a word where needed, then
the literal pools, switch tables and fill-array-data payloads after the
code. `ArmMir2Lir::AssembleInstructions` then walks the list once. Each
instruction marked `pcRelFixup` has its displacement computed from those
offsets: a branch or a pc-relative load whose displacement does not fit its
short form is rewritten into a longer form (a 16-bit conditional branch into
the 32-bit `kThumb2BCond`, `cbz` into `cmp` and a branch, a literal load into
`adr` and a load, an `adr` into `movw`, `movt` and `add`), and the pass
reports `kRetryAll`. A branch to the next instruction becomes a nop, also
with a retry. While no retry is pending the instruction is encoded from its
`EncodingMap` entry and appended to the code buffer. `AssembleLIR` repeats
the layout and the pass until a pass succeeds, and gives up after
`MAX_ASSEMBLER_RETRIES` retries.

The model keeps the LIR list as a list, each LIR with the address others
point at it by, and the method's literal pools and tables beside it. A new
LIR takes the arena's next address. A pass is a loop over the LIRs still to
visit with those already visited behind it; an instruction inserted before
the current one is not visited again in the pass, one inserted after it is.

## Main definitions

* `ArmEncodingMap`, `encodingMap`: The encodings of the instructions the
  assembler rewrites; any other instruction carries its own entry.
* `assignOffsets`: `Mir2Lir::AssignOffsets`.
* `fixup`: The pc-relative fixup of one instruction, one helper a branch of
  the source's chain of opcode tests.
* `encodeInstruction`: The encoding loop over an instruction's operands.
* `assembleLoop`, `assembleInstructions`: `ArmMir2Lir::AssembleInstructions`.
* `assembleLIR`: The loop of `Mir2Lir::AssembleLIR`.
* `branchOffsetT3`: The offset the processor reads from a 32-bit conditional
  branch.

## Theorems

* `fixup_after`: Only a rewritten `cbz` inserts an instruction the pass
  visits, which bounds the pass.
* `assembleLoop_arm`, `assembleLoop_plain_append`: One instruction of a
  pass, and a run of instructions without fixups.
* `fixupBCond_thumb2`: The 32-bit conditional branch is never range checked.
* `assembleLIR_farBranchMethod`: A conditional branch over `n` words of code
  is assembled at the first pass for every `n`, with the offset `2 * n`.
-/

namespace ArtRuntime

namespace Arm

/-! ### Encodings -/

/-- ArmEncodingKind. -/
inductive ArmEncodingKind where
  | kFmtUnused
  | kFmtBitBlt
  | kFmtDfp
  | kFmtSfp
  | kFmtModImm
  | kFmtImm16
  | kFmtImm6
  | kFmtImm12
  | kFmtShift
  | kFmtLsb
  | kFmtBWidth
  | kFmtShift5
  | kFmtBrOffset
  | kFmtFPImm
  | kFmtOff24
  deriving DecidableEq, Repr

/-- One `field_loc` of an encoding: the kind and the bit positions `end`
    and `start` it uses. -/
structure FieldLoc where
  kind : ArmEncodingKind
  end_ : Int
  start : Int
  deriving DecidableEq, Repr

/-- ArmEncodingMap: the skeleton, the four operand fields, of the flags the
    one the assembler reads (NEEDS_FIXUP), and the size in bytes. -/
structure ArmEncodingMap where
  skeleton : UInt32
  field_loc : List FieldLoc
  needs_fixup : Bool
  size : Nat
  deriving DecidableEq, Repr

/-- An unused field. -/
def unusedField : FieldLoc := ⟨.kFmtUnused, -1, -1⟩

/-- A `kFmtBitBlt` field from bit `start` to bit `end`. -/
def bitBlt (end_ start : Int) : FieldLoc := ⟨.kFmtBitBlt, end_, start⟩

/-- The opcodes `AssembleInstructions` treats by name. Every other opcode
    is `other`, with its `EncodingMap` entry. -/
inductive ArmOpcode where
  | kThumbAddPcRel
  | kThumbBCond
  | kThumbBUncond
  | kThumbCmpRI8
  | kThumbLdrPcRel
  | kThumbAddRRLH
  | kThumbAddRRHH
  | kThumbBlx1
  | kThumbBlx2
  | kThumbBl1
  | kThumbBl2
  | kThumb2Vldrs
  | kThumb2Vldrd
  | kThumb2Cbnz
  | kThumb2Cbz
  | kThumb2Push
  | kThumb2Pop
  | kThumb2Push1
  | kThumb2Pop1
  | kThumb2LdrRRI12
  | kThumb2LdrPcRel12
  | kThumb2BCond
  | kThumb2BUncond
  | kThumb2Adr
  | kThumb2MovImm16LST
  | kThumb2MovImm16HST
  | kThumb2LdrdPcRel8
  | kThumb2LdrdI8
  | other (entry : ArmEncodingMap)
  deriving DecidableEq, Repr

/-- The entries of `ArmMir2Lir::EncodingMap` for the opcodes named. -/
def encodingMap : ArmOpcode → ArmEncodingMap
  | .kThumbAddPcRel => ⟨0xa000, [bitBlt 10 8, bitBlt 7 0, unusedField, unusedField], true, 2⟩
  | .kThumbBCond => ⟨0xd000, [bitBlt 7 0, bitBlt 11 8, unusedField, unusedField], true, 2⟩
  | .kThumbBUncond => ⟨0xe000, [bitBlt 10 0, unusedField, unusedField, unusedField], true, 2⟩
  | .kThumbCmpRI8 => ⟨0x2800, [bitBlt 10 8, bitBlt 7 0, unusedField, unusedField], false, 2⟩
  | .kThumbLdrPcRel => ⟨0x4800, [bitBlt 10 8, bitBlt 7 0, unusedField, unusedField], true, 2⟩
  | .kThumbAddRRLH => ⟨0x4440, [bitBlt 2 0, bitBlt 5 3, unusedField, unusedField], false, 2⟩
  | .kThumbAddRRHH => ⟨0x44c0, [bitBlt 2 0, bitBlt 5 3, unusedField, unusedField], false, 2⟩
  | .kThumbBlx1 => ⟨0xf000, [bitBlt 10 0, unusedField, unusedField, unusedField], true, 2⟩
  | .kThumbBlx2 => ⟨0xe800, [bitBlt 10 0, unusedField, unusedField, unusedField], true, 2⟩
  | .kThumbBl1 => ⟨0xf000, [bitBlt 10 0, unusedField, unusedField, unusedField], false, 2⟩
  | .kThumbBl2 => ⟨0xf800, [bitBlt 10 0, unusedField, unusedField, unusedField], false, 2⟩
  | .kThumb2Vldrs =>
    ⟨0xed900a00, [⟨.kFmtSfp, 22, 12⟩, bitBlt 19 16, bitBlt 7 0, unusedField], true, 4⟩
  | .kThumb2Vldrd =>
    ⟨0xed900b00, [⟨.kFmtDfp, 22, 12⟩, bitBlt 19 16, bitBlt 7 0, unusedField], true, 4⟩
  | .kThumb2Cbnz => ⟨0xb900, [bitBlt 2 0, ⟨.kFmtImm6, -1, -1⟩, unusedField, unusedField], true, 2⟩
  | .kThumb2Cbz => ⟨0xb100, [bitBlt 2 0, ⟨.kFmtImm6, -1, -1⟩, unusedField, unusedField], true, 2⟩
  | .kThumb2Push => ⟨0xe92d0000, [bitBlt 15 0, unusedField, unusedField, unusedField], true, 4⟩
  | .kThumb2Pop => ⟨0xe8bd0000, [bitBlt 15 0, unusedField, unusedField, unusedField], true, 4⟩
  | .kThumb2Push1 => ⟨0xf84d0d04, [bitBlt 15 12, unusedField, unusedField, unusedField], false, 4⟩
  | .kThumb2Pop1 => ⟨0xf85d0b04, [bitBlt 15 12, unusedField, unusedField, unusedField], false, 4⟩
  | .kThumb2LdrRRI12 => ⟨0xf8d00000, [bitBlt 15 12, bitBlt 19 16, bitBlt 11 0, unusedField], false, 4⟩
  | .kThumb2LdrPcRel12 => ⟨0xf8df0000, [bitBlt 15 12, bitBlt 11 0, unusedField, unusedField], true, 4⟩
  | .kThumb2BCond =>
    ⟨0xf0008000, [⟨.kFmtBrOffset, -1, -1⟩, bitBlt 25 22, unusedField, unusedField], true, 4⟩
  | .kThumb2BUncond =>
    ⟨0xf0009000, [⟨.kFmtOff24, -1, -1⟩, unusedField, unusedField, unusedField], false, 4⟩
  | .kThumb2Adr => ⟨0xf20f0000, [bitBlt 11 8, ⟨.kFmtImm12, -1, -1⟩, unusedField, unusedField], true, 4⟩
  | .kThumb2MovImm16LST =>
    ⟨0xf2400000, [bitBlt 11 8, ⟨.kFmtImm16, -1, -1⟩, unusedField, unusedField], true, 4⟩
  | .kThumb2MovImm16HST =>
    ⟨0xf2c00000, [bitBlt 11 8, ⟨.kFmtImm16, -1, -1⟩, unusedField, unusedField], true, 4⟩
  | .kThumb2LdrdPcRel8 => ⟨0xe9df0000, [bitBlt 15 12, bitBlt 11 8, bitBlt 7 0, unusedField], true, 4⟩
  | .kThumb2LdrdI8 => ⟨0xe9d00000, [bitBlt 15 12, bitBlt 11 8, bitBlt 19 16, bitBlt 7 0], false, 4⟩
  | .other entry => entry

/-- ARM_FP_REG_MASK. -/
def ARM_FP_REG_MASK : UInt32 := 31

/-- One case of the switch on `encoder->field_loc[i].kind`: the bits the
    operand contributes. -/
def encodeField (loc : FieldLoc) (operand : UInt32) : UInt32 :=
  let end_ := UInt32.ofInt loc.end_
  let start := UInt32.ofInt loc.start
  match loc.kind with
  | .kFmtUnused => 0
  | .kFmtFPImm => fpImmValue operand end_ start
  | .kFmtBrOffset =>
    (((operand &&& 0x80000) >>> 19) <<< 26) ||| (((operand &&& 0x40000) >>> 18) <<< 11) |||
      (((operand &&& 0x20000) >>> 17) <<< 13) ||| (((operand &&& 0x1f800) >>> 11) <<< 16) |||
      (operand &&& 0x007ff)
  | .kFmtShift5 => (((operand &&& 0x1c) >>> 2) <<< 12) ||| ((operand &&& 0x03) <<< 6)
  | .kFmtShift => (((operand &&& 0x70) >>> 4) <<< 12) ||| ((operand &&& 0x0f) <<< 4)
  | .kFmtBWidth => operand - 1
  | .kFmtLsb => (((operand &&& 0x1c) >>> 2) <<< 12) ||| ((operand &&& 0x03) <<< 6)
  | .kFmtImm6 => (((operand &&& 0x20) >>> 5) <<< 9) ||| ((operand &&& 0x1f) <<< 3)
  | .kFmtBitBlt => (operand <<< start) &&& ((1 <<< (end_ + 1)) - 1)
  | .kFmtDfp =>
    let reg_name := (operand &&& ARM_FP_REG_MASK) >>> 1
    (((reg_name &&& 0x10) >>> 4) <<< end_) ||| ((reg_name &&& 0x0f) <<< start)
  | .kFmtSfp => ((operand &&& 0x1) <<< end_) ||| (((operand &&& 0x1e) >>> 1) <<< start)
  | .kFmtImm12 | .kFmtModImm => modImmValue operand
  | .kFmtImm16 =>
    (((operand &&& 0x0800) >>> 11) <<< 26) ||| (((operand &&& 0xf000) >>> 12) <<< 16) |||
      (((operand &&& 0x0700) >>> 8) <<< 12) ||| (operand &&& 0x0ff)
  | .kFmtOff24 =>
    let signbit := (operand >>> 31) &&& 0x1
    let i1 := (operand >>> 22) &&& 0x1
    let i2 := (operand >>> 21) &&& 0x1
    let imm10 := (operand >>> 11) &&& 0x03ff
    let imm11 := operand &&& 0x07ff
    let j1 : UInt32 := if (i1 ^^^ signbit) ≠ 0 then 0 else 1
    let j2 : UInt32 := if (i2 ^^^ signbit) ≠ 0 then 0 else 1
    (signbit <<< 26) ||| (j1 <<< 13) ||| (j2 <<< 11) ||| (imm10 <<< 16) ||| imm11

/-- The bits of an instruction: the skeleton with the four operands placed
    in their fields. -/
def encodeInstruction (encoder : ArmEncodingMap) (operands : List Int) : UInt32 :=
  (List.range 4).foldl
    (fun bits i => bits ||| encodeField (encoder.field_loc.getD i unusedField)
      (UInt32.ofInt (operands.getD i 0)))
    encoder.skeleton

/-- The bytes of an instruction in the code buffer: a 32-bit instruction's
    first halfword is its high one, and each halfword is little-endian. -/
def instructionBytes (encoder : ArmEncodingMap) (bits : UInt32) : List UInt8 :=
  (if encoder.size = 4 then [(bits >>> 16).toUInt8, (bits >>> 24).toUInt8] else []) ++
    [bits.toUInt8, (bits >>> 8).toUInt8]

/-! ### The LIR list -/

/-- The pseudo opcodes: `kPseudoPseudoAlign4`, and the labels and markers,
    which emit nothing. -/
inductive PseudoOpcode where
  | kPseudoPseudoAlign4
  | label
  deriving DecidableEq, Repr

/-- An opcode: a pseudo opcode (negative in the source) or an instruction. -/
inductive LirOpcode where
  | pseudo (p : PseudoOpcode)
  | arm (op : ArmOpcode)
  deriving DecidableEq, Repr

/-- LIR, with its address in the arena; `target` is the address of the
    target LIR, 0 for none. -/
structure LIR where
  addr : Nat
  offset : Nat
  opcode : LirOpcode
  operands : List Int
  target : Nat
  is_nop : Bool
  pcRelFixup : Bool
  size : Nat
  deriving DecidableEq, Repr

/-- `lir->operands[i]`. -/
def LIR.operand (lir : LIR) (i : Nat) : Int := lir.operands.getD i 0

/-- SetupResourceMasks, of what the assembler reads: an instruction needing a
    fixup is marked so (the mark is never cleared), and its size is its
    encoding's. -/
def setupResourceMasks (lir : LIR) : LIR :=
  match lir.opcode with
  | .pseudo _ => lir
  | .arm op =>
    { lir with
      pcRelFixup := lir.pcRelFixup || (encodingMap op).needs_fixup
      size := (encodingMap op).size }

/-- RawLIR at the arena's next address `addr`. -/
def rawLIR (addr : Nat) (opcode : LirOpcode) (op0 op1 op2 op3 op4 : Int) (target : Nat) : LIR :=
  setupResourceMasks ⟨addr, 0, opcode, [op0, op1, op2, op3, op4], target, false, false, 0⟩

/-- Mir2Lir::SwitchTable and Mir2Lir::FillArrayData, of what the layout
    reads: the address, the dex payload's header (switch tables) or size
    (fill-array-data), and the offset. -/
structure DataTable where
  addr : Nat
  table : List UInt16
  size : Nat
  offset : Nat
  deriving DecidableEq, Repr

/-- The state of the code generator the assembler reads and writes. -/
structure Mir2Lir where
  lirs : List LIR
  literal_list : List LIR
  code_literal_list : List LIR
  method_literal_list : List LIR
  switch_tables : List DataTable
  fill_array_data : List DataTable
  data_offset : Nat
  total_size : Nat
  code_buffer : List UInt8
  next_addr : Nat
  disable_opt : UInt32
  deriving Repr

/-! ### Layout -/

/-- The loop of AssignInsnOffsets from `offset`: the LIRs with their offsets,
    and the offset after the last. -/
def assignInsnOffsetsLoop : List LIR → Nat → List LIR × Nat
  | [], offset => ([], offset)
  | lir :: rest, offset =>
    let (lir, next) : LIR × Nat :=
      match lir.opcode with
      | .arm _ => ({ lir with offset }, if lir.is_nop then offset else offset + lir.size)
      | .pseudo .kPseudoPseudoAlign4 =>
        if offset &&& 0x2 ≠ 0 then ({ lir with offset, operands := lir.operands.set 0 1 }, offset + 2)
        else ({ lir with offset, operands := lir.operands.set 0 0 }, offset)
      | .pseudo .label => ({ lir with offset }, offset)
    let (rest, final) := assignInsnOffsetsLoop rest next
    (lir :: rest, final)

/-- AssignLiteralOffsetCommon: four bytes a literal. -/
def assignLiteralOffsetCommon : List LIR → Nat → List LIR × Nat
  | [], offset => ([], offset)
  | lir :: rest, offset =>
    let (rest, final) := assignLiteralOffsetCommon rest (offset + 4)
    ({ lir with offset } :: rest, final)

/-- kSparseSwitchSignature. -/
def kSparseSwitchSignature : UInt16 := 0x0200

/-- AssignSwitchTablesOffset. -/
def assignSwitchTablesOffset : List DataTable → Nat → List DataTable × Nat
  | [], offset => ([], offset)
  | tab_rec :: rest, offset =>
    let next :=
      if tab_rec.table.getD 0 0 = kSparseSwitchSignature then offset + (tab_rec.table.getD 1 0).toNat * 8
      else offset + (tab_rec.table.getD 1 0).toNat * 4
    let (rest, final) := assignSwitchTablesOffset rest next
    ({ tab_rec with offset } :: rest, final)

/-- AssignFillArrayDataOffset, each payload word aligned after it. -/
def assignFillArrayDataOffset : List DataTable → Nat → List DataTable × Nat
  | [], offset => ([], offset)
  | tab_rec :: rest, offset =>
    let (rest, final) := assignFillArrayDataOffset rest ((offset + tab_rec.size + 3) / 4 * 4)
    ({ tab_rec with offset } :: rest, final)

/-- AssignOffsets. -/
def assignOffsets (m : Mir2Lir) : Mir2Lir :=
  let (lirs, offset) := assignInsnOffsetsLoop m.lirs 0
  -- const values have to be word aligned
  let offset := (offset + 3) / 4 * 4
  let data_offset := offset
  let (literal_list, offset) := assignLiteralOffsetCommon m.literal_list offset
  let (code_literal_list, offset) := assignLiteralOffsetCommon m.code_literal_list offset
  let (method_literal_list, offset) := assignLiteralOffsetCommon m.method_literal_list offset
  let (switch_tables, offset) := assignSwitchTablesOffset m.switch_tables offset
  let (fill_array_data, offset) := assignFillArrayDataOffset m.fill_array_data offset
  { m with
    lirs := lirs
    literal_list := literal_list
    code_literal_list := code_literal_list
    method_literal_list := method_literal_list
    switch_tables := switch_tables
    fill_array_data := fill_array_data
    data_offset := data_offset
    total_size := offset }

/-! ### One pass -/

/-- AssemblerStatus. -/
inductive AssemblerStatus where
  | kSuccess
  | kRetryAll
  deriving DecidableEq, Repr

/-- r15pc, also rARM_PC. -/
def r15pc : Int := 15

/-- rARM_LR. -/
def rARM_LR : Int := 14

/-- kArmCondEq. -/
def kArmCondEq : Int := 0x0

/-- kArmCondNe. -/
def kArmCondNe : Int := 0x1

/-- kSafeOptimizations, a bit of `disable_opt`. -/
def kSafeOptimizations : UInt32 := 6

/-- ARM_LOWREG. -/
def ARM_LOWREG (x : Int) : Bool := Int.land x 0x7 == x

/-- `__builtin_popcount` of a 32-bit word. -/
def popcount (x : Nat) : Nat := ((List.range 32).filter x.testBit).length

/-- The loop that finds the one register of a push or pop list: the number
    of shifts right before the low bit is set, or 0 for no register. The
    fuel is the word's width. -/
def registerOfList : Nat → Nat → Nat
  | 0, _ => 0
  | fuel + 1, mask =>
    if mask = 0 then 0
    else if mask &&& 0x1 ≠ 0 then 0
    else registerOfList fuel (mask >>> 1) + 1

/-- The offset of the LIR at address `addr` in `lirs`; a null target reads
    as 0. -/
def offsetOf (lirs : List LIR) (addr : Nat) : Nat :=
  ((lirs.find? (fun lir => lir.addr == addr)).map LIR.offset).getD 0

/-- The offset of the switch table or fill-array-data payload at `addr`. -/
def tableOffsetOf (tables : List DataTable) (addr : Nat) : Nat :=
  ((tables.find? (fun tab => tab.addr == addr)).map DataTable.offset).getD 0

/-- What the fixup of one instruction does: the LIRs it inserts before and
    after it, the instruction after the fixup, the new `operands[0]` of the
    LIR after it (the second half of a `bl` or `blx`), whether the pass must
    be retried, and the arena's next address. -/
structure Fixup where
  before : List LIR
  lir : LIR
  after : List LIR
  next_operand0 : Option Int
  retry : Bool
  next_addr : Nat

/-- An instruction that the fixup leaves in place, with nothing inserted. -/
def Fixup.keep (next_addr : Nat) (lir : LIR) (retry : Bool) : Fixup :=
  ⟨[], lir, [], none, retry, next_addr⟩

/-- `!(cu_->disable_opt & (1 << kSafeOptimizations))`. -/
def safeOptimizations (disable_opt : UInt32) : Prop :=
  disable_opt &&& ((1 : UInt32) <<< kSafeOptimizations) = 0

instance (disable_opt : UInt32) : Decidable (safeOptimizations disable_opt) :=
  inferInstanceAs (Decidable (_ = _))

/-- The pc-relative loads: `lir->opcode` among them, a `vldr` only from pc. -/
def IsPcRelLoad (op : ArmOpcode) (lir : LIR) : Prop :=
  op = .kThumbLdrPcRel ∨ op = .kThumb2LdrPcRel12 ∨ op = .kThumbAddPcRel ∨
    op = .kThumb2LdrdPcRel8 ∨ (op = .kThumb2Vldrd ∧ lir.operand 1 = r15pc) ∨
    (op = .kThumb2Vldrs ∧ lir.operand 1 = r15pc)

instance (op : ArmOpcode) (lir : LIR) : Decidable (IsPcRelLoad op lir) :=
  inferInstanceAs (Decidable (_ ∨ _))

/-- The fixup of a pc-relative load, from the word-aligned pc. -/
def fixupPcRelLoad (lirs : List LIR) (next_addr : Nat) (op : ArmOpcode) (lir : LIR) : Option Fixup :=
  let pc := (lir.offset + 4) / 4 * 4
  let delta : Int := (offsetOf lirs lir.target : Int) - pc
  if delta % 4 ≠ 0 then none
  -- a sanity check for cases the code generator should not produce
  else if (op = .kThumbAddPcRel ∧ delta > 1020) ∨ (op = .kThumbLdrPcRel ∧ delta > 1020) then none
  else if (op = .kThumb2LdrPcRel12 ∧ delta > 4091) ∨ (op = .kThumb2LdrdPcRel8 ∧ delta > 1020) ∨
      (op = .kThumb2Vldrs ∧ delta > 1020) ∨ (op = .kThumb2Vldrd ∧ delta > 1020) then
    -- too far: an adr of the literal, and a load relative to it
    let base_reg := if op = .kThumb2LdrdPcRel8 ∨ op = .kThumb2LdrPcRel12 then lir.operand 0 else rARM_LR
    let new_adr := rawLIR next_addr (.arm .kThumb2Adr) base_reg 0 0 0 0 lir.target
    let op := if op = .kThumb2LdrPcRel12 then ArmOpcode.kThumb2LdrRRI12
      else if op = .kThumb2LdrdPcRel8 then .kThumb2LdrdI8 else op
    let operands := if op = .kThumb2LdrdI8 then (lir.operands.set 3 0).set 2 base_reg
      else (lir.operands.set 2 0).set 1 base_reg
    some ⟨[new_adr], setupResourceMasks { lir with opcode := .arm op, operands := operands }, [],
      none, true, next_addr + 1⟩
  else if op = .kThumb2Vldrs ∨ op = .kThumb2Vldrd ∨ op = .kThumb2LdrdPcRel8 then
    some (.keep next_addr { lir with operands := lir.operands.set 2 (delta / 4) } false)
  else
    let imm := if op = .kThumb2LdrPcRel12 then delta else delta / 4
    some (.keep next_addr { lir with operands := lir.operands.set 1 imm } false)

/-- The fixup of `cbz` and `cbnz`: out of their range (forward, 126 bytes)
    a `cmp` with 0 and a conditional branch the pass visits next. -/
def fixupCbz (lirs : List LIR) (next_addr : Nat) (op : ArmOpcode) (lir : LIR) : Fixup :=
  let delta : Int := (offsetOf lirs lir.target : Int) - (lir.offset + 4)
  if delta > 126 ∨ delta < 0 then
    let new_inst := rawLIR next_addr (.arm .kThumbBCond) 0
      (if op = .kThumb2Cbz then kArmCondEq else kArmCondNe) 0 0 0 lir.target
    let lir := setupResourceMasks
      { lir with opcode := .arm .kThumbCmpRI8, operands := lir.operands.set 1 0, target := 0 }
    ⟨[], lir, [new_inst], none, true, next_addr + 1⟩
  else .keep next_addr { lir with operands := lir.operands.set 1 (delta / 2) } false

/-- The fixup of a push or pop of one register: the single-register
    encoding. -/
def fixupPushPop (next_addr : Nat) (op : ArmOpcode) (lir : LIR) : Fixup :=
  -- the register list as the unsigned word the builtin reads
  let mask := (lir.operand 0 % 2 ^ 32).toNat
  if popcount mask = 1 then
    let reg := registerOfList 32 mask
    .keep next_addr (setupResourceMasks { lir with
      opcode := .arm (if op = .kThumb2Push then .kThumb2Push1 else .kThumb2Pop1),
      operands := lir.operands.set 0 reg }) true
  else .keep next_addr lir false

/-- The fixup of a conditional branch: the 16-bit form out of its range
    becomes the 32-bit one; the 32-bit form is not checked. -/
def fixupBCond (lirs : List LIR) (next_addr : Nat) (op : ArmOpcode) (lir : LIR) : Fixup :=
  let delta : Int := (offsetOf lirs lir.target : Int) - (lir.offset + 4)
  let (lir, retry) : LIR × Bool :=
    if op = .kThumbBCond ∧ (delta > 254 ∨ delta < -256) then
      (setupResourceMasks { lir with opcode := .arm .kThumb2BCond }, true)
    else (lir, false)
  .keep next_addr { lir with operands := lir.operands.set 0 (delta / 2) } retry

/-- The fixup of the 32-bit unconditional branch: a branch to the next
    instruction becomes a nop. -/
def fixupThumb2BUncond (lirs : List LIR) (disable_opt : UInt32) (next_addr : Nat) (lir : LIR) : Fixup :=
  let delta : Int := (offsetOf lirs lir.target : Int) - (lir.offset + 4)
  let lir := { lir with operands := lir.operands.set 0 (delta / 2) }
  if safeOptimizations disable_opt ∧ lir.operand 0 = 0 then .keep next_addr { lir with is_nop := true } true
  else .keep next_addr lir false

/-- The fixup of the 16-bit unconditional branch: out of its range it
    becomes the 32-bit one, and a branch to the next instruction a nop. -/
def fixupThumbBUncond (lirs : List LIR) (disable_opt : UInt32) (next_addr : Nat) (lir : LIR) : Fixup :=
  let delta : Int := (offsetOf lirs lir.target : Int) - (lir.offset + 4)
  if delta > 2046 ∨ delta < -2048 then
    .keep next_addr (setupResourceMasks
      { lir with opcode := .arm .kThumb2BUncond, operands := lir.operands.set 0 0 }) true
  else
    let lir := { lir with operands := lir.operands.set 0 (delta / 2) }
    if safeOptimizations disable_opt ∧ lir.operand 0 = -1 then .keep next_addr { lir with is_nop := true } true
    else .keep next_addr lir false

/-- The fixup of the first half of `blx`: the high and low halves of the
    displacement from the word-aligned pc, the low one into the second half. -/
def fixupBlx1 (start_addr next_addr : Nat) (lir : LIR) : Fixup :=
  let cur_pc := (start_addr + lir.offset + 4) / 4 * 4
  let target := (lir.operand 1).toNat
  -- match bit 1 of the target with the base
  let target := if cur_pc &&& 0x2 ≠ 0 then target ||| 0x2 else target
  let delta : Int := (target : Int) - cur_pc
  ⟨[], { lir with operands := lir.operands.set 0 (delta / 4096 % 2048) }, [],
    some (delta / 2 % 2048), false, next_addr⟩

/-- The fixup of the first half of `bl`, as `blx` from the pc itself. -/
def fixupBl1 (start_addr next_addr : Nat) (lir : LIR) : Fixup :=
  let cur_pc := start_addr + lir.offset + 4
  let delta : Int := lir.operand 1 - cur_pc
  ⟨[], { lir with operands := lir.operands.set 0 (delta / 4096 % 2048) }, [],
    some (delta / 2 % 2048), false, next_addr⟩

/-- The fixup of `adr`: out of its range a `movw` and `movt` of the
    displacement and an add of pc. -/
def fixupAdr (lirs : List LIR) (tables : List DataTable) (next_addr : Nat) (lir : LIR) : Fixup :=
  let tab_rec := (lir.operand 2).toNat
  let target_disp : Int := if tab_rec ≠ 0 then tableOffsetOf tables tab_rec else offsetOf lirs lir.target
  let disp := target_disp - (lir.offset + 4) / 4 * 4
  if disp < 4096 then .keep next_addr { lir with operands := lir.operands.set 1 disp } false
  else
    let new_mov16L := rawLIR next_addr (.arm .kThumb2MovImm16LST) (lir.operand 0) 0 lir.addr
      tab_rec 0 lir.target
    let new_mov16H := rawLIR (next_addr + 1) (.arm .kThumb2MovImm16HST) (lir.operand 0) 0 lir.addr
      tab_rec 0 lir.target
    let lir := setupResourceMasks { lir with
      opcode := .arm (if ARM_LOWREG (lir.operand 0) then .kThumbAddRRLH else .kThumbAddRRHH),
      operands := lir.operands.set 1 r15pc }
    ⟨[new_mov16L, new_mov16H], lir, [], none, true, next_addr + 2⟩

/-- The fixup of `movw` and `movt` of an `adr` rewritten: the low or the
    high half of the displacement from the `add` of pc. -/
def fixupMovImm16 (lirs : List LIR) (tables : List DataTable) (next_addr : Nat) (op : ArmOpcode)
    (lir : LIR) : Fixup :=
  let addPCInst := (lir.operand 2).toNat
  let tab_rec := (lir.operand 3).toNat
  let target_disp : Int := if tab_rec ≠ 0 then tableOffsetOf tables tab_rec else offsetOf lirs lir.target
  let disp := target_disp - (offsetOf lirs addPCInst + 4)
  let imm := if op = .kThumb2MovImm16LST then disp % 65536 else disp / 65536 % 65536
  .keep next_addr { lir with operands := lir.operands.set 1 imm } false

/-- The pc-relative fixup of one instruction `lir` with opcode `op`, the
    body of `if (lir->flags.pcRelFixup)` in `AssembleInstructions`: `lirs`
    are the LIRs of the method (code and literals) with the offsets of the
    pass, `tables` its switch tables and payloads, and `next_addr` the
    arena's next address; none is a `LOG(FATAL)`. -/
def fixup (lirs : List LIR) (tables : List DataTable) (start_addr : Nat) (disable_opt : UInt32)
    (next_addr : Nat) (op : ArmOpcode) (lir : LIR) : Option Fixup :=
  if IsPcRelLoad op lir then fixupPcRelLoad lirs next_addr op lir
  else if op = .kThumb2Cbnz ∨ op = .kThumb2Cbz then some (fixupCbz lirs next_addr op lir)
  else if op = .kThumb2Push ∨ op = .kThumb2Pop then some (fixupPushPop next_addr op lir)
  else if op = .kThumbBCond ∨ op = .kThumb2BCond then some (fixupBCond lirs next_addr op lir)
  else if op = .kThumb2BUncond then some (fixupThumb2BUncond lirs disable_opt next_addr lir)
  else if op = .kThumbBUncond then some (fixupThumbBUncond lirs disable_opt next_addr lir)
  else if op = .kThumbBlx1 then some (fixupBlx1 start_addr next_addr lir)
  else if op = .kThumbBl1 then some (fixupBl1 start_addr next_addr lir)
  else if op = .kThumb2Adr then some (fixupAdr lirs tables next_addr lir)
  else if op = .kThumb2MovImm16LST ∨ op = .kThumb2MovImm16HST then
    some (fixupMovImm16 lirs tables next_addr op lir)
  else some (.keep next_addr lir false)

/-- The encoding map entry of an instruction; a pseudo opcode has none. -/
def LIR.encoder (lir : LIR) : ArmEncodingMap :=
  match lir.opcode with
  | .arm op => encodingMap op
  | .pseudo _ => ⟨0, [], false, 0⟩

/-- The bytes `AssembleInstructions` appends for an instruction. -/
def LIR.bytes (lir : LIR) : List UInt8 :=
  instructionBytes lir.encoder (encodeInstruction lir.encoder lir.operands)

/-- `NEXT_LIR(lir)->operands[0] = value`, for the fixups that set it. -/
def setFirstOperand : List LIR → Option Int → List LIR
  | lir :: rest, some value => { lir with operands := lir.operands.set 0 value } :: rest
  | rest, _ => rest

/-- PADDING_MOV_R5_R5. -/
def PADDING_MOV_R5_R5 : UInt32 := 0x1C2D

/-- The literal pools of a method. -/
def Mir2Lir.literals (m : Mir2Lir) : List LIR :=
  m.literal_list ++ m.code_literal_list ++ m.method_literal_list

/-- What a pass has done so far: the LIRs visited, the last first, the
    status, the code buffer and the arena's next address. -/
structure Pass where
  done : List LIR
  res : AssemblerStatus
  code_buffer : List UInt8
  next_addr : Nat

/-- A weight that every step of a pass lowers: a `cbz` or `cbnz` may be
    replaced by a `cmp` and a branch the pass visits next. -/
def fixupWeight (lir : LIR) : Nat :=
  if lir.opcode = .arm .kThumb2Cbz ∨ lir.opcode = .arm .kThumb2Cbnz then 2 else 1

theorem fixupWeight_pos (lir : LIR) : 0 < fixupWeight lir := by
  unfold fixupWeight
  split <;> omega

@[simp]
theorem map_fixupWeight_setFirstOperand (rest : List LIR) (value : Option Int) :
    (setFirstOperand rest value).map fixupWeight = rest.map fixupWeight := by
  unfold setFirstOperand
  split <;> simp [fixupWeight]

@[simp]
theorem setFirstOperand_none (rest : List LIR) : setFirstOperand rest none = rest := by
  cases rest <;> rfl

@[simp]
theorem Fixup.keep_after (next_addr : Nat) (lir : LIR) (retry : Bool) :
    (Fixup.keep next_addr lir retry).after = [] := rfl

theorem fixupPcRelLoad_after {lirs : List LIR} {next_addr : Nat} {op : ArmOpcode} {lir : LIR}
    {fx : Fixup} (h : fixupPcRelLoad lirs next_addr op lir = some fx) : fx.after = [] := by
  dsimp only [fixupPcRelLoad] at h
  split_ifs at h <;> (cases h; rfl)

theorem fixupCbz_after (lirs : List LIR) (next_addr : Nat) (op : ArmOpcode) (lir : LIR) :
    (fixupCbz lirs next_addr op lir).after = [] ∨
      (fixupCbz lirs next_addr op lir).after.map fixupWeight = [1] := by
  by_cases hfar : (offsetOf lirs lir.target : Int) - (lir.offset + 4) > 126 ∨
      (offsetOf lirs lir.target : Int) - (lir.offset + 4) < 0
  · right
    rw [fixupCbz]
    dsimp only
    rw [if_pos hfar]
    simp [rawLIR, setupResourceMasks, fixupWeight]
  · left
    rw [fixupCbz]
    dsimp only
    rw [if_neg hfar]
    rfl

/-- The fixup inserts after an instruction only the branch of a `cbz` or
    `cbnz` it rewrites. -/
theorem fixup_after {lirs : List LIR} {tables : List DataTable} {start_addr : Nat}
    {disable_opt : UInt32} {next_addr : Nat} {op : ArmOpcode} {lir : LIR} {fx : Fixup}
    (h : fixup lirs tables start_addr disable_opt next_addr op lir = some fx) :
    fx.after = [] ∨ ((op = .kThumb2Cbz ∨ op = .kThumb2Cbnz) ∧ fx.after.map fixupWeight = [1]) := by
  unfold fixup at h
  -- one case a test of the chain, in its order
  by_cases hload : IsPcRelLoad op lir
  · rw [if_pos hload] at h
    exact Or.inl (fixupPcRelLoad_after h)
  rw [if_neg hload] at h
  by_cases hcb : op = .kThumb2Cbnz ∨ op = .kThumb2Cbz
  · rw [if_pos hcb, Option.some.injEq] at h
    subst h
    rcases fixupCbz_after lirs next_addr op lir with hnil | hone
    · exact Or.inl hnil
    · exact Or.inr ⟨hcb.symm, hone⟩
  rw [if_neg hcb] at h
  -- every other fixup inserts nothing after the instruction
  left
  by_cases hpush : op = .kThumb2Push ∨ op = .kThumb2Pop
  · rw [if_pos hpush, Option.some.injEq] at h
    subst h
    simp only [fixupPushPop, apply_ite Fixup.after, Fixup.keep_after, ite_self]
  rw [if_neg hpush] at h
  by_cases hbcond : op = .kThumbBCond ∨ op = .kThumb2BCond
  · rw [if_pos hbcond, Option.some.injEq] at h
    subst h
    rfl
  rw [if_neg hbcond] at h
  by_cases hb2 : op = .kThumb2BUncond
  · rw [if_pos hb2, Option.some.injEq] at h
    subst h
    simp only [fixupThumb2BUncond, apply_ite Fixup.after, Fixup.keep_after, ite_self]
  rw [if_neg hb2] at h
  by_cases hb : op = .kThumbBUncond
  · rw [if_pos hb, Option.some.injEq] at h
    subst h
    simp only [fixupThumbBUncond, apply_ite Fixup.after, Fixup.keep_after, ite_self]
  rw [if_neg hb] at h
  by_cases hblx : op = .kThumbBlx1
  · rw [if_pos hblx, Option.some.injEq] at h
    subst h
    rfl
  rw [if_neg hblx] at h
  by_cases hbl : op = .kThumbBl1
  · rw [if_pos hbl, Option.some.injEq] at h
    subst h
    rfl
  rw [if_neg hbl] at h
  by_cases hadr : op = .kThumb2Adr
  · rw [if_pos hadr, Option.some.injEq] at h
    subst h
    simp only [fixupAdr, apply_ite Fixup.after, Fixup.keep_after, ite_self]
  rw [if_neg hadr] at h
  by_cases hmov : op = .kThumb2MovImm16LST ∨ op = .kThumb2MovImm16HST
  · rw [if_pos hmov, Option.some.injEq] at h
    subst h
    rfl
  rw [if_neg hmov, Option.some.injEq] at h
  subst h
  rfl

/-- The fixup a pass makes to a visited instruction: the pc-relative one if
    the instruction is marked, else none. -/
def Mir2Lir.fixupOf (m : Mir2Lir) (start_addr next_addr : Nat) (op : ArmOpcode) (lir : LIR) :
    Option Fixup :=
  if lir.pcRelFixup then
    fixup (m.lirs ++ m.literals) (m.switch_tables ++ m.fill_array_data) start_addr m.disable_opt
      next_addr op lir
  else some (.keep next_addr lir false)

theorem fixupOf_after {m : Mir2Lir} {start_addr next_addr : Nat} {op : ArmOpcode} {lir : LIR}
    {fx : Fixup} (h : m.fixupOf start_addr next_addr op lir = some fx) :
    fx.after = [] ∨ ((op = .kThumb2Cbz ∨ op = .kThumb2Cbnz) ∧ fx.after.map fixupWeight = [1]) := by
  unfold Mir2Lir.fixupOf at h
  split at h
  · exact fixup_after h
  · cases h
    exact Or.inl rfl

/-- The loop of `AssembleInstructions` over the LIRs still to visit, in the
    method `m` as laid out for the pass. -/
def assembleLoop (m : Mir2Lir) (start_addr : Nat) (p : Pass) : List LIR → Option Pass
  | [] => some p
  | lir :: rest =>
    match _hop : lir.opcode with
    | .pseudo q =>
      -- 1 means padding is needed
      let code_buffer := if q = .kPseudoPseudoAlign4 ∧ lir.operand 0 = 1 then
          p.code_buffer ++ [(PADDING_MOV_R5_R5 &&& 0xFF).toUInt8, ((PADDING_MOV_R5_R5 >>> 8) &&& 0xFF).toUInt8]
        else p.code_buffer
      assembleLoop m start_addr { p with done := lir :: p.done, code_buffer := code_buffer } rest
    | .arm op =>
      if lir.is_nop then assembleLoop m start_addr { p with done := lir :: p.done } rest
      else
        match _hfx : m.fixupOf start_addr p.next_addr op lir with
        | none => none
        | some fx =>
          let res := if fx.retry then AssemblerStatus.kRetryAll else p.res
          -- an instruction expanded: another pass follows, so do not encode
          let code_buffer := if res ≠ .kSuccess then p.code_buffer else p.code_buffer ++ fx.lir.bytes
          let todo := fx.after ++ setFirstOperand rest fx.next_operand0
          assembleLoop m start_addr ⟨fx.lir :: fx.before.reverse ++ p.done, res, code_buffer, fx.next_addr⟩
            todo
termination_by rest => (rest.map fixupWeight).sum
decreasing_by
  all_goals simp only [List.map_cons, List.sum_cons]
  · have := fixupWeight_pos lir
    omega
  · have := fixupWeight_pos lir
    omega
  · -- only a `cbz` or `cbnz`, of weight 2, has an instruction after it
    simp only [List.map_append, List.sum_append, map_fixupWeight_setFirstOperand]
    rcases fixupOf_after _hfx with hnil | ⟨hcb, hone⟩
    · have := fixupWeight_pos lir
      simp only [hnil, List.map_nil, List.sum_nil]
      omega
    · have hcbz : fixupWeight lir = 2 := by
        rcases hcb with rfl | rfl <;> simp [fixupWeight, _hop]
      simp only [hone, hcbz, List.sum_cons, List.sum_nil]
      omega

/-- ArmMir2Lir::AssembleInstructions: one pass over the LIRs of `m`,
    appending to its code buffer; none is a `LOG(FATAL)`. -/
def assembleInstructions (start_addr : Nat) (m : Mir2Lir) : Option (AssemblerStatus × Mir2Lir) :=
  (assembleLoop m start_addr ⟨[], .kSuccess, m.code_buffer, m.next_addr⟩ m.lirs).map fun p =>
    (p.res, { m with lirs := p.done.reverse, code_buffer := p.code_buffer, next_addr := p.next_addr })

/-- MAX_ASSEMBLER_RETRIES. -/
def MAX_ASSEMBLER_RETRIES : Nat := 50

/-- The loop of `Mir2Lir::AssembleLIR` after `assembler_retries` retries:
    pass after pass, each after the layout is redone and the code buffer
    cleared, until one succeeds; none is a `LOG(FATAL)`, among them too many
    retries. -/
def assembleLIRLoop (assembler_retries : Nat) (m : Mir2Lir) : Option Mir2Lir :=
  match assembleInstructions 0 m with
  | none => none
  | some (.kSuccess, m) => some m
  | some (.kRetryAll, m) =>
    if assembler_retries + 1 > MAX_ASSEMBLER_RETRIES then none
    else assembleLIRLoop (assembler_retries + 1) { assignOffsets m with code_buffer := [] }
termination_by MAX_ASSEMBLER_RETRIES - assembler_retries
decreasing_by omega

/-- Mir2Lir::AssembleLIR, up to the installation of the literal pools and
    tables. -/
def assembleLIR (m : Mir2Lir) : Option Mir2Lir :=
  assembleLIRLoop 0 (assignOffsets m)

/-! ### Runs of a pass -/

/-- An instruction the pass encodes as it is: an instruction, not a nop,
    and not marked for a fixup. -/
def LIR.IsPlain (lir : LIR) : Prop :=
  (∃ op, lir.opcode = .arm op) ∧ lir.is_nop = false ∧ lir.pcRelFixup = false

theorem assembleLoop_nil (m : Mir2Lir) (start_addr : Nat) (p : Pass) :
    assembleLoop m start_addr p [] = some p := by
  rw [assembleLoop]

/-- A label emits nothing. -/
theorem assembleLoop_label (m : Mir2Lir) (start_addr : Nat) (p : Pass) {lir : LIR}
    (hlabel : lir.opcode = .pseudo .label) (rest : List LIR) :
    assembleLoop m start_addr p (lir :: rest) =
      assembleLoop m start_addr { p with done := lir :: p.done } rest := by
  rw [assembleLoop]
  split
  case h_1 q hq =>
    rw [hlabel, LirOpcode.pseudo.injEq] at hq
    subst hq
    rfl
  case h_2 op hop =>
    rw [hlabel] at hop
    cases hop

/-- One instruction of a pass: its fixup, and its encoding while no retry
    is pending. -/
theorem assembleLoop_arm (m : Mir2Lir) (start_addr : Nat) (p : Pass) {lir : LIR} {op : ArmOpcode}
    (hop : lir.opcode = .arm op) (hnop : lir.is_nop = false) {fx : Fixup}
    (hfx : m.fixupOf start_addr p.next_addr op lir = some fx) (rest : List LIR) :
    assembleLoop m start_addr p (lir :: rest) =
      let res := if fx.retry then AssemblerStatus.kRetryAll else p.res
      assembleLoop m start_addr
        ⟨fx.lir :: fx.before.reverse ++ p.done, res,
          if res ≠ .kSuccess then p.code_buffer else p.code_buffer ++ fx.lir.bytes, fx.next_addr⟩
        (fx.after ++ setFirstOperand rest fx.next_operand0) := by
  rw [assembleLoop]
  split
  case h_1 q hq =>
    rw [hop] at hq
    cases hq
  case h_2 op' hop' =>
    rw [hop, LirOpcode.arm.injEq] at hop'
    subst hop'
    rw [if_neg (by simp [hnop])]
    split
    case h_1 hnone =>
      rw [hfx] at hnone
      cases hnone
    case h_2 fx' hsome =>
      rw [hfx, Option.some.injEq] at hsome
      subst hsome
      rfl

/-- A plain instruction is encoded as it is while no retry is pending. -/
theorem assembleLoop_plain (m : Mir2Lir) (start_addr : Nat) (p : Pass) {lir : LIR}
    (hplain : lir.IsPlain) (hres : p.res = .kSuccess) (rest : List LIR) :
    assembleLoop m start_addr p (lir :: rest) =
      assembleLoop m start_addr
        { p with done := lir :: p.done, code_buffer := p.code_buffer ++ lir.bytes } rest := by
  rcases hplain with ⟨⟨op, hop⟩, hnop, hfix⟩
  have hfx : m.fixupOf start_addr p.next_addr op lir = some (.keep p.next_addr lir false) := by
    simp [Mir2Lir.fixupOf, hfix]
  rw [assembleLoop_arm m start_addr p hop hnop hfx]
  simp [Fixup.keep, hres, setFirstOperand]

/-- A run of plain instructions appends their encodings, in order. -/
theorem assembleLoop_plain_append (m : Mir2Lir) (start_addr : Nat) (p : Pass)
    (hres : p.res = .kSuccess) {fs : List LIR} (hfs : ∀ f ∈ fs, f.IsPlain) (rest : List LIR) :
    assembleLoop m start_addr p (fs ++ rest) =
      assembleLoop m start_addr
        { p with done := fs.reverse ++ p.done, code_buffer := p.code_buffer ++ fs.flatMap LIR.bytes }
        rest := by
  induction fs generalizing p with
  | nil => simp
  | cons f fs ih =>
    rw [List.cons_append, assembleLoop_plain m start_addr p (hfs f List.mem_cons_self) hres,
      ih { p with done := f :: p.done, code_buffer := p.code_buffer ++ f.bytes } hres
        (fun g hg => hfs g (List.mem_cons_of_mem f hg))]
    simp

/-! ### Runs of the layout -/

theorem assignInsnOffsetsLoop_append (xs ys : List LIR) (offset : Nat) :
    assignInsnOffsetsLoop (xs ++ ys) offset =
      ((assignInsnOffsetsLoop xs offset).1 ++
          (assignInsnOffsetsLoop ys (assignInsnOffsetsLoop xs offset).2).1,
        (assignInsnOffsetsLoop ys (assignInsnOffsetsLoop xs offset).2).2) := by
  induction xs generalizing offset with
  | nil => rfl
  | cons lir xs ih =>
    simp only [List.cons_append, assignInsnOffsetsLoop, ih]

/-- An instruction takes its size, unless it is a nop. -/
theorem assignInsnOffsetsLoop_arm_cons {lir : LIR} {op : ArmOpcode} (hop : lir.opcode = .arm op)
    (rest : List LIR) (offset : Nat) :
    assignInsnOffsetsLoop (lir :: rest) offset =
      let next := if lir.is_nop then offset else offset + lir.size
      ({ lir with offset } :: (assignInsnOffsetsLoop rest next).1, (assignInsnOffsetsLoop rest next).2) := by
  simp only [assignInsnOffsetsLoop, hop]

/-- A label takes no space. -/
theorem assignInsnOffsetsLoop_label_cons {lir : LIR} (hlabel : lir.opcode = .pseudo .label)
    (rest : List LIR) (offset : Nat) :
    assignInsnOffsetsLoop (lir :: rest) offset =
      ({ lir with offset } :: (assignInsnOffsetsLoop rest offset).1,
        (assignInsnOffsetsLoop rest offset).2) := by
  simp only [assignInsnOffsetsLoop, hlabel]

/-- Instructions that are not nops end at their sizes' sum. -/
theorem assignInsnOffsetsLoop_snd {fs : List LIR}
    (hfs : ∀ f ∈ fs, (∃ op, f.opcode = .arm op) ∧ f.is_nop = false) (offset : Nat) :
    (assignInsnOffsetsLoop fs offset).2 = offset + (fs.map LIR.size).sum := by
  induction fs generalizing offset with
  | nil => rfl
  | cons f fs ih =>
    rcases hfs f List.mem_cons_self with ⟨⟨op, hop⟩, hnop⟩
    rw [assignInsnOffsetsLoop_arm_cons hop]
    simp only [hnop, Bool.false_eq_true, if_false, List.map_cons, List.sum_cons]
    rw [ih (fun g hg => hfs g (List.mem_cons_of_mem f hg))]
    omega

/-- The layout of instructions changes their offsets only. -/
theorem mem_assignInsnOffsetsLoop {fs : List LIR} (hfs : ∀ f ∈ fs, ∃ op, f.opcode = .arm op)
    {offset : Nat} {g : LIR} (hg : g ∈ (assignInsnOffsetsLoop fs offset).1) :
    ∃ f ∈ fs, g = { f with offset := g.offset } := by
  induction fs generalizing offset with
  | nil => cases hg
  | cons f fs ih =>
    rcases hfs f List.mem_cons_self with ⟨op, hop⟩
    rw [assignInsnOffsetsLoop_arm_cons hop, List.mem_cons] at hg
    rcases hg with rfl | hg
    · exact ⟨f, List.mem_cons_self, rfl⟩
    · rcases ih (fun g hg => hfs g (List.mem_cons_of_mem f hg)) hg with ⟨f', hf', hg'⟩
      exact ⟨f', List.mem_cons_of_mem f hf', hg'⟩

/-! ### Lookups -/

theorem offsetOf_cons_self (lir : LIR) (rest : List LIR) : offsetOf (lir :: rest) lir.addr = lir.offset := by
  simp [offsetOf]

theorem offsetOf_append_of_ne {gs : List LIR} {addr : Nat} (hgs : ∀ g ∈ gs, g.addr ≠ addr)
    (rest : List LIR) : offsetOf (gs ++ rest) addr = offsetOf rest addr := by
  have hnone : gs.find? (fun lir => lir.addr == addr) = none := by
    rw [List.find?_eq_none]
    intro g hg
    simpa using hgs g hg
  simp only [offsetOf, List.find?_append, hnone, Option.none_or]

/-! ### The 32-bit conditional branch -/

/-- The fixup of the 32-bit conditional branch keeps it, whatever the
    distance to its target, and asks for no retry. -/
theorem fixupBCond_thumb2 (lirs : List LIR) (next_addr : Nat) (lir : LIR) :
    fixupBCond lirs next_addr .kThumb2BCond lir =
      .keep next_addr
        { lir with operands := lir.operands.set 0 (((offsetOf lirs lir.target : Int) - (lir.offset + 4)) / 2) }
        false := by
  simp [fixupBCond]

theorem fixup_thumb2BCond (lirs : List LIR) (tables : List DataTable) (start_addr : Nat)
    (disable_opt : UInt32) (next_addr : Nat) (lir : LIR) :
    fixup lirs tables start_addr disable_opt next_addr .kThumb2BCond lir =
      some (fixupBCond lirs next_addr .kThumb2BCond lir) := by
  simp [fixup, IsPcRelLoad]

/-! ### The branch as the processor reads it -/

/-- The 32-bit instruction at `offset` of a code buffer: two halfwords, each
    little-endian, the first the high one. -/
def thumb2WordAt (code : List UInt8) (offset : Nat) : UInt32 :=
  let byte (i : Nat) : UInt32 := (code.getD (offset + i) 0).toUInt32
  (((byte 1 <<< 8) ||| byte 0) <<< 16) ||| ((byte 3 <<< 8) ||| byte 2)

/-- The branch offset of the Thumb encoding T3 of `B`, the conditional one:
    `SignExtend(S:J2:J1:imm6:imm11:'0', 32)`, with S at bit 26, imm6 at bits
    21 to 16, J1 at bit 13, J2 at bit 11 and imm11 at bits 10 to 0. The
    target is the pc, the instruction's offset and 4, plus this offset. -/
def branchOffsetT3 (w : UInt32) : Int :=
  let s := (w >>> 26) &&& 1
  let j1 := (w >>> 13) &&& 1
  let j2 := (w >>> 11) &&& 1
  let imm6 := (w >>> 16) &&& 0x3f
  let imm11 := w &&& 0x7ff
  let imm21 := (s <<< 20) ||| (j2 <<< 19) ||| (j1 <<< 18) ||| (imm6 <<< 12) ||| (imm11 <<< 1)
  if s = 0 then imm21.toNat else (imm21.toNat : Int) - 2 ^ 21

theorem thumb2WordAt_append {code : List UInt8} (hcode : code.length = 4) (rest : List UInt8) :
    thumb2WordAt (code ++ rest) 0 = thumb2WordAt code 0 := by
  simp [thumb2WordAt, List.getD_eq_getElem?_getD, List.getElem?_append_left, hcode]

/-! ### A branch over a megabyte -/

/-- `beq` to the label at address 2, as `OpCondBranch` emits it: the
    32-bit form, its offset set by the fixup. -/
def farBranch : LIR := rawLIR 1 (.arm .kThumb2BCond) 0 kArmCondEq 0 0 0 2

/-- The label `farBranch` targets. -/
def farLabel : LIR := rawLIR 2 (.pseudo .label) 0 0 0 0 0 0

/-- `ldr r0, [r0]`, a 32-bit instruction with no fixup. -/
def loadLIR (addr : Nat) : LIR := rawLIR addr (.arm .kThumb2LdrRRI12) 0 0 0 0 0 0

/-- `n` loads, at the addresses from 3. -/
def loads (n : Nat) : List LIR := (List.range n).map fun i => loadLIR (i + 3)

/-- A method whose code is `farBranch`, `n` loads and the label. -/
def farBranchMethod (n : Nat) : Mir2Lir where
  lirs := farBranch :: loads n ++ [farLabel]
  literal_list := []
  code_literal_list := []
  method_literal_list := []
  switch_tables := []
  fill_array_data := []
  data_offset := 0
  total_size := 0
  code_buffer := []
  next_addr := n + 3
  disable_opt := 0

theorem mem_loads {n : Nat} {lir : LIR} (h : lir ∈ loads n) :
    lir.opcode = .arm .kThumb2LdrRRI12 ∧ lir.is_nop = false ∧ lir.pcRelFixup = false ∧
      lir.size = 4 ∧ 3 ≤ lir.addr := by
  simp only [loads, List.mem_map, List.mem_range] at h
  rcases h with ⟨i, _, rfl⟩
  simp [loadLIR, rawLIR, setupResourceMasks, encodingMap]

theorem sum_size_loads (n : Nat) : ((loads n).map LIR.size).sum = 4 * n := by
  have hconst : (loads n).map LIR.size = List.replicate n 4 := by
    simp [loads, loadLIR, rawLIR, setupResourceMasks, encodingMap, Function.comp_def]
  rw [hconst, List.sum_replicate, smul_eq_mul, Nat.mul_comm]

/-- The layout of `farBranchMethod`: the branch at 0, the loads from 4 on,
    and the label after them. -/
theorem assignOffsets_farBranchMethod (n : Nat) :
    assignOffsets (farBranchMethod n) =
      { farBranchMethod n with
        lirs := { farBranch with offset := 0 } :: (assignInsnOffsetsLoop (loads n) 4).1 ++
          [{ farLabel with offset := 4 + 4 * n }]
        data_offset := 4 + 4 * n
        total_size := 4 + 4 * n } := by
  have hend : (assignInsnOffsetsLoop (loads n) 4).2 = 4 + 4 * n := by
    rw [assignInsnOffsetsLoop_snd (fun f hf => ⟨⟨_, (mem_loads hf).1⟩, (mem_loads hf).2.1⟩),
      sum_size_loads]
  have hlayout : assignInsnOffsetsLoop (farBranchMethod n).lirs 0 =
      ({ farBranch with offset := 0 } :: (assignInsnOffsetsLoop (loads n) 4).1 ++
        [{ farLabel with offset := 4 + 4 * n }], 4 + 4 * n) := by
    have hbranch : farBranch.opcode = .arm .kThumb2BCond := rfl
    rw [show (farBranchMethod n).lirs = farBranch :: (loads n ++ [farLabel]) from rfl,
      assignInsnOffsetsLoop_arm_cons hbranch]
    simp only [show farBranch.is_nop = false from rfl, show farBranch.size = 4 from rfl,
      Bool.false_eq_true, if_false, Nat.zero_add]
    rw [assignInsnOffsetsLoop_append, hend, assignInsnOffsetsLoop_label_cons rfl]
    rfl
  -- the literals start at the next word, and there are none
  have halign : (4 + 4 * n + 3) / 4 * 4 = 4 + 4 * n := by omega
  simp only [assignOffsets, hlayout, halign]
  rfl

/-- The label lies after the loads, whatever comes first. -/
theorem offsetOf_farLabel {lir : LIR} (haddr : lir.addr ≠ 2) (n : Nat) (rest : List LIR) :
    offsetOf (lir :: (assignInsnOffsetsLoop (loads n) 4).1 ++ [{ farLabel with offset := 4 + 4 * n }] ++ rest)
      2 = 4 + 4 * n := by
  have hne : ∀ g ∈ lir :: (assignInsnOffsetsLoop (loads n) 4).1, g.addr ≠ 2 := by
    intro g hg
    rcases List.mem_cons.mp hg with rfl | hg
    · exact haddr
    · rcases mem_assignInsnOffsetsLoop (fun f hf => ⟨_, (mem_loads hf).1⟩) hg with ⟨f, hf, hgf⟩
      have haddr : g.addr = f.addr := by rw [hgf]
      have := (mem_loads hf).2.2.2.2
      omega
  rw [List.append_assoc, offsetOf_append_of_ne hne]
  exact offsetOf_cons_self _ _

/-- `farBranch` at offset 0 after its fixup over `n` loads. -/
def farBranchFixed (n : Nat) : LIR :=
  { farBranch with offset := 0, operands := farBranch.operands.set 0 (2 * n) }

/-- The fixup of `farBranch`: the halfword offset `2 * n`, and no retry. -/
theorem fixupOf_farBranch (n : Nat) :
    (assignOffsets (farBranchMethod n)).fixupOf 0 (n + 3) .kThumb2BCond { farBranch with offset := 0 } =
      some (.keep (n + 3) (farBranchFixed n) false) := by
  have hfix : farBranch.pcRelFixup = true := rfl
  have hdelta : ((4 + 4 * n : Nat) - ((0 : Nat) + 4) : Int) / 2 = 2 * n := by omega
  simp only [Mir2Lir.fixupOf, hfix, if_true, fixup_thumb2BCond, fixupBCond_thumb2]
  have htarget : offsetOf ((assignOffsets (farBranchMethod n)).lirs ++ []) 2 = 4 + 4 * n := by
    rw [assignOffsets_farBranchMethod]
    exact offsetOf_farLabel (show (1 : Nat) ≠ 2 by decide) n []
  simp only [show farBranch.target = 2 from rfl, show (assignOffsets (farBranchMethod n)).literals = [] from by
    rw [assignOffsets_farBranchMethod]; rfl, htarget, hdelta]
  rfl

/-- The pass over `farBranchMethod n` as laid out succeeds: the branch is
    fixed up, and the code is its encoding and the loads'. -/
theorem assembleInstructions_farBranchMethod (n : Nat) :
    ∃ m', assembleInstructions 0 (assignOffsets (farBranchMethod n)) = some (.kSuccess, m') ∧
      m'.lirs = farBranchFixed n :: (assignInsnOffsetsLoop (loads n) 4).1 ++
        [{ farLabel with offset := 4 + 4 * n }] ∧
      m'.code_buffer = (farBranchFixed n).bytes ++ (assignInsnOffsetsLoop (loads n) 4).1.flatMap LIR.bytes := by
  have hplain : ∀ g ∈ (assignInsnOffsetsLoop (loads n) 4).1, g.IsPlain := by
    intro g hg
    rcases mem_assignInsnOffsetsLoop (fun f hf => ⟨_, (mem_loads hf).1⟩) hg with ⟨f, hf, hgf⟩
    rcases mem_loads hf with ⟨hop, hnop, hfix, -, -⟩
    rw [hgf]
    exact ⟨⟨_, hop⟩, hnop, hfix⟩
  have hlirs := congrArg Mir2Lir.lirs (assignOffsets_farBranchMethod n)
  have hcode := congrArg Mir2Lir.code_buffer (assignOffsets_farBranchMethod n)
  have hnext := congrArg Mir2Lir.next_addr (assignOffsets_farBranchMethod n)
  dsimp only at hlirs hcode hnext
  unfold assembleInstructions
  rw [hlirs, hcode, hnext, List.cons_append, assembleLoop_arm _ 0 _ rfl rfl (fixupOf_farBranch n)]
  simp only [Fixup.keep, Bool.false_eq_true, if_false, List.reverse_nil, List.nil_append,
    setFirstOperand_none, show (farBranchMethod n).code_buffer = [] from rfl, ne_eq, not_true_eq_false]
  rw [assembleLoop_plain_append _ 0 _ rfl hplain, assembleLoop_label _ 0 _ rfl, assembleLoop_nil]
  refine ⟨_, rfl, ?_, rfl⟩
  simp

/-- `assembleLIR` succeeds on `farBranchMethod n` at its first pass, for
    every `n`: the label lies `4 * n` bytes after the branch's pc, and the
    code starts with the branch in its 32-bit form, with the halfword
    offset `2 * n` whatever its size. -/
theorem assembleLIR_farBranchMethod (n : Nat) :
    ∃ m', assembleLIR (farBranchMethod n) = some m' ∧
      offsetOf m'.lirs 1 = 0 ∧ offsetOf m'.lirs 2 = 4 + 4 * n ∧
      thumb2WordAt m'.code_buffer 0 = thumb2WordAt (farBranchFixed n).bytes 0 := by
  rcases assembleInstructions_farBranchMethod n with ⟨m', hpass, hlirs, hcode⟩
  refine ⟨m', ?_, ?_, ?_, ?_⟩
  · rw [assembleLIR, assembleLIRLoop, hpass]
  · rw [hlirs, List.cons_append]
    exact offsetOf_cons_self _ _
  · rw [hlirs, ← List.append_nil (_ ++ _)]
    exact offsetOf_farLabel (show (1 : Nat) ≠ 2 by decide) n []
  · rw [hcode]
    exact thumb2WordAt_append rfl _

/-- A conditional branch over a megabyte of code: the pass succeeds, the
    label lies `2 ^ 20` bytes after the branch's pc, and the branch the
    processor decodes goes `2 ^ 20` bytes back. -/
theorem far_conditional_branch_misencoded :
    ∃ m', assembleLIR (farBranchMethod (2 ^ 18)) = some m' ∧
      (offsetOf m'.lirs 2 : Int) - (offsetOf m'.lirs 1 + 4) = 2 ^ 20 ∧
      branchOffsetT3 (thumb2WordAt m'.code_buffer (offsetOf m'.lirs 1)) = -2 ^ 20 := by
  rcases assembleLIR_farBranchMethod (2 ^ 18) with ⟨m', hm', hbranch, hlabel, hword⟩
  refine ⟨m', hm', ?_, ?_⟩
  · rw [hbranch, hlabel]
    norm_num
  · rw [hbranch, hword]
    decide

end Arm

end ArtRuntime
