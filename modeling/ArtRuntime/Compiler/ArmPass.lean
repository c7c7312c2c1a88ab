import ArtRuntime.Compiler.ArmAssembler
import ArtRuntime.Core.Layout

/-!
# The Passes of the Thumb-2 Assembler

`AssembleLIR` runs pass after pass of `AssembleInstructions` until one
succeeds, and only the last pass writes the code that is kept. A pass that
asks for no retry is a simple thing: no fixup in it rewrote an instruction
into another, inserted one or marked one a nop, so every LIR is where the
layout put it, with the size the layout gave it, and only operands changed.
This module proves that, and carries the facts a correctness argument needs
across every pass before it: each LIR stays as `SetupResourceMasks` leaves
it (its size its encoding's, 2 or 4 bytes, marked for a fixup where its
encoding needs one) whatever the fixups of a retried pass did to the list.

So the unit of the argument is the successful pass over a laid-out method,
and `assembleLIR_success` reduces every run of `AssembleLIR` to one: the
method it returns is what a successful pass made of a method that
`AssignOffsets` laid out, with an empty code buffer, all of whose LIRs are
well formed.

## Main definitions

* `LIR.WellFormed`: A LIR as the code generator and `SetupResourceMasks`
  make it.
* `LIR.SameShape`: Two LIRs that differ in their operands only.
* `Fixup.Spec`: What every fixup does: in place unless it asks for a retry,
  and well-formed LIRs out of a well-formed one.
* `Visit`: What a pass that asks for no retry makes of one LIR.
* `LIR.emitted`: The bytes such a pass appends for one LIR.

## Theorems

* `fixup_spec`, `fixupOf_spec`: Every fixup meets `Fixup.Spec`.
* `assembleLoop_wellFormed`: A pass keeps every LIR well formed.
* `assembleLoop_success`: A pass that ends with `kSuccess` visits each LIR
  in place and appends exactly their `emitted` bytes.
* `assembleLIR_success`: Every run of `AssembleLIR` ends with such a pass
  over a laid-out method.
* `assembleLIR_code`, `assembleLIR_even`: The code it returns has each LIR's
  bytes at its offset, on a halfword.
* `assembleLIR_wellFormed`, `assembleLIR_onePass`, `assembleLIR_layout`:
  What `AssembleLIR` returns: well-formed LIRs, one pass over a layout, and
  code and literals where that layout put them.
-/

namespace ArtRuntime

namespace Arm

/-! ### Well-formed LIRs -/

/-- A LIR as the ARM code generator makes it: five operands, and for an
    instruction what `SetupResourceMasks` leaves, its size its encoding's,
    which is 2 or 4 bytes, and the fixup mark where its encoding needs one.
    It is not the first half of a `bl` or `blx`: this code generator never
    emits those, and their fixup is the only one that writes into the next
    LIR. -/
def LIR.WellFormed (lir : LIR) : Prop :=
  lir.operands.length = 5 ∧
    ∀ op, lir.opcode = .arm op →
      lir.size = (encodingMap op).size ∧ ((encodingMap op).size = 2 ∨ (encodingMap op).size = 4) ∧
        ((encodingMap op).needs_fixup = true → lir.pcRelFixup = true) ∧
        op ≠ .kThumbBlx1 ∧ op ≠ .kThumbBl1

/-- Two LIRs that differ in their operands only. -/
def LIR.SameShape (x y : LIR) : Prop :=
  ∃ operands, y = { x with operands }

theorem LIR.SameShape.refl (x : LIR) : x.SameShape x :=
  ⟨x.operands, rfl⟩

theorem LIR.SameShape.trans {x y z : LIR} (hxy : x.SameShape y) (hyz : y.SameShape z) :
    x.SameShape z := by
  rcases hxy with ⟨ops, rfl⟩
  rcases hyz with ⟨ops', rfl⟩
  exact ⟨ops', rfl⟩

theorem LIR.sameShape_set (x : LIR) (operands : List Int) : x.SameShape { x with operands } :=
  ⟨operands, rfl⟩

/-- Well-formedness reads the operands only through their number. -/
theorem LIR.WellFormed.of_sameShape {x y : LIR} (hwf : x.WellFormed) (hxy : x.SameShape y)
    (hlen : y.operands.length = 5) : y.WellFormed := by
  rcases hxy with ⟨ops, rfl⟩
  exact ⟨hlen, hwf.2⟩

theorem LIR.WellFormed.set_operand {lir : LIR} (hwf : lir.WellFormed) (i : Nat) (v : Int) :
    { lir with operands := lir.operands.set i v }.WellFormed :=
  hwf.of_sameShape (LIR.sameShape_set _ _) (by rw [List.length_set]; exact hwf.1)

theorem LIR.WellFormed.nop {lir : LIR} (hwf : lir.WellFormed) : { lir with is_nop := true }.WellFormed :=
  ⟨hwf.1, hwf.2⟩

/-- `SetupResourceMasks` makes an instruction well formed. -/
theorem LIR.WellFormed.setup {lir : LIR} {op : ArmOpcode} (hlen : lir.operands.length = 5)
    (hop : lir.opcode = .arm op) (hsize : (encodingMap op).size = 2 ∨ (encodingMap op).size = 4)
    (hblx : op ≠ .kThumbBlx1) (hbl : op ≠ .kThumbBl1) : (setupResourceMasks lir).WellFormed := by
  unfold setupResourceMasks
  rw [hop]
  refine ⟨hlen, ?_⟩
  intro op' hop'
  simp only [LirOpcode.arm.injEq] at hop'
  subst hop'
  refine ⟨rfl, hsize, ?_, hblx, hbl⟩
  intro hneeds
  simp [hneeds]

theorem LIR.WellFormed.rawLIR {addr : Nat} {op : ArmOpcode} (hsize : (encodingMap op).size = 2 ∨ (encodingMap op).size = 4)
    (hblx : op ≠ .kThumbBlx1) (hbl : op ≠ .kThumbBl1) (op0 op1 op2 op3 op4 : Int) (target : Nat) :
    (rawLIR addr (.arm op) op0 op1 op2 op3 op4 target).WellFormed :=
  LIR.WellFormed.setup rfl rfl hsize hblx hbl

/-- The bytes a pass appends for one LIR while no retry is pending: the
    padding of an alignment that needs it, and the encoding of an instruction
    that is not a nop. -/
def LIR.emitted (lir : LIR) : List UInt8 :=
  match lir.opcode with
  | .pseudo q =>
    if q = .kPseudoPseudoAlign4 ∧ lir.operand 0 = 1 then
      [(PADDING_MOV_R5_R5 &&& 0xFF).toUInt8, ((PADDING_MOV_R5_R5 >>> 8) &&& 0xFF).toUInt8]
    else []
  | .arm _ => if lir.is_nop then [] else lir.bytes

/-! ### Fixups -/

/-- A fixup done in place: nothing inserted, nothing written into the next
    LIR, no address taken, and the instruction changed in its operands only. -/
def Fixup.InPlace (next_addr : Nat) (lir : LIR) (fx : Fixup) : Prop :=
  fx.before = [] ∧ fx.after = [] ∧ fx.next_operand0 = none ∧ fx.next_addr = next_addr ∧
    lir.SameShape fx.lir

/-- What every fixup of a well-formed instruction does: it works in place
    unless it asks for a retry, and every LIR it returns is well formed. -/
structure Fixup.Spec (next_addr : Nat) (lir : LIR) (fx : Fixup) : Prop where
  in_place : fx.retry = false → fx.InPlace next_addr lir
  wellFormed : ∀ y ∈ fx.before ++ fx.lir :: fx.after, y.WellFormed

theorem Fixup.keep_spec {next_addr : Nat} {lir lir' : LIR} (hshape : lir.SameShape lir')
    (hwf : lir'.WellFormed) (retry : Bool) : (Fixup.keep next_addr lir' retry).Spec next_addr lir where
  in_place _ := ⟨rfl, rfl, rfl, rfl, hshape⟩
  wellFormed y hy := by
    simp only [Fixup.keep, List.nil_append, List.mem_singleton] at hy
    rw [hy]
    exact hwf

/-- A fixup that asks for a retry need only return well-formed LIRs. -/
theorem Fixup.spec_of_retry {next_addr : Nat} {lir : LIR} {fx : Fixup} (hretry : fx.retry = true)
    (hwf : ∀ y ∈ fx.before ++ fx.lir :: fx.after, y.WellFormed) : fx.Spec next_addr lir where
  in_place h := absurd (hretry.symm.trans h) Bool.noConfusion
  wellFormed := hwf

/-- A fixup that rewrites the instruction asks for a retry. -/
theorem Fixup.keep_retry_spec {next_addr : Nat} {lir lir' : LIR} (hwf : lir'.WellFormed) :
    (Fixup.keep next_addr lir' true).Spec next_addr lir :=
  Fixup.spec_of_retry rfl (by simpa [Fixup.keep] using hwf)

theorem fixupPcRelLoad_spec {lirs : List LIR} {next_addr : Nat} {op : ArmOpcode} {lir : LIR}
    {fx : Fixup} (hwf : lir.WellFormed) (hop : lir.opcode = .arm op)
    (h : fixupPcRelLoad lirs next_addr op lir = some fx) : fx.Spec next_addr lir := by
  rcases hwf.2 op hop with ⟨-, hsize, -, hblx, hbl⟩
  dsimp only [fixupPcRelLoad] at h
  split at h
  · cases h
  split at h
  · cases h
  split at h
  · -- too far: an adr of the literal and a load relative to it
    cases h
    refine Fixup.spec_of_retry rfl ?_
    intro y hy
    simp only [List.cons_append, List.nil_append, List.mem_cons, List.not_mem_nil, or_false] at hy
    rcases hy with rfl | rfl
    · exact LIR.WellFormed.rawLIR (by decide) (by decide) (by decide) _ _ _ _ _ _
    · -- the load keeps its opcode or becomes the register-relative form
      refine LIR.WellFormed.setup ?_ rfl ?_ ?_ ?_ <;> split_ifs <;>
        first | decide | exact hsize | exact hblx | exact hbl | simp [hwf.1]
  -- in range: the displacement into one operand
  split at h <;>
  · cases h
    exact Fixup.keep_spec (LIR.sameShape_set _ _) (hwf.set_operand _ _) false

theorem fixupCbz_spec (lirs : List LIR) (next_addr : Nat) (op : ArmOpcode) {lir : LIR}
    (hwf : lir.WellFormed) : (fixupCbz lirs next_addr op lir).Spec next_addr lir := by
  by_cases hfar : (offsetOf lirs lir.target : Int) - (lir.offset + 4) > 126 ∨
      (offsetOf lirs lir.target : Int) - (lir.offset + 4) < 0
  · -- a cmp with 0, and the branch inserted after it
    rw [fixupCbz]
    dsimp only
    rw [if_pos hfar]
    refine Fixup.spec_of_retry rfl ?_
    intro y hy
    simp only [List.nil_append, List.mem_cons, List.not_mem_nil, or_false] at hy
    rcases hy with rfl | rfl
    · exact LIR.WellFormed.setup (by rw [List.length_set]; exact hwf.1) rfl (by decide) (by decide)
        (by decide)
    · exact LIR.WellFormed.rawLIR (by decide) (by decide) (by decide) _ _ _ _ _ _
  · rw [fixupCbz]
    dsimp only
    rw [if_neg hfar]
    exact Fixup.keep_spec (LIR.sameShape_set _ _) (hwf.set_operand _ _) false

theorem fixupPushPop_spec (next_addr : Nat) (op : ArmOpcode) {lir : LIR} (hwf : lir.WellFormed) :
    (fixupPushPop next_addr op lir).Spec next_addr lir := by
  dsimp only [fixupPushPop]
  split_ifs
  -- one register: the single-register push or pop
  · exact Fixup.keep_retry_spec
      (LIR.WellFormed.setup (by rw [List.length_set]; exact hwf.1) rfl (by decide) (by decide) (by decide))
  · exact Fixup.keep_retry_spec
      (LIR.WellFormed.setup (by rw [List.length_set]; exact hwf.1) rfl (by decide) (by decide) (by decide))
  · exact Fixup.keep_spec (LIR.SameShape.refl _) hwf false

theorem fixupBCond_spec (lirs : List LIR) (next_addr : Nat) (op : ArmOpcode) {lir : LIR}
    (hwf : lir.WellFormed) : (fixupBCond lirs next_addr op lir).Spec next_addr lir := by
  by_cases hfar : op = .kThumbBCond ∧ ((offsetOf lirs lir.target : Int) - (lir.offset + 4) > 254 ∨
      (offsetOf lirs lir.target : Int) - (lir.offset + 4) < -256)
  · -- the 16-bit form out of range becomes the 32-bit one
    rw [fixupBCond]
    dsimp only
    rw [if_pos hfar]
    exact Fixup.keep_retry_spec
      ((@LIR.WellFormed.setup { lir with opcode := .arm .kThumb2BCond } .kThumb2BCond hwf.1 rfl (by decide)
        (by decide) (by decide)).set_operand _ _)
  · rw [fixupBCond]
    dsimp only
    rw [if_neg hfar]
    exact Fixup.keep_spec (LIR.sameShape_set _ _) (hwf.set_operand _ _) false

theorem fixupThumb2BUncond_spec (lirs : List LIR) (disable_opt : UInt32) (next_addr : Nat)
    {lir : LIR} (hwf : lir.WellFormed) :
    (fixupThumb2BUncond lirs disable_opt next_addr lir).Spec next_addr lir := by
  dsimp only [fixupThumb2BUncond]
  split
  -- a branch to the next instruction
  · exact Fixup.keep_retry_spec (hwf.set_operand _ _).nop
  · exact Fixup.keep_spec (LIR.sameShape_set _ _) (hwf.set_operand _ _) false

theorem fixupThumbBUncond_spec (lirs : List LIR) (disable_opt : UInt32) (next_addr : Nat)
    {lir : LIR} (hwf : lir.WellFormed) :
    (fixupThumbBUncond lirs disable_opt next_addr lir).Spec next_addr lir := by
  dsimp only [fixupThumbBUncond]
  split_ifs
  -- out of range: the 32-bit form
  · exact Fixup.keep_retry_spec
      (LIR.WellFormed.setup (by rw [List.length_set]; exact hwf.1) rfl (by decide) (by decide) (by decide))
  -- a branch to the next instruction
  · exact Fixup.keep_retry_spec (hwf.set_operand _ _).nop
  · exact Fixup.keep_spec (LIR.sameShape_set _ _) (hwf.set_operand _ _) false

/-- The `movw`, `movt` and `add` of pc an `adr` out of range becomes. -/
theorem Fixup.adr_spec {next_addr : Nat} {lir : LIR} (hwf : lir.WellFormed) {op : ArmOpcode}
    (hop : op = .kThumbAddRRLH ∨ op = .kThumbAddRRHH) (a b : Int) :
    (⟨[rawLIR next_addr (.arm .kThumb2MovImm16LST) (lir.operand 0) 0 a b 0 lir.target,
        rawLIR (next_addr + 1) (.arm .kThumb2MovImm16HST) (lir.operand 0) 0 a b 0 lir.target],
      setupResourceMasks { lir with opcode := .arm op, operands := lir.operands.set 1 r15pc }, [], none,
      true, next_addr + 2⟩ : Fixup).Spec next_addr lir := by
  refine Fixup.spec_of_retry rfl ?_
  intro y hy
  simp only [List.cons_append, List.nil_append, List.mem_cons, List.not_mem_nil, or_false] at hy
  rcases hy with rfl | rfl | rfl
  · exact LIR.WellFormed.rawLIR (by decide) (by decide) (by decide) _ _ _ _ _ _
  · exact LIR.WellFormed.rawLIR (by decide) (by decide) (by decide) _ _ _ _ _ _
  · refine LIR.WellFormed.setup (by rw [List.length_set]; exact hwf.1) rfl ?_ ?_ ?_ <;>
      rcases hop with rfl | rfl <;> decide

theorem fixupAdr_spec (lirs : List LIR) (tables : List DataTable) (next_addr : Nat) {lir : LIR}
    (hwf : lir.WellFormed) : (fixupAdr lirs tables next_addr lir).Spec next_addr lir := by
  dsimp only [fixupAdr]
  -- the cases of the table or target, of the range and of the register
  split_ifs
  all_goals first
    | exact Fixup.keep_spec (LIR.sameShape_set _ _) (hwf.set_operand _ _) false
    | exact Fixup.adr_spec hwf (by decide) _ _

theorem fixupMovImm16_spec (lirs : List LIR) (tables : List DataTable) (next_addr : Nat)
    (op : ArmOpcode) {lir : LIR} (hwf : lir.WellFormed) :
    (fixupMovImm16 lirs tables next_addr op lir).Spec next_addr lir :=
  Fixup.keep_spec (LIR.sameShape_set _ _) (hwf.set_operand _ _) false

/-- Every fixup of a well-formed instruction meets `Fixup.Spec`. -/
theorem fixup_spec {lirs : List LIR} {tables : List DataTable} {start_addr : Nat}
    {disable_opt : UInt32} {next_addr : Nat} {op : ArmOpcode} {lir : LIR} {fx : Fixup}
    (hwf : lir.WellFormed) (hop : lir.opcode = .arm op)
    (h : fixup lirs tables start_addr disable_opt next_addr op lir = some fx) : fx.Spec next_addr lir := by
  rcases hwf.2 op hop with ⟨-, -, -, hblx, hbl⟩
  unfold fixup at h
  -- one case a test of the chain, in its order
  by_cases hload : IsPcRelLoad op lir
  · rw [if_pos hload] at h
    exact fixupPcRelLoad_spec hwf hop h
  rw [if_neg hload] at h
  by_cases hcb : op = .kThumb2Cbnz ∨ op = .kThumb2Cbz
  · rw [if_pos hcb, Option.some.injEq] at h
    rw [← h]
    exact fixupCbz_spec lirs next_addr op hwf
  rw [if_neg hcb] at h
  by_cases hpush : op = .kThumb2Push ∨ op = .kThumb2Pop
  · rw [if_pos hpush, Option.some.injEq] at h
    rw [← h]
    exact fixupPushPop_spec next_addr op hwf
  rw [if_neg hpush] at h
  by_cases hbcond : op = .kThumbBCond ∨ op = .kThumb2BCond
  · rw [if_pos hbcond, Option.some.injEq] at h
    rw [← h]
    exact fixupBCond_spec lirs next_addr op hwf
  rw [if_neg hbcond] at h
  by_cases hb2 : op = .kThumb2BUncond
  · rw [if_pos hb2, Option.some.injEq] at h
    rw [← h]
    exact fixupThumb2BUncond_spec lirs disable_opt next_addr hwf
  rw [if_neg hb2] at h
  by_cases hb : op = .kThumbBUncond
  · rw [if_pos hb, Option.some.injEq] at h
    rw [← h]
    exact fixupThumbBUncond_spec lirs disable_opt next_addr hwf
  rw [if_neg hb, if_neg hblx, if_neg hbl] at h
  by_cases hadr : op = .kThumb2Adr
  · rw [if_pos hadr, Option.some.injEq] at h
    rw [← h]
    exact fixupAdr_spec lirs tables next_addr hwf
  rw [if_neg hadr] at h
  by_cases hmov : op = .kThumb2MovImm16LST ∨ op = .kThumb2MovImm16HST
  · rw [if_pos hmov, Option.some.injEq] at h
    rw [← h]
    exact fixupMovImm16_spec lirs tables next_addr op hwf
  rw [if_neg hmov, Option.some.injEq] at h
  rw [← h]
  exact Fixup.keep_spec (LIR.SameShape.refl _) hwf false

theorem fixupOf_spec {m : Mir2Lir} {start_addr next_addr : Nat} {op : ArmOpcode} {lir : LIR}
    {fx : Fixup} (hwf : lir.WellFormed) (hop : lir.opcode = .arm op)
    (h : m.fixupOf start_addr next_addr op lir = some fx) : fx.Spec next_addr lir := by
  unfold Mir2Lir.fixupOf at h
  split at h
  · exact fixup_spec hwf hop h
  · rw [Option.some.injEq] at h
    rw [← h]
    exact Fixup.keep_spec (LIR.SameShape.refl _) hwf false

/-! ### One pass -/

/-- The padding an alignment appends, as `emitted`. -/
theorem code_buffer_pseudo (p : Pass) {lir : LIR} {q : PseudoOpcode} (hq : lir.opcode = .pseudo q) :
    (if q = .kPseudoPseudoAlign4 ∧ lir.operand 0 = 1 then
        p.code_buffer ++ [(PADDING_MOV_R5_R5 &&& 0xFF).toUInt8, ((PADDING_MOV_R5_R5 >>> 8) &&& 0xFF).toUInt8]
      else p.code_buffer) = p.code_buffer ++ lir.emitted := by
  simp only [LIR.emitted, hq]
  split <;> simp

theorem assembleLoop_pseudo (m : Mir2Lir) (start_addr : Nat) (p : Pass) {lir : LIR} {q : PseudoOpcode}
    (hq : lir.opcode = .pseudo q) (rest : List LIR) :
    assembleLoop m start_addr p (lir :: rest) =
      assembleLoop m start_addr { p with done := lir :: p.done, code_buffer := p.code_buffer ++ lir.emitted }
        rest := by
  rw [assembleLoop]
  split
  case h_1 q' hq' =>
    rw [hq, LirOpcode.pseudo.injEq] at hq'
    subst hq'
    rw [← code_buffer_pseudo p hq]
  case h_2 op hop =>
    rw [hq] at hop
    cases hop

theorem assembleLoop_nop (m : Mir2Lir) (start_addr : Nat) (p : Pass) {lir : LIR} {op : ArmOpcode}
    (hop : lir.opcode = .arm op) (hnop : lir.is_nop = true) (rest : List LIR) :
    assembleLoop m start_addr p (lir :: rest) =
      assembleLoop m start_addr { p with done := lir :: p.done } rest := by
  rw [assembleLoop]
  split
  case h_1 q hq =>
    rw [hop] at hq
    cases hq
  case h_2 op' hop' =>
    rw [if_pos hnop]

theorem assembleLoop_fatal (m : Mir2Lir) (start_addr : Nat) (p : Pass) {lir : LIR} {op : ArmOpcode}
    (hop : lir.opcode = .arm op) (hnop : ¬ lir.is_nop = true)
    (hfx : m.fixupOf start_addr p.next_addr op lir = none) (rest : List LIR) :
    assembleLoop m start_addr p (lir :: rest) = none := by
  rw [assembleLoop]
  split
  case h_1 q hq =>
    rw [hop] at hq
    cases hq
  case h_2 op' hop' =>
    rw [hop, LirOpcode.arm.injEq] at hop'
    subst hop'
    rw [if_neg hnop]
    split
    case h_1 => rfl
    case h_2 fx hsome =>
      rw [hfx] at hsome
      cases hsome

theorem setFirstOperand_wellFormed {rest : List LIR} (hrest : ∀ x ∈ rest, x.WellFormed)
    (value : Option Int) : ∀ x ∈ setFirstOperand rest value, x.WellFormed := by
  unfold setFirstOperand
  split
  · intro x hx
    rcases List.mem_cons.mp hx with rfl | hx
    · exact (hrest _ List.mem_cons_self).set_operand 0 _
    · exact hrest x (List.mem_cons_of_mem _ hx)
  · exact hrest

/-- An instruction fixed up in place while no retry is pending is encoded
    as the fixup left it. -/
theorem assembleLoop_keep (m : Mir2Lir) (start_addr : Nat) (p : Pass) {lir y : LIR} {op : ArmOpcode}
    (hop : lir.opcode = .arm op) (hnop : lir.is_nop = false)
    (hfx : m.fixupOf start_addr p.next_addr op lir = some (.keep p.next_addr y false))
    (hres : p.res = .kSuccess) (rest : List LIR) :
    assembleLoop m start_addr p (lir :: rest) =
      assembleLoop m start_addr { p with done := y :: p.done, code_buffer := p.code_buffer ++ y.bytes } rest := by
  rw [assembleLoop_arm m start_addr p hop hnop hfx]
  simp [Fixup.keep, hres]

/-- Once a retry is pending, an instruction fixed up in place is not
    encoded: the pass only records it. -/
theorem assembleLoop_keep_of_retry (m : Mir2Lir) (start_addr : Nat) (p : Pass) {lir y : LIR} {op : ArmOpcode}
    (hop : lir.opcode = .arm op) (hnop : lir.is_nop = false) {retry : Bool}
    (hfx : m.fixupOf start_addr p.next_addr op lir = some (.keep p.next_addr y retry))
    (hres : p.res = .kRetryAll) (rest : List LIR) :
    assembleLoop m start_addr p (lir :: rest) = assembleLoop m start_addr { p with done := y :: p.done } rest := by
  rw [assembleLoop_arm m start_addr p hop hnop hfx]
  cases retry <;> simp [Fixup.keep, hres]

/-- An instruction replaced by a fixup that inserts instructions after it:
    the pass asks for a retry, encodes nothing, and visits the inserted
    instructions next. -/
theorem assembleLoop_expand (m : Mir2Lir) (start_addr : Nat) (p : Pass) {lir y : LIR} {op : ArmOpcode}
    (hop : lir.opcode = .arm op) (hnop : lir.is_nop = false) {after : List LIR} {next_addr : Nat}
    (hfx : m.fixupOf start_addr p.next_addr op lir = some ⟨[], y, after, none, true, next_addr⟩)
    (rest : List LIR) :
    assembleLoop m start_addr p (lir :: rest) =
      assembleLoop m start_addr ⟨y :: p.done, .kRetryAll, p.code_buffer, next_addr⟩ (after ++ rest) := by
  rw [assembleLoop_arm m start_addr p hop hnop hfx]
  simp

/-! ### A method with branches -/

/-- A method with a branch of each short form and a 32-bit conditional one,
    all to the label after them. -/
def branchMethod : Mir2Lir where
  lirs := [rawLIR 1 (.arm .kThumbBCond) 0 kArmCondNe 0 0 0 5, rawLIR 2 (.arm .kThumbBUncond) 0 0 0 0 0 5,
    rawLIR 3 (.arm .kThumb2Cbz) 0 0 0 0 0 5, rawLIR 4 (.arm .kThumb2BCond) 0 kArmCondEq 0 0 0 5,
    rawLIR 5 (.pseudo .label) 0 0 0 0 0 0]
  literal_list := []
  code_literal_list := []
  method_literal_list := []
  switch_tables := []
  fill_array_data := []
  data_offset := 0
  total_size := 0
  code_buffer := []
  next_addr := 6
  disable_opt := 0

/-- The LIRs of `branchMethod` as its one pass leaves them: at their offsets,
    each holding the halfwords from its pc to the label, 10 bytes in. -/
def branchMethodDone : List LIR :=
  [{ rawLIR 1 (.arm .kThumbBCond) 0 kArmCondNe 0 0 0 5 with offset := 0, operands := [3, kArmCondNe, 0, 0, 0] },
    { rawLIR 2 (.arm .kThumbBUncond) 0 0 0 0 0 5 with offset := 2, operands := [2, 0, 0, 0, 0] },
    { rawLIR 3 (.arm .kThumb2Cbz) 0 0 0 0 0 5 with offset := 4, operands := [0, 1, 0, 0, 0] },
    { rawLIR 4 (.arm .kThumb2BCond) 0 kArmCondEq 0 0 0 5 with offset := 6, operands := [0, kArmCondEq, 0, 0, 0] },
    { rawLIR 5 (.pseudo .label) 0 0 0 0 0 0 with offset := 10 }]

/-- `branchMethod` as `AssembleLIR` returns it. -/
def branchMethodOut : Mir2Lir :=
  { assignOffsets branchMethod with
    lirs := branchMethodDone, code_buffer := branchMethodDone.flatMap LIR.emitted }

theorem assignOffsets_branchMethod_lirs :
    (assignOffsets branchMethod).lirs =
      [{ rawLIR 1 (.arm .kThumbBCond) 0 kArmCondNe 0 0 0 5 with offset := 0 },
        { rawLIR 2 (.arm .kThumbBUncond) 0 0 0 0 0 5 with offset := 2 },
        { rawLIR 3 (.arm .kThumb2Cbz) 0 0 0 0 0 5 with offset := 4 },
        { rawLIR 4 (.arm .kThumb2BCond) 0 kArmCondEq 0 0 0 5 with offset := 6 },
        { rawLIR 5 (.pseudo .label) 0 0 0 0 0 0 with offset := 10 }] := rfl

/-- The one pass over `branchMethod`: each branch is in range, so the pass
    keeps it and asks for no retry. -/
theorem assembleLoop_branchMethod :
    assembleLoop (assignOffsets branchMethod) 0 ⟨[], .kSuccess, [], 6⟩ (assignOffsets branchMethod).lirs =
      some ⟨branchMethodDone.reverse, .kSuccess, branchMethodDone.flatMap LIR.emitted, 6⟩ := by
  rw [assignOffsets_branchMethod_lirs, assembleLoop_keep _ _ _ rfl rfl rfl rfl, assembleLoop_keep _ _ _ rfl rfl rfl rfl,
    assembleLoop_keep _ _ _ rfl rfl rfl rfl, assembleLoop_keep _ _ _ rfl rfl rfl rfl,
    assembleLoop_label _ _ _ rfl, assembleLoop_nil]
  rfl

/-- `AssembleLIR` assembles `branchMethod` in one pass. -/
theorem assembleLIR_branchMethod : assembleLIR branchMethod = some branchMethodOut := by
  have hpass : assembleInstructions 0 (assignOffsets branchMethod) = some (.kSuccess, branchMethodOut) := by
    unfold assembleInstructions
    rw [show (assignOffsets branchMethod).code_buffer = [] from rfl,
      show (assignOffsets branchMethod).next_addr = 6 from rfl, assembleLoop_branchMethod]
    rfl
  rw [assembleLIR, assembleLIRLoop, hpass]

theorem branchMethod_wellFormed : ∀ lir ∈ branchMethod.lirs, lir.WellFormed := by
  intro lir hlir
  simp only [branchMethod, List.mem_cons, List.not_mem_nil, or_false] at hlir
  rcases hlir with rfl | rfl | rfl | rfl | rfl
  all_goals first
    | exact LIR.WellFormed.rawLIR (by decide) (by decide) (by decide) _ _ _ _ _ _
    | exact ⟨rfl, fun op hop => by cases hop⟩

/-! ### A method assembled twice -/

/-- A method whose `cbz` goes back to the label that starts it, past a
    32-bit conditional branch to the label that ends it. A `cbz` cannot
    branch back, so the first pass replaces it with a `cmp` and a 16-bit
    conditional branch and asks for a retry. -/
def retryMethod : Mir2Lir where
  lirs := [rawLIR 1 (.pseudo .label) 0 0 0 0 0 0, rawLIR 2 (.arm .kThumb2BCond) 0 kArmCondEq 0 0 0 4,
    rawLIR 3 (.arm .kThumb2Cbz) 0 0 0 0 0 1, rawLIR 4 (.pseudo .label) 0 0 0 0 0 0]
  literal_list := []
  code_literal_list := []
  method_literal_list := []
  switch_tables := []
  fill_array_data := []
  data_offset := 0
  total_size := 0
  code_buffer := []
  next_addr := 5
  disable_opt := 0

/-- The LIRs of `retryMethod` as its first pass leaves them: the `cbz` is a
    `cmp`, still marked for a fixup, and the branch inserted after it, at
    the arena's next address, holds the halfwords from the offset it was
    created with. -/
def retryMethodExpanded : List LIR :=
  [{ rawLIR 1 (.pseudo .label) 0 0 0 0 0 0 with offset := 0 },
    { rawLIR 2 (.arm .kThumb2BCond) 0 kArmCondEq 0 0 0 4 with offset := 0, operands := [1, kArmCondEq, 0, 0, 0] },
    setupResourceMasks { rawLIR 3 (.arm .kThumb2Cbz) 0 0 0 0 0 1 with
      offset := 4, opcode := .arm .kThumbCmpRI8, target := 0 },
    { rawLIR 5 (.arm .kThumbBCond) 0 kArmCondEq 0 0 0 1 with operands := [-2, kArmCondEq, 0, 0, 0] },
    { rawLIR 4 (.pseudo .label) 0 0 0 0 0 0 with offset := 6 }]

/-- `retryMethod` after its first pass: the code of the branch encoded
    before the retry was asked for. -/
def retryMethodRetried : Mir2Lir :=
  { assignOffsets retryMethod with
    lirs := retryMethodExpanded, code_buffer := (retryMethodExpanded.take 2).flatMap LIR.emitted, next_addr := 6 }

/-- The LIRs of `retryMethod` as its second pass leaves them, laid out again
    with the `cmp` and the new branch in place of the `cbz`. -/
def retryMethodDone : List LIR :=
  [{ rawLIR 1 (.pseudo .label) 0 0 0 0 0 0 with offset := 0 },
    { rawLIR 2 (.arm .kThumb2BCond) 0 kArmCondEq 0 0 0 4 with offset := 0, operands := [2, kArmCondEq, 0, 0, 0] },
    setupResourceMasks { rawLIR 3 (.arm .kThumb2Cbz) 0 0 0 0 0 1 with
      offset := 4, opcode := .arm .kThumbCmpRI8, target := 0 },
    { rawLIR 5 (.arm .kThumbBCond) 0 kArmCondEq 0 0 0 1 with offset := 6, operands := [-5, kArmCondEq, 0, 0, 0] },
    { rawLIR 4 (.pseudo .label) 0 0 0 0 0 0 with offset := 8 }]

/-- `retryMethod` as `AssembleLIR` returns it. -/
def retryMethodOut : Mir2Lir :=
  { assignOffsets retryMethodRetried with
    lirs := retryMethodDone, code_buffer := retryMethodDone.flatMap LIR.emitted }

theorem assignOffsets_retryMethod_lirs :
    (assignOffsets retryMethod).lirs =
      [{ rawLIR 1 (.pseudo .label) 0 0 0 0 0 0 with offset := 0 },
        { rawLIR 2 (.arm .kThumb2BCond) 0 kArmCondEq 0 0 0 4 with offset := 0 },
        { rawLIR 3 (.arm .kThumb2Cbz) 0 0 0 0 0 1 with offset := 4 },
        { rawLIR 4 (.pseudo .label) 0 0 0 0 0 0 with offset := 6 }] := rfl

/-- The first pass over `retryMethod`: the 32-bit branch is encoded, the
    `cbz` 8 bytes behind its label is expanded, and from there on nothing
    more is encoded. -/
theorem assembleLoop_retryMethod :
    assembleLoop (assignOffsets retryMethod) 0 ⟨[], .kSuccess, [], 5⟩ (assignOffsets retryMethod).lirs =
      some ⟨retryMethodExpanded.reverse, .kRetryAll, (retryMethodExpanded.take 2).flatMap LIR.emitted, 6⟩ := by
  rw [assignOffsets_retryMethod_lirs, assembleLoop_label _ _ _ rfl, assembleLoop_keep _ _ _ rfl rfl rfl rfl,
    assembleLoop_expand _ _ _ rfl rfl rfl, List.singleton_append,
    assembleLoop_keep_of_retry _ _ _ rfl rfl rfl rfl, assembleLoop_label _ _ _ rfl, assembleLoop_nil]
  rfl

theorem assignOffsets_retryMethodRetried_lirs :
    ({ assignOffsets retryMethodRetried with code_buffer := [] } : Mir2Lir).lirs =
      [{ rawLIR 1 (.pseudo .label) 0 0 0 0 0 0 with offset := 0 },
        { rawLIR 2 (.arm .kThumb2BCond) 0 kArmCondEq 0 0 0 4 with offset := 0, operands := [1, kArmCondEq, 0, 0, 0] },
        setupResourceMasks { rawLIR 3 (.arm .kThumb2Cbz) 0 0 0 0 0 1 with
          offset := 4, opcode := .arm .kThumbCmpRI8, target := 0 },
        { rawLIR 5 (.arm .kThumbBCond) 0 kArmCondEq 0 0 0 1 with offset := 6, operands := [-2, kArmCondEq, 0, 0, 0] },
        { rawLIR 4 (.pseudo .label) 0 0 0 0 0 0 with offset := 8 }] := rfl

/-- The second pass over `retryMethod`: every branch is in range. -/
theorem assembleLoop_retryMethodRetried :
    assembleLoop ({ assignOffsets retryMethodRetried with code_buffer := [] } : Mir2Lir) 0 ⟨[], .kSuccess, [], 6⟩
        ({ assignOffsets retryMethodRetried with code_buffer := [] } : Mir2Lir).lirs =
      some ⟨retryMethodDone.reverse, .kSuccess, retryMethodDone.flatMap LIR.emitted, 6⟩ := by
  rw [assignOffsets_retryMethodRetried_lirs, assembleLoop_label _ _ _ rfl, assembleLoop_keep _ _ _ rfl rfl rfl rfl,
    assembleLoop_keep _ _ _ rfl rfl rfl rfl, assembleLoop_keep _ _ _ rfl rfl rfl rfl,
    assembleLoop_label _ _ _ rfl, assembleLoop_nil]
  rfl

/-- The first pass over `retryMethod` asks for a retry. -/
theorem assembleInstructions_retryMethod :
    assembleInstructions 0 (assignOffsets retryMethod) = some (.kRetryAll, retryMethodRetried) := by
  unfold assembleInstructions
  rw [show (assignOffsets retryMethod).code_buffer = [] from rfl,
    show (assignOffsets retryMethod).next_addr = 5 from rfl, assembleLoop_retryMethod]
  rfl

/-- `AssembleLIR` assembles `retryMethod` in two passes. -/
theorem assembleLIR_retryMethod : assembleLIR retryMethod = some retryMethodOut := by
  have hsecond : assembleInstructions 0 ({ assignOffsets retryMethodRetried with code_buffer := [] } : Mir2Lir) =
      some (.kSuccess, retryMethodOut) := by
    unfold assembleInstructions
    rw [show ({ assignOffsets retryMethodRetried with code_buffer := [] } : Mir2Lir).code_buffer = [] from rfl,
      show ({ assignOffsets retryMethodRetried with code_buffer := [] } : Mir2Lir).next_addr = 6 from rfl,
      assembleLoop_retryMethodRetried]
    rfl
  rw [assembleLIR, assembleLIRLoop, assembleInstructions_retryMethod]
  simp only [if_neg (show ¬ 0 + 1 > MAX_ASSEMBLER_RETRIES by decide)]
  rw [assembleLIRLoop, hsecond]

theorem retryMethod_wellFormed : ∀ lir ∈ retryMethod.lirs, lir.WellFormed := by
  intro lir hlir
  simp only [retryMethod, List.mem_cons, List.not_mem_nil, or_false] at hlir
  rcases hlir with rfl | rfl | rfl | rfl
  all_goals first
    | exact LIR.WellFormed.rawLIR (by decide) (by decide) (by decide) _ _ _ _ _ _
    | exact ⟨rfl, fun op hop => by cases hop⟩

/-- Induction along a pass, one case per kind of LIR at the front: the loop's
    own induction principle with the alignment's bytes as `emitted` and the
    step of an instruction as `assembleLoop_arm` states it. -/
theorem assembleLoop_induction (m : Mir2Lir) (start_addr : Nat) {motive : Pass → List LIR → Prop}
    (nil : ∀ p, motive p [])
    (pseudo : ∀ p lir rest q, lir.opcode = .pseudo q →
      motive { p with done := lir :: p.done, code_buffer := p.code_buffer ++ lir.emitted } rest →
      motive p (lir :: rest))
    (nop : ∀ p lir rest op, lir.opcode = .arm op → lir.is_nop = true →
      motive { p with done := lir :: p.done } rest → motive p (lir :: rest))
    (fatal : ∀ p lir rest op, lir.opcode = .arm op → lir.is_nop = false →
      m.fixupOf start_addr p.next_addr op lir = none → motive p (lir :: rest))
    (arm : ∀ p lir rest op fx, lir.opcode = .arm op → lir.is_nop = false →
      m.fixupOf start_addr p.next_addr op lir = some fx →
      motive ⟨fx.lir :: fx.before.reverse ++ p.done, if fx.retry then .kRetryAll else p.res,
          if (if fx.retry then AssemblerStatus.kRetryAll else p.res) ≠ .kSuccess then p.code_buffer
          else p.code_buffer ++ fx.lir.bytes, fx.next_addr⟩
        (fx.after ++ setFirstOperand rest fx.next_operand0) →
      motive p (lir :: rest)) :
    ∀ p lirs, motive p lirs := by
  intro p lirs
  induction p, lirs using assembleLoop.induct m start_addr with
  | case1 p => exact nil p
  | case2 p lir rest q hq cb =>
    rename_i ih
    have hcb : cb = p.code_buffer ++ lir.emitted := by
      simp only [cb, dite_eq_ite]
      exact code_buffer_pseudo p hq
    rw [hcb] at ih
    exact pseudo p lir rest q hq ih
  | case3 p lir rest op hop hnop ih => exact nop p lir rest op hop hnop ih
  | case4 p lir rest op hop hnop hfx => exact fatal p lir rest op hop (by simpa using hnop) hfx
  | case5 p lir rest op hop hnop fx hfx res cb todo =>
    rename_i ih
    exact arm p lir rest op fx hop (by simpa using hnop) hfx ih

/-- A pass keeps every LIR well formed: those it visits, those the fixups
    insert before and after them, and those it has not reached. -/
theorem assembleLoop_wellFormed {m : Mir2Lir} {start_addr : Nat} {p : Pass} {lirs : List LIR}
    {p' : Pass} (h : assembleLoop m start_addr p lirs = some p') (hlirs : ∀ x ∈ lirs, x.WellFormed)
    (hdone : ∀ x ∈ p.done, x.WellFormed) : ∀ x ∈ p'.done, x.WellFormed := by
  induction p, lirs using assembleLoop_induction m start_addr with
  | nil p =>
    rw [assembleLoop_nil, Option.some.injEq] at h
    rw [← h]
    exact hdone
  | pseudo p lir rest q hq ih =>
    rw [assembleLoop_pseudo m start_addr p hq] at h
    refine ih h (fun x hx => hlirs x (List.mem_cons_of_mem _ hx)) ?_
    intro x hx
    rcases List.mem_cons.mp hx with rfl | hx
    · exact hlirs x List.mem_cons_self
    · exact hdone x hx
  | nop p lir rest op hop hnop ih =>
    rw [assembleLoop_nop m start_addr p hop hnop] at h
    refine ih h (fun x hx => hlirs x (List.mem_cons_of_mem _ hx)) ?_
    intro x hx
    rcases List.mem_cons.mp hx with rfl | hx
    · exact hlirs x List.mem_cons_self
    · exact hdone x hx
  | fatal p lir rest op hop hnop hfx =>
    rw [assembleLoop_fatal m start_addr p hop (by simp [hnop]) hfx] at h
    cases h
  | arm p lir rest op fx hop hnop hfx ih =>
    rw [assembleLoop_arm m start_addr p hop hnop hfx] at h
    have hspec := fixupOf_spec (hlirs lir List.mem_cons_self) hop hfx
    refine ih h ?_ ?_
    · -- what the fixup inserts after the instruction, then the rest
      intro x hx
      rcases List.mem_append.mp hx with hx | hx
      · exact hspec.wellFormed x (by simp [hx])
      · exact setFirstOperand_wellFormed (fun y hy => hlirs y (List.mem_cons_of_mem _ hy)) _ x hx
    · -- the instruction, what the fixup inserts before it, then the visited ones
      intro x hx
      rcases List.mem_cons.mp hx with hx | hx
      · exact hspec.wellFormed x (by simp [hx])
      rcases List.mem_append.mp hx with hx | hx
      · exact hspec.wellFormed x (by simp [List.mem_reverse.mp hx])
      · exact hdone x hx

/-- A retry, once asked for, is the status the pass ends with. -/
theorem assembleLoop_retryAll {m : Mir2Lir} {start_addr : Nat} {p : Pass} {lirs : List LIR}
    {p' : Pass} (h : assembleLoop m start_addr p lirs = some p') (hres : p.res = .kRetryAll) :
    p'.res = .kRetryAll := by
  induction p, lirs using assembleLoop_induction m start_addr with
  | nil p =>
    rw [assembleLoop_nil, Option.some.injEq] at h
    rw [← h]
    exact hres
  | pseudo p lir rest q hq ih =>
    rw [assembleLoop_pseudo m start_addr p hq] at h
    exact ih h hres
  | nop p lir rest op hop hnop ih =>
    rw [assembleLoop_nop m start_addr p hop hnop] at h
    exact ih h hres
  | fatal p lir rest op hop hnop hfx =>
    rw [assembleLoop_fatal m start_addr p hop (by simp [hnop]) hfx] at h
    cases h
  | arm p lir rest op fx hop hnop hfx ih =>
    rw [assembleLoop_arm m start_addr p hop hnop hfx] at h
    refine ih h ?_
    dsimp only
    split <;> simp_all

/-- What a pass that asks for no retry makes of one LIR, visited while the
    arena's next address is `next_addr`: a pseudo LIR and a nop stay as they
    are, and an instruction becomes what its fixup returns, in place. -/
inductive Visit (m : Mir2Lir) (start_addr next_addr : Nat) : LIR → LIR → Prop
  | pseudo {x : LIR} {q : PseudoOpcode} : x.opcode = .pseudo q → Visit m start_addr next_addr x x
  | nop {x : LIR} {op : ArmOpcode} : x.opcode = .arm op → x.is_nop = true →
      Visit m start_addr next_addr x x
  | fixup {x : LIR} {op : ArmOpcode} {fx : Fixup} : x.opcode = .arm op → x.is_nop = false →
      m.fixupOf start_addr next_addr op x = some fx → fx.retry = false →
      Visit m start_addr next_addr x fx.lir

/-- A pass that ends with `kSuccess` ran with that status from its start,
    kept the arena's next address, and visited each LIR in place: what it
    has done is the visited LIRs, and what it appended their `emitted`
    bytes, in order. -/
theorem assembleLoop_success {m : Mir2Lir} {start_addr : Nat} {p : Pass} {lirs : List LIR}
    {p' : Pass} (h : assembleLoop m start_addr p lirs = some p') (hlirs : ∀ x ∈ lirs, x.WellFormed)
    (hres : p'.res = .kSuccess) :
    p.res = .kSuccess ∧ p'.next_addr = p.next_addr ∧
      ∃ out, List.Forall₂ (Visit m start_addr p.next_addr) lirs out ∧ p'.done = out.reverse ++ p.done ∧
        p'.code_buffer = p.code_buffer ++ out.flatMap LIR.emitted := by
  induction p, lirs using assembleLoop_induction m start_addr with
  | nil p =>
    rw [assembleLoop_nil, Option.some.injEq] at h
    subst h
    exact ⟨hres, rfl, [], List.Forall₂.nil, by simp, by simp⟩
  | pseudo p lir rest q hq ih =>
    rw [assembleLoop_pseudo m start_addr p hq] at h
    obtain ⟨hres0, hnext, out, hvisit, hdone, hcode⟩ :=
      ih h (fun x hx => hlirs x (List.mem_cons_of_mem _ hx))
    refine ⟨hres0, hnext, lir :: out, List.Forall₂.cons (Visit.pseudo hq) hvisit, ?_, ?_⟩
    · simp [hdone]
    · simp [hcode]
  | nop p lir rest op hop hnop ih =>
    rw [assembleLoop_nop m start_addr p hop hnop] at h
    obtain ⟨hres0, hnext, out, hvisit, hdone, hcode⟩ :=
      ih h (fun x hx => hlirs x (List.mem_cons_of_mem _ hx))
    refine ⟨hres0, hnext, lir :: out, List.Forall₂.cons (Visit.nop hop hnop) hvisit, ?_, ?_⟩
    · simp [hdone]
    · simp [hcode, LIR.emitted, hop, hnop]
  | fatal p lir rest op hop hnop hfx =>
    rw [assembleLoop_fatal m start_addr p hop (by simp [hnop]) hfx] at h
    cases h
  | arm p lir rest op fx hop hnop hfx ih =>
    rw [assembleLoop_arm m start_addr p hop hnop hfx] at h
    -- a retry would be the status at the end
    have hretry : fx.retry = false := by
      by_contra hretry
      have := assembleLoop_retryAll h (by simp [hretry])
      rw [hres] at this
      cases this
    obtain ⟨hbefore, hafter, hnext0, hnext_addr, hshape⟩ :=
      (fixupOf_spec (hlirs lir List.mem_cons_self) hop hfx).in_place hretry
    have ih := ih h (by simpa [hafter, hnext0] using fun x hx => hlirs x (List.mem_cons_of_mem _ hx))
    simp only [hretry, Bool.false_eq_true, if_false, hbefore, hafter, hnext0, hnext_addr,
      List.reverse_nil, List.nil_append, setFirstOperand_none] at ih
    obtain ⟨hres0, hnext, out, hvisit, hdone, hcode⟩ := ih
    -- the fixed-up instruction is no nop, so what it emits is its encoding
    have hemit : fx.lir.emitted = fx.lir.bytes := by
      obtain ⟨ops, hops⟩ := hshape
      simp [LIR.emitted, hops, hop, hnop]
    refine ⟨hres0, hnext, fx.lir :: out, List.Forall₂.cons (Visit.fixup hop hnop hfx hretry) hvisit, ?_, ?_⟩
    · simp [hdone]
    · simp [hcode, hres0, hemit]

/-! ### Runs of `AssembleLIR` -/

/-- The layout of instructions keeps them well formed: it sets their
    offsets, and the padding flag of an alignment. -/
theorem assignInsnOffsetsLoop_wellFormed {lirs : List LIR} (hwf : ∀ x ∈ lirs, x.WellFormed)
    (offset : Nat) : ∀ x ∈ (assignInsnOffsetsLoop lirs offset).1, x.WellFormed := by
  induction lirs generalizing offset with
  | nil => intro x hx; cases hx
  | cons lir rest ih =>
    have hlir := hwf lir List.mem_cons_self
    have hrest := ih (fun x hx => hwf x (List.mem_cons_of_mem _ hx))
    intro x hx
    simp only [assignInsnOffsetsLoop] at hx
    -- the LIR at the front, by its opcode
    split at hx
    all_goals (try split_ifs at hx) <;> rcases List.mem_cons.mp hx with rfl | hx
    all_goals first
      | exact hrest _ x hx
      | exact ⟨hlir.1, hlir.2⟩
      | exact ⟨by rw [List.length_set]; exact hlir.1, hlir.2⟩

theorem assignOffsets_wellFormed {m : Mir2Lir} (hwf : ∀ x ∈ m.lirs, x.WellFormed) :
    ∀ x ∈ (assignOffsets m).lirs, x.WellFormed :=
  assignInsnOffsetsLoop_wellFormed hwf 0

theorem assembleInstructions_wellFormed {start_addr : Nat} {m m' : Mir2Lir} {res : AssemblerStatus}
    (h : assembleInstructions start_addr m = some (res, m')) (hwf : ∀ x ∈ m.lirs, x.WellFormed) :
    ∀ x ∈ m'.lirs, x.WellFormed := by
  unfold assembleInstructions at h
  rcases Option.map_eq_some_iff.mp h with ⟨p, hp, hres⟩
  rw [Prod.mk.injEq] at hres
  rw [← hres.2]
  intro x hx
  exact assembleLoop_wellFormed hp hwf (by simp) x (List.mem_reverse.mp hx)

/-- A method as `AssembleLIR` hands it to a pass: laid out by `AssignOffsets`
    from one with an empty code buffer and well-formed LIRs. -/
def Mir2Lir.LaidOut (m : Mir2Lir) : Prop :=
  ∃ x : Mir2Lir, m = assignOffsets x ∧ x.code_buffer = [] ∧ ∀ lir ∈ x.lirs, lir.WellFormed

theorem Mir2Lir.LaidOut.code_buffer {m : Mir2Lir} (hm : m.LaidOut) : m.code_buffer = [] := by
  obtain ⟨x, rfl, hcode, -⟩ := hm
  exact hcode

theorem Mir2Lir.LaidOut.wellFormed {m : Mir2Lir} (hm : m.LaidOut) : ∀ lir ∈ m.lirs, lir.WellFormed := by
  obtain ⟨x, rfl, -, hwf⟩ := hm
  exact assignOffsets_wellFormed hwf

/-- The method a retried pass leaves is laid out again, with its code buffer
    cleared. -/
theorem Mir2Lir.LaidOut.retry {m m' : Mir2Lir} (hm : m.LaidOut)
    (h : assembleInstructions 0 m = some (.kRetryAll, m')) :
    ({ assignOffsets m' with code_buffer := [] } : Mir2Lir).LaidOut :=
  ⟨{ m' with code_buffer := [] }, rfl, rfl, fun lir hlir =>
    assembleInstructions_wellFormed h hm.wellFormed lir hlir⟩

/-- The retry loop of `AssembleLIR` ends, when it returns, with a pass that
    succeeds over a laid-out method. -/
theorem assembleLIRLoop_success {n : Nat} {m m' : Mir2Lir} (h : assembleLIRLoop n m = some m')
    (hm : m.LaidOut) : ∃ m0, m0.LaidOut ∧ assembleInstructions 0 m0 = some (.kSuccess, m') := by
  induction n, m using assembleLIRLoop.induct with
  | case1 n m hpass =>
    rw [assembleLIRLoop, hpass] at h
    cases h
  | case2 n m m1 hpass =>
    rw [assembleLIRLoop, hpass, Option.some.injEq] at h
    subst h
    exact ⟨m, hm, hpass⟩
  | case3 n m m1 hpass hmax =>
    rw [assembleLIRLoop, hpass] at h
    simp only [if_pos hmax] at h
    cases h
  | case4 n m m1 hpass hmax ih =>
    rw [assembleLIRLoop, hpass] at h
    simp only [if_neg hmax] at h
    exact ih h (hm.retry hpass)

/-- Every run of `AssembleLIR` on a method with an empty code buffer and
    well-formed LIRs returns what a successful pass made of a laid-out
    method. -/
theorem assembleLIR_success {m m' : Mir2Lir} (h : assembleLIR m = some m') (hcode : m.code_buffer = [])
    (hwf : ∀ lir ∈ m.lirs, lir.WellFormed) :
    ∃ m0, m0.LaidOut ∧ assembleInstructions 0 m0 = some (.kSuccess, m') :=
  assembleLIRLoop_success h ⟨m, rfl, hcode, hwf⟩

/-! ### The code and the layout -/

/-- The bytes the layout gives a LIR: an instruction its size unless it is a
    nop, an alignment the two bytes of padding it was found to need. -/
def LIR.advance (lir : LIR) : Nat :=
  match lir.opcode with
  | .arm _ => if lir.is_nop then 0 else lir.size
  | .pseudo .kPseudoPseudoAlign4 => if lir.operand 0 = 1 then 2 else 0
  | .pseudo .label => 0

/-- A well-formed LIR emits as many bytes as the layout gives it. -/
theorem LIR.WellFormed.length_emitted {lir : LIR} (hwf : lir.WellFormed) :
    lir.emitted.length = lir.advance := by
  cases hop : lir.opcode with
  | pseudo q =>
    cases q <;> simp only [LIR.emitted, LIR.advance, hop] <;> split_ifs <;> simp_all
  | arm op =>
    rcases hwf.2 op hop with ⟨hsize, hsize24, -⟩
    simp only [LIR.emitted, LIR.advance, hop]
    split_ifs
    · rfl
    · -- the encoding's bytes: two halfwords, or one
      simp only [LIR.bytes, LIR.encoder, hop, instructionBytes, List.length_append, List.length_cons,
        List.length_nil, hsize]
      rcases hsize24 with h | h <;> simp [h]

/-- The layout of one LIR: its offset set, and the next LIR placed where the
    bytes the layout gives it end. -/
theorem assignInsnOffsetsLoop_cons {lir : LIR} (hwf : lir.WellFormed) (rest : List LIR) (offset : Nat) :
    ∃ lir', lir'.offset = offset ∧
      assignInsnOffsetsLoop (lir :: rest) offset =
        (lir' :: (assignInsnOffsetsLoop rest (offset + lir'.advance)).1,
          (assignInsnOffsetsLoop rest (offset + lir'.advance)).2) := by
  have hne : lir.operands ≠ [] := List.ne_nil_of_length_pos (by rw [hwf.1]; decide)
  obtain ⟨o, os, hos⟩ := List.exists_cons_of_ne_nil hne
  simp only [assignInsnOffsetsLoop]
  split
  case h_1 op hop =>
    refine ⟨{ lir with offset }, rfl, ?_⟩
    split_ifs with hnop <;> simp [LIR.advance, hop, hnop]
  case h_2 hq =>
    -- the alignment records whether it pads in its first operand
    split_ifs with hpad
    · exact ⟨{ lir with offset, operands := lir.operands.set 0 1 }, rfl, by
        simp [LIR.advance, LIR.operand, hq, hos]⟩
    · exact ⟨{ lir with offset, operands := lir.operands.set 0 0 }, rfl, by
        simp [LIR.advance, LIR.operand, hq, hos]⟩
  case h_3 hq =>
    exact ⟨{ lir with offset }, rfl, by simp [LIR.advance, hq]⟩

/-- The layout lays the LIRs end to end, and ends where the last one does. -/
theorem assignInsnOffsetsLoop_abutting {lirs : List LIR} (hwf : ∀ x ∈ lirs, x.WellFormed) (offset : Nat) :
    Layout.Abutting LIR.advance LIR.offset (assignInsnOffsetsLoop lirs offset).1 offset ∧
      (assignInsnOffsetsLoop lirs offset).2 = offset + ((assignInsnOffsetsLoop lirs offset).1.map LIR.advance).sum := by
  induction lirs generalizing offset with
  | nil => simp [assignInsnOffsetsLoop]
  | cons lir rest ih =>
    obtain ⟨lir', hoff, heq⟩ := assignInsnOffsetsLoop_cons (hwf lir List.mem_cons_self) rest offset
    obtain ⟨habut, hend⟩ := ih (fun x hx => hwf x (List.mem_cons_of_mem _ hx)) (offset + lir'.advance)
    rw [heq]
    refine ⟨⟨hoff, habut⟩, ?_⟩
    rw [hend, List.map_cons, List.sum_cons]
    omega

/-- A visit changes a LIR in its operands only. -/
theorem Visit.sameShape {m : Mir2Lir} {start_addr next_addr : Nat} {x y : LIR} (hwf : x.WellFormed)
    (h : Visit m start_addr next_addr x y) : x.SameShape y := by
  cases h with
  | pseudo _ => exact LIR.SameShape.refl x
  | nop _ _ => exact LIR.SameShape.refl x
  | fixup hop _ hfx hretry => exact ((fixupOf_spec hwf hop hfx).in_place hretry).2.2.2.2

/-- A visit keeps every LIR where it was, with the bytes the layout gave
    it. -/
theorem Visit.preserves {m : Mir2Lir} {start_addr next_addr : Nat} {x y : LIR} (hwf : x.WellFormed)
    (h : Visit m start_addr next_addr x y) :
    y.addr = x.addr ∧ y.offset = x.offset ∧ y.advance = x.advance := by
  obtain ⟨ops, hops⟩ := h.sameShape hwf
  refine ⟨by rw [hops], by rw [hops], ?_⟩
  cases h with
  | pseudo _ => rfl
  | nop _ _ => rfl
  | fixup hop _ _ _ =>
    -- an instruction's advance reads neither its operands nor its offset
    simp only [hops, LIR.advance, hop]

theorem Visit.forall₂_preserves {m : Mir2Lir} {start_addr next_addr : Nat} {xs ys : List LIR}
    (hwf : ∀ x ∈ xs, x.WellFormed) (h : List.Forall₂ (Visit m start_addr next_addr) xs ys) :
    List.Forall₂ (fun x y => y.addr = x.addr ∧ y.offset = x.offset ∧ y.advance = x.advance) xs ys := by
  induction h with
  | nil => exact List.Forall₂.nil
  | cons hxy _ ih =>
    exact List.Forall₂.cons (hxy.preserves (hwf _ List.mem_cons_self))
      (ih fun x hx => hwf x (List.mem_cons_of_mem _ hx))

/-- Lookups by address read the same offsets in LIRs the pass kept in place. -/
theorem offsetOf_forall₂ {xs ys : List LIR}
    (h : List.Forall₂ (fun x y => y.addr = x.addr ∧ y.offset = x.offset) xs ys) (rest : List LIR)
    (addr : Nat) : offsetOf (ys ++ rest) addr = offsetOf (xs ++ rest) addr := by
  induction h with
  | nil => rfl
  | cons hxy _ ih =>
    obtain ⟨haddr, hoff⟩ := hxy
    simp only [offsetOf, List.cons_append, List.find?_cons, haddr] at ih ⊢
    split <;> simp_all

/-- A pass of `AssembleInstructions` that succeeds visits each LIR in place,
    appends what each emits, and changes nothing else of the method. -/
theorem assembleInstructions_success {start_addr : Nat} {m m' : Mir2Lir}
    (h : assembleInstructions start_addr m = some (.kSuccess, m')) (hwf : ∀ x ∈ m.lirs, x.WellFormed) :
    List.Forall₂ (Visit m start_addr m.next_addr) m.lirs m'.lirs ∧
      m'.code_buffer = m.code_buffer ++ m'.lirs.flatMap LIR.emitted ∧
      m' = { m with lirs := m'.lirs, code_buffer := m'.code_buffer } := by
  unfold assembleInstructions at h
  rcases Option.map_eq_some_iff.mp h with ⟨p, hp, hres⟩
  rw [Prod.mk.injEq] at hres
  obtain ⟨hres, rfl⟩ := hres
  obtain ⟨-, hnext, out, hvisit, hdone, hcode⟩ := assembleLoop_success hp hwf hres
  simp only [List.append_nil] at hdone
  simp only at hnext
  rw [hdone, List.reverse_reverse]
  exact ⟨hvisit, hcode, by rw [hnext]⟩

/-- The code of a successful pass over a laid-out method agrees with the
    layout: every LIR's bytes stand at its offset, and the code ends where
    the layout's last instruction does. -/
theorem assembleInstructions_code {m m' : Mir2Lir} (hm : m.LaidOut)
    (h : assembleInstructions 0 m = some (.kSuccess, m')) :
    Layout.Abutting LIR.advance LIR.offset m'.lirs 0 ∧
      (∀ lir ∈ m'.lirs, lir.emitted <+: m'.code_buffer.drop lir.offset) ∧
      m'.code_buffer.length = (m'.lirs.map LIR.advance).sum := by
  obtain ⟨hvisit, hcode, -⟩ := assembleInstructions_success h hm.wellFormed
  have hkeep := Visit.forall₂_preserves hm.wellFormed hvisit
  have hlen : ∀ lir ∈ m'.lirs, lir.emitted.length = lir.advance := fun lir hlir =>
    (assembleInstructions_wellFormed h hm.wellFormed lir hlir).length_emitted
  obtain ⟨x, rfl, hx0, hxwf⟩ := hm
  -- the pass's output lies where the layout put its input
  have habut : Layout.Abutting LIR.advance LIR.offset m'.lirs 0 :=
    Layout.Abutting.of_forall₂ (hkeep.imp fun _ _ h => ⟨h.2.1, h.2.2⟩)
      (assignInsnOffsetsLoop_abutting hxwf 0).1
  have hx : (assignOffsets x).code_buffer = [] := hx0
  rw [hx, List.nil_append] at hcode
  refine ⟨habut, ?_, ?_⟩
  · intro lir hlir
    rw [hcode, ← Nat.sub_zero lir.offset]
    exact habut.prefix_drop LIR.emitted hlen lir hlir
  · rw [hcode, List.length_flatMap]
    exact congrArg List.sum (List.map_congr_left hlen)

theorem assignOffsets_lirs (m : Mir2Lir) : (assignOffsets m).lirs = (assignInsnOffsetsLoop m.lirs 0).1 := rfl

/-- The literals start at the first word past the instructions. -/
theorem assignOffsets_data_offset (m : Mir2Lir) :
    (assignOffsets m).data_offset = ((assignInsnOffsetsLoop m.lirs 0).2 + 3) / 4 * 4 := rfl

/-- The code `AssembleLIR` returns agrees with the layout it was assembled
    for: every LIR's bytes stand at its offset, and the code ends where the
    layout's instructions end, the literals starting at the next word. -/
theorem assembleLIR_code {m m' : Mir2Lir} (h : assembleLIR m = some m') (hcode : m.code_buffer = [])
    (hwf : ∀ lir ∈ m.lirs, lir.WellFormed) :
    (∀ lir ∈ m'.lirs, lir.emitted <+: m'.code_buffer.drop lir.offset) ∧
      m'.data_offset = (m'.code_buffer.length + 3) / 4 * 4 := by
  obtain ⟨m0, hm0, hpass⟩ := assembleLIR_success h hcode hwf
  obtain ⟨-, hat, hlen⟩ := assembleInstructions_code hm0 hpass
  obtain ⟨hvisit, -, hrest⟩ := assembleInstructions_success hpass hm0.wellFormed
  have hkeep := Visit.forall₂_preserves hm0.wellFormed hvisit
  refine ⟨hat, ?_⟩
  have hdata : m'.data_offset = m0.data_offset := by rw [hrest]
  obtain ⟨x, rfl, -, hxwf⟩ := hm0
  -- the layout's end is the sum of what it gave each LIR, which the pass kept
  have hend := (assignInsnOffsetsLoop_abutting hxwf 0).2
  have hsum : ((assignOffsets x).lirs.map LIR.advance).sum = (m'.lirs.map LIR.advance).sum := by
    have hmap : (assignOffsets x).lirs.map LIR.advance = m'.lirs.map LIR.advance := by
      rw [← List.forall₂_eq_eq_eq, List.forall₂_map_left_iff, List.forall₂_map_right_iff]
      exact hkeep.imp fun _ _ h => h.2.2.symm
    rw [hmap]
  rw [hdata, assignOffsets_data_offset, hend, ← assignOffsets_lirs, hsum, hlen, Nat.zero_add]

theorem exists_mem_of_forall₂ {α β : Type} {R : α → β → Prop} {xs : List α} {ys : List β}
    (h : List.Forall₂ R xs ys) {y : β} (hy : y ∈ ys) : ∃ x ∈ xs, R x y := by
  induction h with
  | nil => cases hy
  | cons hxy _ ih =>
    rcases List.mem_cons.mp hy with rfl | hy
    · exact ⟨_, List.mem_cons_self, hxy⟩
    · obtain ⟨x, hx, hxy'⟩ := ih hy
      exact ⟨x, List.mem_cons_of_mem _ hx, hxy'⟩

/-- Every LIR of the code `AssembleLIR` returns is what its last pass made of
    a LIR of a laid-out method, and a lookup by address reads the same offset
    in both. -/
theorem assembleLIR_visit {m m' : Mir2Lir} (h : assembleLIR m = some m') (hcode : m.code_buffer = [])
    (hwf : ∀ lir ∈ m.lirs, lir.WellFormed) {y : LIR} (hy : y ∈ m'.lirs) :
    ∃ m0 x, m0.LaidOut ∧ x ∈ m0.lirs ∧ Visit m0 0 m0.next_addr x y ∧
      ∀ addr, offsetOf (m'.lirs ++ m'.literals) addr = offsetOf (m0.lirs ++ m0.literals) addr := by
  obtain ⟨m0, hm0, hpass⟩ := assembleLIR_success h hcode hwf
  obtain ⟨hvisit, -, hrest⟩ := assembleInstructions_success hpass hm0.wellFormed
  obtain ⟨x, hx, hxy⟩ := exists_mem_of_forall₂ hvisit hy
  refine ⟨m0, x, hm0, hx, hxy, fun addr => ?_⟩
  have hkeep := Visit.forall₂_preserves hm0.wellFormed hvisit
  have hlit : m'.literals = m0.literals := by rw [hrest]; rfl
  rw [hlit]
  exact offsetOf_forall₂ (hkeep.imp fun _ _ h => ⟨h.1, h.2.1⟩) _ addr

/-! ### Alignment -/

/-- The layout gives a well-formed LIR an even number of bytes. -/
theorem LIR.WellFormed.two_dvd_advance {lir : LIR} (hwf : lir.WellFormed) : 2 ∣ lir.advance := by
  cases hop : lir.opcode with
  | pseudo q =>
    cases q <;> simp only [LIR.advance, hop] <;> (try split_ifs) <;> decide
  | arm op =>
    rcases hwf.2 op hop with ⟨hsize, hsize24, -⟩
    simp only [LIR.advance, hop]
    split_ifs
    · decide
    · rw [hsize]
      omega

/-- The literals of a pool take a word each, one after another. -/
theorem assignLiteralOffsetCommon_abutting (lirs : List LIR) (offset : Nat) :
    Layout.Abutting (fun _ => 4) LIR.offset (assignLiteralOffsetCommon lirs offset).1 offset ∧
      (assignLiteralOffsetCommon lirs offset).2 = offset + 4 * lirs.length := by
  induction lirs generalizing offset with
  | nil => simp [assignLiteralOffsetCommon]
  | cons lir rest ih =>
    obtain ⟨habut, hend⟩ := ih (offset + 4)
    simp only [assignLiteralOffsetCommon]
    refine ⟨⟨rfl, habut⟩, ?_⟩
    rw [hend, List.length_cons]
    omega

theorem assignOffsets_literal_list (m : Mir2Lir) :
    (assignOffsets m).literal_list =
      (assignLiteralOffsetCommon m.literal_list (assignOffsets m).data_offset).1 := rfl

theorem assignOffsets_code_literal_list (m : Mir2Lir) :
    (assignOffsets m).code_literal_list =
      (assignLiteralOffsetCommon m.code_literal_list
        (assignLiteralOffsetCommon m.literal_list (assignOffsets m).data_offset).2).1 := rfl

theorem assignOffsets_method_literal_list (m : Mir2Lir) :
    (assignOffsets m).method_literal_list =
      (assignLiteralOffsetCommon m.method_literal_list
        (assignLiteralOffsetCommon m.code_literal_list
          (assignLiteralOffsetCommon m.literal_list (assignOffsets m).data_offset).2).2).1 := rfl

/-- Every literal the layout places lies on a word. -/
theorem assignOffsets_literals_aligned (m : Mir2Lir) : ∀ lit ∈ (assignOffsets m).literals, 4 ∣ lit.offset := by
  have hdata : 4 ∣ (assignOffsets m).data_offset := by
    rw [assignOffsets_data_offset]
    exact Nat.dvd_mul_left 4 _
  -- each pool starts where the one before it ends, a whole number of words on
  have hpool (lirs : List LIR) {offset : Nat} (hoff : 4 ∣ offset) :
      (∀ lit ∈ (assignLiteralOffsetCommon lirs offset).1, 4 ∣ lit.offset) ∧
        4 ∣ (assignLiteralOffsetCommon lirs offset).2 := by
    obtain ⟨habut, hend⟩ := assignLiteralOffsetCommon_abutting lirs offset
    exact ⟨habut.dvd_off hoff (fun _ _ => Nat.dvd_refl 4),
      by rw [hend]; exact Nat.dvd_add hoff (Nat.dvd_mul_right 4 _)⟩
  obtain ⟨h1, h1end⟩ := hpool m.literal_list hdata
  obtain ⟨h2, h2end⟩ := hpool m.code_literal_list h1end
  obtain ⟨h3, -⟩ := hpool m.method_literal_list h2end
  intro lit hlit
  simp only [Mir2Lir.literals, List.mem_append] at hlit
  rcases hlit with (hlit | hlit) | hlit
  · exact h1 lit (by rwa [← assignOffsets_literal_list])
  · exact h2 lit (by rwa [← assignOffsets_code_literal_list])
  · exact h3 lit (by rwa [← assignOffsets_method_literal_list])

theorem dvd_offsetOf {d : Nat} {lirs : List LIR} (h : ∀ lir ∈ lirs, d ∣ lir.offset) (addr : Nat) :
    d ∣ offsetOf lirs addr := by
  unfold offsetOf
  cases hfind : lirs.find? (fun lir => lir.addr == addr) with
  | none => exact Nat.dvd_zero d
  | some lir => exact h lir (List.mem_of_find?_eq_some hfind)

/-- In the code `AssembleLIR` returns, every LIR and every literal lies on a
    halfword, so the distance between two of them is even. -/
theorem assembleLIR_even {m m' : Mir2Lir} (h : assembleLIR m = some m') (hcode : m.code_buffer = [])
    (hwf : ∀ lir ∈ m.lirs, lir.WellFormed) :
    (∀ lir ∈ m'.lirs, 2 ∣ lir.offset) ∧ ∀ addr, 2 ∣ offsetOf (m'.lirs ++ m'.literals) addr := by
  obtain ⟨m0, hm0, hpass⟩ := assembleLIR_success h hcode hwf
  obtain ⟨habut, -, -⟩ := assembleInstructions_code hm0 hpass
  obtain ⟨-, -, hrest⟩ := assembleInstructions_success hpass hm0.wellFormed
  have hwf' := assembleInstructions_wellFormed hpass hm0.wellFormed
  have hlirs : ∀ lir ∈ m'.lirs, 2 ∣ lir.offset :=
    habut.dvd_off (Nat.dvd_zero 2) (fun lir hlir => (hwf' lir hlir).two_dvd_advance)
  refine ⟨hlirs, dvd_offsetOf ?_⟩
  intro lir hlir
  rcases List.mem_append.mp hlir with hlir | hlit
  · exact hlirs lir hlir
  · -- the literals are those of the laid-out method, on words
    have hlit' : lir ∈ m0.literals := by rw [hrest] at hlit; exact hlit
    obtain ⟨x, rfl, -, -⟩ := hm0
    exact Nat.dvd_trans (by decide) (assignOffsets_literals_aligned x lir hlit')

/-! ### What `AssembleLIR` returns -/

/-- The LIRs of the code `AssembleLIR` returns are well formed: whatever the
    fixups of its retried passes inserted, rewrote or made nops, each LIR is
    as `SetupResourceMasks` leaves one. -/
theorem assembleLIR_wellFormed {m m' : Mir2Lir} (h : assembleLIR m = some m') (hcode : m.code_buffer = [])
    (hwf : ∀ lir ∈ m.lirs, lir.WellFormed) : ∀ lir ∈ m'.lirs, lir.WellFormed := by
  obtain ⟨m0, hm0, hpass⟩ := assembleLIR_success h hcode hwf
  exact assembleInstructions_wellFormed hpass hm0.wellFormed

theorem assembleLIR_wellFormed_retryMethod :
    (assembleInstructions 0 (assignOffsets retryMethod)).map Prod.fst = some .kRetryAll ∧
      assembleLIR retryMethod = some retryMethodOut ∧ retryMethod.code_buffer = [] ∧
      (∀ lir ∈ retryMethod.lirs, lir.WellFormed) ∧ ∀ lir ∈ retryMethodOut.lirs, lir.WellFormed :=
  ⟨by rw [assembleInstructions_retryMethod]; rfl, assembleLIR_retryMethod, rfl, retryMethod_wellFormed,
    assembleLIR_wellFormed assembleLIR_retryMethod rfl retryMethod_wellFormed⟩

/-- Every run of `AssembleLIR`, its retries included, returns what one pass
    that asks for no retry makes of the layout of a method with well-formed
    LIRs: each LIR visited in place, the code the bytes they emit, in order,
    and nothing else of the laid-out method changed. -/
theorem assembleLIR_onePass {m m' : Mir2Lir} (h : assembleLIR m = some m') (hcode : m.code_buffer = [])
    (hwf : ∀ lir ∈ m.lirs, lir.WellFormed) :
    ∃ x : Mir2Lir, (∀ lir ∈ x.lirs, lir.WellFormed) ∧
      List.Forall₂ (Visit (assignOffsets x) 0 (assignOffsets x).next_addr) (assignOffsets x).lirs m'.lirs ∧
      m'.code_buffer = m'.lirs.flatMap LIR.emitted ∧
      m' = { assignOffsets x with lirs := m'.lirs, code_buffer := m'.code_buffer } := by
  obtain ⟨m0, hm0, hpass⟩ := assembleLIR_success h hcode hwf
  obtain ⟨hvisit, hbuf, hrest⟩ := assembleInstructions_success hpass hm0.wellFormed
  rw [hm0.code_buffer, List.nil_append] at hbuf
  obtain ⟨x, rfl, -, hxwf⟩ := hm0
  exact ⟨x, hxwf, hvisit, hbuf, hrest⟩

theorem assembleLIR_onePass_retryMethod :
    (assembleInstructions 0 (assignOffsets retryMethod)).map Prod.fst = some .kRetryAll ∧
      assembleLIR retryMethod = some retryMethodOut ∧ retryMethod.code_buffer = [] ∧
      (∀ lir ∈ retryMethod.lirs, lir.WellFormed) ∧
      ∃ x : Mir2Lir, (∀ lir ∈ x.lirs, lir.WellFormed) ∧
        List.Forall₂ (Visit (assignOffsets x) 0 (assignOffsets x).next_addr) (assignOffsets x).lirs
          retryMethodOut.lirs ∧
        retryMethodOut.code_buffer = retryMethodOut.lirs.flatMap LIR.emitted ∧
        retryMethodOut =
          { assignOffsets x with lirs := retryMethodOut.lirs, code_buffer := retryMethodOut.code_buffer } :=
  ⟨by rw [assembleInstructions_retryMethod]; rfl, assembleLIR_retryMethod, rfl, retryMethod_wellFormed,
    assembleLIR_onePass assembleLIR_retryMethod rfl retryMethod_wellFormed⟩

/-- The code `AssembleLIR` returns agrees with its layout: the LIRs lie end
    to end from offset 0, each with its bytes at its offset, on a halfword;
    the code ends where the last of them does, and the literals start at the
    next word, each on a word. -/
theorem assembleLIR_layout {m m' : Mir2Lir} (h : assembleLIR m = some m') (hcode : m.code_buffer = [])
    (hwf : ∀ lir ∈ m.lirs, lir.WellFormed) :
    Layout.Abutting LIR.advance LIR.offset m'.lirs 0 ∧
      (∀ lir ∈ m'.lirs, lir.emitted <+: m'.code_buffer.drop lir.offset ∧ 2 ∣ lir.offset) ∧
      m'.code_buffer.length = (m'.lirs.map LIR.advance).sum ∧
      m'.data_offset = (m'.code_buffer.length + 3) / 4 * 4 ∧
      ∀ lit ∈ m'.literals, 4 ∣ lit.offset := by
  obtain ⟨m0, hm0, hpass⟩ := assembleLIR_success h hcode hwf
  obtain ⟨habut, -, hlen⟩ := assembleInstructions_code hm0 hpass
  obtain ⟨-, -, hrest⟩ := assembleInstructions_success hpass hm0.wellFormed
  obtain ⟨hat, hdata⟩ := assembleLIR_code h hcode hwf
  obtain ⟨heven, -⟩ := assembleLIR_even h hcode hwf
  refine ⟨habut, fun lir hlir => ⟨hat lir hlir, heven lir hlir⟩, hlen, hdata, ?_⟩
  -- the literals are those of the laid-out method, which `AssignOffsets` put on words
  have hlit : m'.literals = m0.literals := by rw [hrest]; rfl
  obtain ⟨x, rfl, -, -⟩ := hm0
  rw [hlit]
  exact assignOffsets_literals_aligned x

theorem assembleLIR_layout_branchMethod :
    assembleLIR branchMethod = some branchMethodOut ∧ branchMethod.code_buffer = [] ∧
      (∀ lir ∈ branchMethod.lirs, lir.WellFormed) ∧
      Layout.Abutting LIR.advance LIR.offset branchMethodOut.lirs 0 ∧
      (∀ lir ∈ branchMethodOut.lirs,
        lir.emitted <+: branchMethodOut.code_buffer.drop lir.offset ∧ 2 ∣ lir.offset) ∧
      branchMethodOut.code_buffer.length = (branchMethodOut.lirs.map LIR.advance).sum ∧
      branchMethodOut.data_offset = (branchMethodOut.code_buffer.length + 3) / 4 * 4 ∧
      ∀ lit ∈ branchMethodOut.literals, 4 ∣ lit.offset :=
  ⟨assembleLIR_branchMethod, rfl, branchMethod_wellFormed,
    assembleLIR_layout assembleLIR_branchMethod rfl branchMethod_wellFormed⟩

end Arm

end ArtRuntime
