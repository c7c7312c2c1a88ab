import ArtRuntime.Compiler.ArmBranch
import ArtRuntime.Compiler.ArmData

/-!
# The Literals of Assembled Thumb-2 Code, Loaded and Patched

A call to a method whose address is not known when the caller is compiled
goes through a literal: the code generator adds a code or a method literal
naming the callee, and a pc-relative `ldr` of it (`OpPcRelLoad`). Three
programs then have to agree on one offset. The fixup of the `ldr` turns the
distance from the load's word-aligned pc to the literal into the load's
immediate; `InstallLiteralPools` writes the callee's method id at the
literal's offset and records that offset as a patch; and the image writer's
`SetPatchLocation` later checks that the method id is still there and
overwrites it with the callee's address.

The load is read as the processor reads it (`ldrLiteralAddress`, from the
encoding T2 of LDR (literal)), and the patch step is modelled with its
debug check (`setPatchLocation`). Put together: in the code `AssembleLIR`
returns, every such load reads the literal it names, the literal holds the
method id the patch expects, so the image writer's check passes for every
patch of the method, and after the patches every load reads the address the
image writer wrote for its literal. The distance a load covers is never
negative because the data is laid out after the code, and no two patches
touch one byte because the literals abut.

## Main definitions

* `ldrLiteralAddress`: The address an LDR (literal) loads from.
* `setPatchLocation`, `patchAll`: ImageWriter::SetPatchLocation, and the
  loop of PatchOatCodeAndMethods over one method's patches.

## Theorems

* `ldrPcRel12_word`: What the processor reads of a pc-relative `ldr`.
* `Visit.ldrPcRel12`: The distance a pass leaves in a pc-relative `ldr`.
* `assembleLIR_ldrPcRel12`: Every pc-relative `ldr` of a code or method
  literal loads the literal's method id.
* `assembleLIR_patchOatCodeAndMethods`: The image writer's check passes for every patch of
  the method, and afterwards every such load reads its patched address.
-/

namespace ArtRuntime

namespace Arm

/-! ### The processor's reading of a literal load -/

/-- The address the encoding T2 of LDR (literal) loads from at `offset`:
    `Align(PC, 4)`, the pc being 4 past the instruction, plus `imm12` (bits
    11 to 0) if U (bit 23) is set, and less it if not. -/
def ldrLiteralAddress (w : UInt32) (offset : Nat) : Int :=
  let base : Int := ((offset + 4) / 4 * 4 : Nat)
  let imm12 : Int := (w.toNat % 2 ^ 12 : Nat)
  if w.toNat / 2 ^ 23 % 2 = 1 then base + imm12 else base - imm12

theorem toNat_encode_ldrPcRel12 (ops : List Int) :
    (encodeInstruction (encodingMap .kThumb2LdrPcRel12) ops).toNat =
      0xf8df0000 ||| (UInt32.ofInt (ops.getD 0 0)).toNat * 2 ^ 12 % 2 ^ 16 |||
        (UInt32.ofInt (ops.getD 1 0)).toNat % 2 ^ 12 := by
  rw [toNat_encodeInstruction]
  simp only [encodingMap, List.getD_cons_zero, List.getD_cons_succ]
  rw [toNat_encodeField_bitBlt (by decide) (by decide) (by decide),
    toNat_encodeField_bitBlt (by decide) (by decide) (by decide)]
  simp

/-- The word of a pc-relative `ldr` with an offset `k` of 12 bits: an LDR
    (literal) of the T2 form into the LIR's register, from `k` bytes past
    the word-aligned pc. -/
theorem ldrPcRel12_word {ops : List Int} (hk : 0 ≤ ops.getD 1 0 ∧ ops.getD 1 0 < 2 ^ 12) (offset : Nat) :
    let w := encodeInstruction (encodingMap .kThumb2LdrPcRel12) ops
    w.toNat / 2 ^ 16 = 0xf8df ∧ w.toNat / 2 ^ 12 % 2 ^ 4 = (ops.getD 0 0 % 2 ^ 4).toNat ∧
      ldrLiteralAddress w offset = ((offset + 4) / 4 * 4 : Nat) + ops.getD 1 0 := by
  intro w
  have hw : w.toNat < 2 ^ 32 := w.toNat_lt
  have hfields : w.toNat / 2 ^ 16 % 2 ^ 16 = 0xf8df ∧
      w.toNat / 2 ^ 12 % 2 ^ 4 = (UInt32.ofInt (ops.getD 0 0)).toNat % 2 ^ 4 ∧
      w.toNat / 2 ^ 0 % 2 ^ 12 = (UInt32.ofInt (ops.getD 1 0)).toNat % 2 ^ 12 := by
    simp only [w, toNat_encode_ldrPcRel12]
    simp (disch := omega) only [BitField.or_field, BitField.or_eq_left_of_eq_zero,
      BitField.or_eq_right_of_eq_zero]
    refine ⟨?_, ?_, ?_⟩ <;> omega
  obtain ⟨hform, hrt, himm⟩ := hfields
  have hk0 := MachineWord.toNat_ofInt (ops.getD 0 0)
  have hk1 := MachineWord.toNat_ofInt (ops.getD 1 0)
  refine ⟨by omega, by omega, ?_⟩
  -- U is set in the skeleton: the offset is added
  have hU : w.toNat / 2 ^ 23 % 2 = 1 := by omega
  unfold ldrLiteralAddress
  rw [if_pos hU]
  omega

/-! ### The loads a successful pass leaves -/

theorem fixup_ldrPcRel12 (lirs : List LIR) (tables : List DataTable) (start_addr : Nat)
    (disable_opt : UInt32) (next_addr : Nat) (lir : LIR) :
    fixup lirs tables start_addr disable_opt next_addr .kThumb2LdrPcRel12 lir =
      fixupPcRelLoad lirs next_addr .kThumb2LdrPcRel12 lir := by
  simp [fixup, IsPcRelLoad]

/-- A pc-relative `ldr` left by a successful pass: its offset is the
    distance from its word-aligned pc to its target, a multiple of 4 within
    the reach of the 12-bit form. -/
theorem Visit.ldrPcRel12 {m : Mir2Lir} {start_addr next_addr : Nat} {x y : LIR} (hwf : x.WellFormed)
    (hop : x.opcode = .arm .kThumb2LdrPcRel12) (hnop : x.is_nop = false)
    (h : Visit m start_addr next_addr x y) :
    let delta : Int := (offsetOf (m.lirs ++ m.literals) x.target : Int) - ((x.offset + 4) / 4 * 4 : Nat)
    y = { x with operands := x.operands.set 1 delta } ∧ delta % 4 = 0 ∧ delta ≤ 4091 := by
  intro delta
  cases h with
  | pseudo hq => rw [hop] at hq; cases hq
  | nop _ hn => rw [hnop] at hn; cases hn
  | fixup hop' _ hfx hretry =>
    rw [hop, LirOpcode.arm.injEq] at hop'
    subst hop'
    rw [fixupOf_of_needs_fixup hwf hop rfl, fixup_ldrPcRel12] at hfx
    unfold fixupPcRelLoad at hfx
    dsimp only at hfx
    -- a misaligned literal is fatal
    by_cases hmis : delta % 4 ≠ 0
    · rw [if_pos hmis] at hfx
      cases hfx
    rw [if_neg hmis, if_neg (by simp)] at hfx
    -- out of reach: an `adr` of the literal and a load from it, and a retry
    by_cases hfar : delta > 4091
    · rw [if_pos (Or.inl ⟨rfl, hfar⟩), Option.some.injEq] at hfx
      subst hfx
      cases hretry
    simp only [delta] at hfar
    rw [if_neg (by simp; omega), if_neg (by simp), if_pos rfl, Option.some.injEq] at hfx
    subst hfx
    exact ⟨rfl, by omega, by omega⟩

/-! ### The literal loads of the returned code -/

section Loads

variable (method_id : UInt32 → UInt32) (links : Nat → SwitchLinks) (driver : Patches) {m m' : Mir2Lir}

/-- Every literal of laid-out data lies past the code. -/
theorem Mir2Lir.DataLaidOut.code_le_literal {m : Mir2Lir} (hm : m.DataLaidOut) :
    ∀ lit ∈ m.literals, m.code_buffer.length ≤ lit.offset := by
  have hcode := hm.code
  intro lit hlit
  simp only [Mir2Lir.literals, List.mem_append] at hlit
  rcases hlit with (hlit | hlit) | hlit
  · have := hm.literal_list.le_off lit hlit
    omega
  · have := hm.code_literal_list.le_off lit hlit
    omega
  · have := hm.method_literal_list.le_off lit hlit
    omega

/-- The code literals of laid-out data end where its method literals start. -/
theorem Mir2Lir.DataLaidOut.code_literal_le_method_literal {m : Mir2Lir} (hm : m.DataLaidOut) :
    ∀ c ∈ m.code_literal_list, ∀ l ∈ m.method_literal_list, c.offset + 4 ≤ l.offset := by
  intro c hc l hl
  have hc_end := hm.code_literal_list.off_add_le c hc
  have hl_start := hm.method_literal_list.le_off l hl
  simp only [List.map_const', List.sum_replicate, smul_eq_mul] at hc_end
  omega

/-- What the load theorems share: a pc-relative `ldr` of the returned code
    whose target is a literal stands in the code, and its word, read as LDR
    (literal), loads from the literal's offset. -/
theorem assembleLIR_ldrPcRel12_word (h : assembleLIR m = some m') (hcode : m.code_buffer = [])
    (hwf : ∀ lir ∈ m.lirs, lir.WellFormed) {lir : LIR} (hlir : lir ∈ m'.lirs)
    (hop : lir.opcode = .arm .kThumb2LdrPcRel12) (hnop : lir.is_nop = false) {lit : LIR}
    (hlit : lit ∈ m'.literals) (htarget : offsetOf (m'.lirs ++ m'.literals) lir.target = lit.offset) :
    lir.bytes <+: m'.code_buffer.drop lir.offset ∧
      let w := encodeInstruction (encodingMap .kThumb2LdrPcRel12) lir.operands
      w.toNat / 2 ^ 16 = 0xf8df ∧ w.toNat / 2 ^ 12 % 2 ^ 4 = (lir.operand 0 % 2 ^ 4).toNat ∧
        ldrLiteralAddress w lir.offset = lit.offset := by
  obtain ⟨m0, x, hxwf, hxop, hxnop, hvisit, hxoff, -, hoff, hbytes, -⟩ :=
    assembleLIR_instruction h hcode hwf hlir hop hnop
  obtain ⟨hlir_eq, -, hreach⟩ := hvisit.ldrPcRel12 hxwf hxop hxnop
  rw [hoff, hxoff, htarget] at hlir_eq hreach
  -- the literal lies past the code, so past the load's pc: the distance is not negative
  have hlit_after := (assembleLIR_dataLaidOut h hcode hwf).code_le_literal lit hlit
  have hcode_end : lir.offset + 4 ≤ m'.code_buffer.length := by
    have hend := ByteList.add_length_le_of_prefix_drop hbytes (by simp [LIR.bytes_of_size_four hop rfl])
    rwa [LIR.bytes_of_size_four hop rfl] at hend
  -- the operand the fixup wrote: the distance from the word-aligned pc
  have hop1 : lir.operands.getD 1 0 = (lit.offset : Int) - ((lir.offset + 4) / 4 * 4 : Nat) := by
    conv_lhs => rw [hlir_eq]
    exact getD_set_self hxwf.1 (by decide) _
  obtain ⟨h1, h2, h3⟩ := ldrPcRel12_word
    (show 0 ≤ lir.operands.getD 1 0 ∧ lir.operands.getD 1 0 < 2 ^ 12 by rw [hop1]; omega) lir.offset
  refine ⟨hbytes, h1, h2, ?_⟩
  rw [h3, hop1]
  omega

/-- In the code `AssembleLIR` returns, once installed, every pc-relative
    `ldr` whose target is a code or a method literal loads that literal: the
    processor reads at the load's offset an LDR (literal) of the T2 form
    into the LIR's register, from the literal's offset, where the method id
    of the literal's method stands. -/
theorem assembleLIR_ldrPcRel12 (h : assembleLIR m = some m') (hcode : m.code_buffer = [])
    (hwf : ∀ lir ∈ m.lirs, lir.WellFormed) {lir : LIR} (hlir : lir ∈ m'.lirs)
    (hop : lir.opcode = .arm .kThumb2LdrPcRel12) (hnop : lir.is_nop = false) {lit : LIR}
    (hlit : lit ∈ m'.code_literal_list ++ m'.method_literal_list)
    (htarget : offsetOf (m'.lirs ++ m'.literals) lir.target = lit.offset) :
    let out := (installData method_id links m' driver).1
    let w := thumb2WordAt out lir.offset
    w.toNat / 2 ^ 16 = 0xf8df ∧ w.toNat / 2 ^ 12 % 2 ^ 4 = (lir.operand 0 % 2 ^ 4).toNat ∧
      ldrLiteralAddress w lir.offset = lit.offset ∧
      ByteList.readLE out lit.offset 4 = some (method_id (UInt32.ofInt (lit.operand 0))).toNat := by
  have hm := assembleLIR_dataLaidOut h hcode hwf
  have hlit' : lit ∈ m'.literals := by
    rw [Mir2Lir.literals, List.append_assoc]
    exact List.mem_append_right _ hlit
  obtain ⟨hbytes, h1, h2, h3⟩ := assembleLIR_ldrPcRel12_word h hcode hwf hlir hop hnop hlit' htarget
  have hword : thumb2WordAt (installData method_id links m' driver).1 lir.offset =
      encodeInstruction (encodingMap .kThumb2LdrPcRel12) lir.operands :=
    thumb2WordAt_eq (by
      rw [← LIR.bytes_of_size_four hop rfl]
      exact hbytes.trans ((installData_keeps_code method_id links driver hm).drop _))
  intro out w
  simp only [w, out, hword]
  exact ⟨h1, h2, h3, readLE_of_wordBytes ((installData_literal_words method_id links driver hm).2 lit hlit)⟩

/-- The load of `dataMethod` reads its code literal, at offset 8. -/
theorem assembleLIR_ldrPcRel12_dataMethod :
    assembleLIR dataMethod = some dataMethodOut ∧ dataMethod.code_buffer = [] ∧
      (∀ lir ∈ dataMethod.lirs, lir.WellFormed) ∧
      offsetOf (dataMethodOut.lirs ++ dataMethodOut.literals) 10 = 8 ∧
      ldrLiteralAddress (thumb2WordAt (installData dataMethodId dataLinks dataMethodOut ⟨[], []⟩).1 0) 0 = 8 := by
  have hload := assembleLIR_ldrPcRel12 dataMethodId dataLinks ⟨[], []⟩ assembleLIR_dataMethod rfl
    dataMethod_wellFormed List.mem_cons_self rfl rfl (List.mem_append_left _ List.mem_cons_self) rfl
  exact ⟨assembleLIR_dataMethod, rfl, dataMethod_wellFormed, rfl, hload.2.2.1⟩

end Loads

/-! ### Patching the literals -/

/-- ImageWriter::SetPatchLocation on the code of the method the patch was
    recorded for: the check of a debug build that the word at the literal's
    offset is the target's method id, or already `value` (a word past the
    code fails it), then `value` stored there. -/
def setPatchLocation (method_id : UInt32 → UInt32) (code : List UInt8) (patch : PatchInformation)
    (value : UInt32) : Option (List UInt8) :=
  let actual := ByteList.readLE code patch.literal_offset 4
  if actual = some (method_id patch.target_method_idx).toNat ∨ actual = some value.toNat then
    some (ByteList.writeBytes code patch.literal_offset (wordBytes value))
  else none

/-- The loop of PatchOatCodeAndMethods over a list of patches, `value` being
    the address the image writer computes for a patch's target. -/
def patchAll (method_id : UInt32 → UInt32) (value : PatchInformation → UInt32) (code : List UInt8) :
    List PatchInformation → Option (List UInt8)
  | [] => some code
  | patch :: rest =>
    (setPatchLocation method_id code patch (value patch)).bind fun code => patchAll method_id value code rest

/-- ImageWriter::PatchOatCodeAndMethods on the code of one method: its code
    patches, each given its target's code address, then its method patches,
    each given its target method's address. -/
def patchOatCodeAndMethods (method_id : UInt32 → UInt32) (code_value method_value : PatchInformation → UInt32)
    (code : List UInt8) (patches : Patches) : Option (List UInt8) :=
  (patchAll method_id code_value code patches.code_to_patch).bind fun code =>
    patchAll method_id method_value code patches.methods_to_patch

/-- Patches in order along the code, whose windows lie in it and each hold
    the target's method id: every check passes, every window then holds its
    value, and what no window meets is left as it was. -/
theorem patchAll_spec (method_id : UInt32 → UInt32) (value : PatchInformation → UInt32) :
    ∀ (patches : List PatchInformation) (code : List UInt8),
      (∀ p ∈ patches, wordBytes (method_id p.target_method_idx) <+: code.drop p.literal_offset) →
      patches.Pairwise (fun p p' => p.literal_offset + 4 ≤ p'.literal_offset) →
      ∃ patched, patchAll method_id value code patches = some patched ∧
        (∀ p ∈ patches, wordBytes (value p) <+: patched.drop p.literal_offset) ∧
        ∀ (xs : List UInt8) (q : Nat), xs <+: code.drop q →
          (∀ p ∈ patches, p.literal_offset + 4 ≤ q ∨ q + xs.length ≤ p.literal_offset) →
            xs <+: patched.drop q := by
  intro patches
  induction patches with
  | nil =>
    intro code _ _
    refine ⟨code, rfl, ?_, fun xs q hx _ => hx⟩
    intro p hp
    cases hp
  | cons p rest ih =>
    intro code hwords hpair
    obtain ⟨hbefore, hrest_pair⟩ := List.pairwise_cons.mp hpair
    have hp := hwords p List.mem_cons_self
    have hfit : p.literal_offset + (wordBytes (value p)).length ≤ code.length := by
      have hlen := hp.length_le
      rw [length_wordBytes, List.length_drop] at hlen
      rw [length_wordBytes]
      omega
    -- the check passes: the window holds the method id the patch expects
    have hset : setPatchLocation method_id code p (value p) =
        some (ByteList.writeBytes code p.literal_offset (wordBytes (value p))) := by
      rw [setPatchLocation, if_pos (Or.inl (readLE_of_wordBytes hp))]
    -- the later windows lie past this one, and keep their method ids
    have hwords' : ∀ p' ∈ rest, wordBytes (method_id p'.target_method_idx) <+:
        (ByteList.writeBytes code p.literal_offset (wordBytes (value p))).drop p'.literal_offset :=
      fun p' hp' => ByteList.prefix_drop_writeBytes_of_disjoint hfit (hwords p' (List.mem_cons_of_mem _ hp'))
        (Or.inl (by rw [length_wordBytes]; exact hbefore p' hp'))
    obtain ⟨patched, hpatched, hvalues, hframe⟩ := ih _ hwords' hrest_pair
    refine ⟨patched, by rw [patchAll, hset, Option.bind_some, hpatched], ?_, ?_⟩
    · intro p' hp'
      rcases List.mem_cons.mp hp' with rfl | hp'
      · exact hframe _ _ (ByteList.prefix_drop_writeBytes_self hfit)
          (fun p'' hp'' => Or.inr (by rw [length_wordBytes]; exact hbefore p'' hp''))
      · exact hvalues p' hp'
    · intro xs q hx hdisj
      refine hframe xs q (ByteList.prefix_drop_writeBytes_of_disjoint hfit hx ?_)
        (fun p' hp' => hdisj p' (List.mem_cons_of_mem _ hp'))
      rw [length_wordBytes]
      exact hdisj p List.mem_cons_self

/-- The patches of a run of abutting literals lie in order along the code. -/
theorem patchInformation_pairwise {lits : List LIR} {start : Nat}
    (h : Layout.Abutting (fun _ => 4) LIR.offset lits start) :
    (lits.map LIR.patchInformation).Pairwise (fun p p' => p.literal_offset + 4 ≤ p'.literal_offset) :=
  List.pairwise_map.mpr h.pairwise

section Patching

variable (method_id : UInt32 → UInt32) (links : Nat → SwitchLinks) (driver : Patches) {m m' : Mir2Lir}

/-- In the code `AssembleLIR` returns, once installed, every patch the
    method recorded passes the image writer's check, and after the patches
    each code literal holds its target's code address, each method literal
    its target method's address, and every pc-relative `ldr` of a literal
    still loads from that literal. -/
theorem assembleLIR_patchOatCodeAndMethods (h : assembleLIR m = some m') (hcode : m.code_buffer = [])
    (hwf : ∀ lir ∈ m.lirs, lir.WellFormed) (code_value method_value : PatchInformation → UInt32) :
    ∃ patched, patchOatCodeAndMethods method_id code_value method_value
        (installData method_id links m' driver).1
        ⟨m'.code_literal_list.map LIR.patchInformation, m'.method_literal_list.map LIR.patchInformation⟩ =
          some patched ∧
      (∀ lit ∈ m'.code_literal_list,
        ByteList.readLE patched lit.offset 4 = some (code_value lit.patchInformation).toNat) ∧
      (∀ lit ∈ m'.method_literal_list,
        ByteList.readLE patched lit.offset 4 = some (method_value lit.patchInformation).toNat) ∧
      ∀ lir ∈ m'.lirs, lir.opcode = .arm .kThumb2LdrPcRel12 → lir.is_nop = false →
        ∀ lit ∈ m'.literals, offsetOf (m'.lirs ++ m'.literals) lir.target = lit.offset →
          ldrLiteralAddress (thumb2WordAt patched lir.offset) lir.offset = lit.offset := by
  have hm := assembleLIR_dataLaidOut h hcode hwf
  obtain ⟨-, hwords⟩ := installData_literal_words method_id links driver hm
  have hsplit := hm.code_literal_le_method_literal
  -- the code patches each find their method id, and leave the method literals' words
  obtain ⟨patched1, hp1, hval1, hframe1⟩ := patchAll_spec method_id code_value
    (m'.code_literal_list.map LIR.patchInformation) _
    (by
      intro p hp
      obtain ⟨c, hc, rfl⟩ := List.mem_map.mp hp
      exact hwords c (List.mem_append_left _ hc))
    (patchInformation_pairwise hm.code_literal_list)
  have hwords1 : ∀ p ∈ m'.method_literal_list.map LIR.patchInformation,
      wordBytes (method_id p.target_method_idx) <+: patched1.drop p.literal_offset := by
    intro p hp
    obtain ⟨l, hl, rfl⟩ := List.mem_map.mp hp
    refine hframe1 _ _ (hwords l (List.mem_append_right _ hl)) fun p' hp' => ?_
    obtain ⟨c, hc, rfl⟩ := List.mem_map.mp hp'
    exact Or.inl (hsplit c hc l hl)
  obtain ⟨patched2, hp2, hval2, hframe2⟩ := patchAll_spec method_id method_value _ patched1 hwords1
    (patchInformation_pairwise hm.method_literal_list)
  refine ⟨patched2, by rw [patchOatCodeAndMethods, hp1, Option.bind_some, hp2], ?_, ?_, ?_⟩
  · -- a code literal's address is left by the method patches, which lie past it
    intro c hc
    refine readLE_of_wordBytes (hframe2 _ _ (hval1 _ (List.mem_map_of_mem hc)) fun p hp => ?_)
    obtain ⟨l, hl, rfl⟩ := List.mem_map.mp hp
    exact Or.inr (by rw [length_wordBytes]; exact hsplit c hc l hl)
  · intro l hl
    exact readLE_of_wordBytes (hval2 _ (List.mem_map_of_mem hl))
  · -- the load lies in the code, before every patched literal
    intro lir hlir hop hnop lit hlit htarget
    obtain ⟨hbytes, -, -, haddr⟩ := assembleLIR_ldrPcRel12_word h hcode hwf hlir hop hnop hlit htarget
    have hwindows : ∀ l ∈ m'.literals, lir.offset + lir.bytes.length ≤ l.offset := fun l hl =>
      Nat.le_trans (ByteList.add_length_le_of_prefix_drop hbytes (by simp [LIR.bytes_of_size_four hop rfl]))
        (hm.code_le_literal l hl)
    have hin1 := hframe1 _ _ (hbytes.trans ((installData_keeps_code method_id links driver hm).drop _))
      fun p hp => by
        obtain ⟨c, hc, rfl⟩ := List.mem_map.mp hp
        exact Or.inr (hwindows c (by simp [Mir2Lir.literals, hc]))
    have hin2 := hframe2 _ _ hin1 fun p hp => by
      obtain ⟨l, hl, rfl⟩ := List.mem_map.mp hp
      exact Or.inr (hwindows l (by simp [Mir2Lir.literals, hl]))
    rw [thumb2WordAt_eq (by rw [← LIR.bytes_of_size_four hop rfl]; exact hin2)]
    exact haddr

/-- The code literal of `dataMethod` holds, once patched, the address the
    image writer gives its target. -/
theorem assembleLIR_patchOatCodeAndMethods_dataMethod :
    assembleLIR dataMethod = some dataMethodOut ∧ dataMethod.code_buffer = [] ∧
      (∀ lir ∈ dataMethod.lirs, lir.WellFormed) ∧
      ∃ patched, patchOatCodeAndMethods dataMethodId (fun _ => 0xCAFE0000) (fun _ => 0)
          (installData dataMethodId dataLinks dataMethodOut ⟨[], []⟩).1 ⟨[⟨7, 2, 8⟩], []⟩ = some patched ∧
        ByteList.readLE patched 8 4 = some 0xCAFE0000 := by
  obtain ⟨patched, hpatched, hcode, -, -⟩ := assembleLIR_patchOatCodeAndMethods dataMethodId dataLinks
    ⟨[], []⟩ assembleLIR_dataMethod rfl dataMethod_wellFormed (fun _ => 0xCAFE0000) (fun _ => 0)
  exact ⟨assembleLIR_dataMethod, rfl, dataMethod_wellFormed, patched, hpatched, hcode _ List.mem_cons_self⟩

end Patching

end Arm

end ArtRuntime
