import ArtRuntime.Compiler.ArmPass
import ArtRuntime.Core.Bytes
import ArtRuntime.Core.Word

/-!
# The Data of Assembled Thumb-2 Code

Once a pass of `AssembleInstructions` succeeds, `AssembleLIR` writes after
the code what the code reads: the literal pools, the switch tables and the
fill-array-data payloads. None of it is written where the layout says by
construction. `InstallLiteralPools` aligns the buffer once and then only
pushes words; `InstallSwitchTables` and `InstallFillArrayData` align it to
each table's offset, which puts a table where `AssignOffsets` placed it only
if what was written before ends at or before that offset. The code pushes
bytes and never compares its buffer with the offsets it was given.

The module shows the two agree: in a method `AssembleLIR` returns, the code
ends before the data (`assembleLIR_code`), the data of each kind is laid end
to end as `AssignOffsets` laid it out (`Mir2Lir.DataLaidOut`), and no install
writes past the room it was given, so every literal, every patch's literal,
every switch-table entry and every payload halfword is read back at the
offset the code that uses it was assembled against. Each install loop is
first rewritten as the list it appends (`installLiteralPools_eq`,
`installSwitchTables_eq`, `installFillArrayData_eq`), and the placement
follows from `Layout.Abutting.prefix_drop_append` and
`Layout.Abutting.prefix_placeAll`.

A switch table's entry is read as the processor uses it: added to the pc of
the `add pc` that dispatches on it, it gives the case's offset.

## Main definitions

* `pushWord`, `alignBuffer`: PushWord and AlignBuffer.
* `installLiteralPools`, `installSwitchTables`, `installFillArrayData`: The
  three installs, and `installData` the three in the order `AssembleLIR`
  makes them.
* `Mir2Lir.DataLaidOut`: The data laid out after code that ends before it.

## Theorems

* `assembleLIR_dataLaidOut`: The methods `AssembleLIR` returns are so laid
  out.
* `assembleLIR_installData_code`: The installs keep the code, and end within
  the method's total size.
* `assembleLIR_installData_literal`: Every literal's word stands at its
  offset.
* `assembleLIR_installData_patches`: Every code and method literal is
  recorded as a patch at its offset, and the word there is its target's
  method id.
* `assembleLIR_installData_switch`: Every switch-table entry, added to the
  pc of its `add pc`, gives its case's offset.
* `assembleLIR_installData_fillArrayData`: Every payload's code units stand
  at its offset.
-/

namespace ArtRuntime

namespace Arm

open MachineWord

/-! ### The installs -/

/-- The four bytes PushWord appends for `data`: `data & 0xff`, then
    `(data >> 8) & 0xff`, `(data >> 16) & 0xff` and `(data >> 24) & 0xff`. -/
def wordBytes (data : UInt32) : List UInt8 :=
  [byteLane data 0, byteLane data 1, byteLane data 2, byteLane data 3]

/-- PushWord, on the 32 bits of its `int` argument. -/
def pushWord (buf : List UInt8) (data : UInt32) : List UInt8 :=
  buf ++ wordBytes data

/-- AlignBuffer: zeros pushed until the buffer reaches `offset`. -/
def alignBuffer (buf : List UInt8) (offset : Nat) : List UInt8 :=
  buf ++ List.replicate (offset - buf.length) 0

/-- CompilerDriver::PatchInformation, of the fields that differ between the
    patches of one method: the method a literal names, its invoke type, and
    the offset of the literal in the method's code. -/
structure PatchInformation where
  target_method_idx : UInt32
  target_invoke_type : Int
  literal_offset : Nat
  deriving DecidableEq, Repr

/-- The patch lists of the compiler driver, `code_to_patch_` and
    `methods_to_patch_`. -/
structure Patches where
  code_to_patch : List PatchInformation
  methods_to_patch : List PatchInformation
  deriving DecidableEq, Repr

/-- The loop of InstallLiteralPools over the code or the method literals:
    each is recorded as a patch at the end of the buffer (AddCodePatch or
    AddMethodPatch), then the address of its target's method id is pushed.
    `method_id` is that address, `&cu_->dex_file->GetMethodId(target)`. -/
def pushPatchedLiterals (method_id : UInt32 → UInt32) :
    List LIR → List UInt8 → List PatchInformation → List UInt8 × List PatchInformation
  | [], code_buffer, patches => (code_buffer, patches)
  | data_lir :: rest, code_buffer, patches =>
    let target := UInt32.ofInt (data_lir.operand 0)
    pushPatchedLiterals method_id rest (pushWord code_buffer (method_id target))
      (patches ++ [⟨target, data_lir.operand 1, code_buffer.length⟩])

/-- Mir2Lir::InstallLiteralPools: the buffer aligned to the literal pool,
    then the values of the literals, then the code and the method literals
    with their patches. -/
def installLiteralPools (method_id : UInt32 → UInt32) (m : Mir2Lir) (driver : Patches) :
    List UInt8 × Patches :=
  let code_buffer := alignBuffer m.code_buffer m.data_offset
  let code_buffer := m.literal_list.foldl
    (fun code_buffer data_lir => pushWord code_buffer (UInt32.ofInt (data_lir.operand 0))) code_buffer
  let (code_buffer, code_to_patch) :=
    pushPatchedLiterals method_id m.code_literal_list code_buffer driver.code_to_patch
  let (code_buffer, methods_to_patch) :=
    pushPatchedLiterals method_id m.method_literal_list code_buffer driver.methods_to_patch
  (code_buffer, ⟨code_to_patch, methods_to_patch⟩)

/-- What a switch table points at, by the addresses of LIRs: `anchor`, the
    `add pc` its displacements are taken from, and `targets`, its cases. -/
structure SwitchLinks where
  anchor : Nat
  targets : List Nat
  deriving DecidableEq, Repr

/-- `keys[elems]` of a sparse switch: the `int` of the two code units from
    `table[2 + 2 * elems]`, the low one first. -/
def sparseKey (table : List UInt16) (elems : Nat) : UInt32 :=
  (table.getD (2 + 2 * elems) 0).toUInt32 ||| ((table.getD (3 + 2 * elems) 0).toUInt32 <<< 16)

/-- `tab_rec->targets[elems]->offset - bx_offset`: the displacement of case
    `elems` from the pc of the table's `add pc`, 4 past it. -/
def switchDisp (lirs : List LIR) (links : SwitchLinks) (elems : Nat) : UInt32 :=
  UInt32.ofInt ((offsetOf lirs (links.targets.getD elems 0) : Int) - (offsetOf lirs links.anchor + 4))

/-- Mir2Lir::InstallSwitchTables on Thumb-2: each table aligned to its
    offset, then for each case its key (a sparse switch only) and its
    displacement; `links` says what each table, by its address, points at. -/
def installSwitchTables (lirs : List LIR) (links : Nat → SwitchLinks) :
    List DataTable → List UInt8 → List UInt8
  | [], code_buffer => code_buffer
  | tab_rec :: rest, code_buffer =>
    let code_buffer := alignBuffer code_buffer tab_rec.offset
    let cases := List.range (tab_rec.table.getD 1 0).toNat
    let code_buffer :=
      if tab_rec.table.getD 0 0 = kSparseSwitchSignature then
        cases.foldl (fun code_buffer elems =>
          pushWord (pushWord code_buffer (sparseKey tab_rec.table elems))
            (switchDisp lirs (links tab_rec.addr) elems)) code_buffer
      else
        cases.foldl (fun code_buffer elems =>
          pushWord code_buffer (switchDisp lirs (links tab_rec.addr) elems)) code_buffer
    installSwitchTables lirs links rest code_buffer

/-- Mir2Lir::InstallFillArrayData: each payload aligned to its offset, then
    its first `(size + 1) / 2` code units, the low byte first. -/
def installFillArrayData : List DataTable → List UInt8 → List UInt8
  | [], code_buffer => code_buffer
  | tab_rec :: rest, code_buffer =>
    let code_buffer := alignBuffer code_buffer tab_rec.offset
    let code_buffer := (List.range ((tab_rec.size + 1) / 2)).foldl (fun code_buffer i =>
      code_buffer ++ [(tab_rec.table.getD i 0 &&& 0xFF).toUInt8,
        ((tab_rec.table.getD i 0 >>> 8) &&& 0xFF).toUInt8]) code_buffer
    installFillArrayData rest code_buffer

/-- The installs that end Mir2Lir::AssembleLIR once a pass has succeeded:
    the literal pools, the switch tables and the fill-array data, in that
    order, into the code buffer of `m`. -/
def installData (method_id : UInt32 → UInt32) (links : Nat → SwitchLinks) (m : Mir2Lir)
    (driver : Patches) : List UInt8 × Patches :=
  let (code_buffer, driver) := installLiteralPools method_id m driver
  let code_buffer := installSwitchTables m.lirs links m.switch_tables code_buffer
  (installFillArrayData m.fill_array_data code_buffer, driver)

/-! ### The layout of the data -/

/-- The room AssignSwitchTablesOffset gives a switch table: two words a case
    for a sparse switch, one for a packed one. -/
def switchTableSize (tab_rec : DataTable) : Nat :=
  if tab_rec.table.getD 0 0 = kSparseSwitchSignature then (tab_rec.table.getD 1 0).toNat * 8
  else (tab_rec.table.getD 1 0).toNat * 4

/-- The room AssignFillArrayDataOffset gives a payload: its size, up to the
    next word. -/
def fillArrayDataSize (tab_rec : DataTable) : Nat :=
  (tab_rec.offset + tab_rec.size + 3) / 4 * 4 - tab_rec.offset

/-- The data of a method laid out after its code as `AssignOffsets` lays it
    out: the three literal pools a word a literal from `data_offset`, then
    the switch tables end to end, then the payloads, each from an even
    offset, ending at `total_size`; and the code ends by `data_offset`. -/
structure Mir2Lir.DataLaidOut (m : Mir2Lir) : Prop where
  code : m.code_buffer.length ≤ m.data_offset
  literal_list : Layout.Abutting (fun _ => 4) LIR.offset m.literal_list m.data_offset
  code_literal_list :
    Layout.Abutting (fun _ => 4) LIR.offset m.code_literal_list (m.data_offset + 4 * m.literal_list.length)
  method_literal_list : Layout.Abutting (fun _ => 4) LIR.offset m.method_literal_list
    (m.data_offset + 4 * m.literal_list.length + 4 * m.code_literal_list.length)
  switch_tables :
    Layout.Abutting switchTableSize DataTable.offset m.switch_tables (m.data_offset + 4 * m.literals.length)
  fill_array_data : Layout.Abutting fillArrayDataSize DataTable.offset m.fill_array_data
    (m.data_offset + 4 * m.literals.length + (m.switch_tables.map switchTableSize).sum)
  fill_array_data_even : ∀ tab_rec ∈ m.fill_array_data, 2 ∣ tab_rec.offset
  total_size : m.total_size = m.data_offset + 4 * m.literals.length +
    (m.switch_tables.map switchTableSize).sum + (m.fill_array_data.map fillArrayDataSize).sum

theorem assignSwitchTablesOffset_abutting (tables : List DataTable) (offset : Nat) :
    Layout.Abutting switchTableSize DataTable.offset (assignSwitchTablesOffset tables offset).1 offset ∧
      (assignSwitchTablesOffset tables offset).2 =
        offset + ((assignSwitchTablesOffset tables offset).1.map switchTableSize).sum := by
  induction tables generalizing offset with
  | nil => simp [assignSwitchTablesOffset]
  | cons tab_rec rest ih =>
    -- the next table starts where this one's room ends
    have hnext : (if tab_rec.table.getD 0 0 = kSparseSwitchSignature then
        offset + (tab_rec.table.getD 1 0).toNat * 8 else offset + (tab_rec.table.getD 1 0).toNat * 4) =
        offset + switchTableSize { tab_rec with offset } := by
      unfold switchTableSize
      split_ifs <;> rfl
    obtain ⟨habut, hend⟩ := ih (offset + switchTableSize { tab_rec with offset })
    simp only [assignSwitchTablesOffset, hnext]
    refine ⟨⟨rfl, habut⟩, ?_⟩
    rw [hend, List.map_cons, List.sum_cons]
    omega

theorem assignFillArrayDataOffset_abutting (tables : List DataTable) {offset : Nat} (heven : 2 ∣ offset) :
    Layout.Abutting fillArrayDataSize DataTable.offset (assignFillArrayDataOffset tables offset).1 offset ∧
      (∀ tab_rec ∈ (assignFillArrayDataOffset tables offset).1, 2 ∣ tab_rec.offset) ∧
      (assignFillArrayDataOffset tables offset).2 =
        offset + ((assignFillArrayDataOffset tables offset).1.map fillArrayDataSize).sum := by
  induction tables generalizing offset with
  | nil => simp [assignFillArrayDataOffset]
  | cons tab_rec rest ih =>
    -- the next payload starts at the word after this one, an even offset
    have hnext : (offset + tab_rec.size + 3) / 4 * 4 = offset + fillArrayDataSize { tab_rec with offset } := by
      unfold fillArrayDataSize
      dsimp only
      omega
    have hnext_even : 2 ∣ (offset + tab_rec.size + 3) / 4 * 4 :=
      Nat.dvd_trans (by decide) (Nat.dvd_mul_left 4 _)
    obtain ⟨habut, hall, hend⟩ := ih hnext_even
    simp only [assignFillArrayDataOffset]
    refine ⟨⟨rfl, hnext ▸ habut⟩, ?_, ?_⟩
    · intro t ht
      rcases List.mem_cons.mp ht with rfl | ht
      · exact heven
      · exact hall t ht
    · rw [hend, List.map_cons, List.sum_cons]
      omega

theorem length_assignLiteralOffsetCommon (lirs : List LIR) (offset : Nat) :
    (assignLiteralOffsetCommon lirs offset).1.length = lirs.length := by
  induction lirs generalizing offset with
  | nil => rfl
  | cons lir rest ih => simp [assignLiteralOffsetCommon, ih]

/-- The literal pools of a layout, a word a literal one pool after the
    other from `data_offset`, and where the switch tables then start. -/
theorem assignOffsets_literal_pools (x : Mir2Lir) :
    Layout.Abutting (fun _ => 4) LIR.offset (assignOffsets x).literal_list (assignOffsets x).data_offset ∧
      Layout.Abutting (fun _ => 4) LIR.offset (assignOffsets x).code_literal_list
        ((assignOffsets x).data_offset + 4 * (assignOffsets x).literal_list.length) ∧
      Layout.Abutting (fun _ => 4) LIR.offset (assignOffsets x).method_literal_list
        ((assignOffsets x).data_offset + 4 * (assignOffsets x).literal_list.length +
          4 * (assignOffsets x).code_literal_list.length) ∧
      (assignLiteralOffsetCommon x.method_literal_list (assignLiteralOffsetCommon x.code_literal_list
        (assignLiteralOffsetCommon x.literal_list (assignOffsets x).data_offset).2).2).2 =
        (assignOffsets x).data_offset + 4 * (assignOffsets x).literals.length := by
  obtain ⟨h1, h1end⟩ := assignLiteralOffsetCommon_abutting x.literal_list (assignOffsets x).data_offset
  obtain ⟨h2, h2end⟩ := assignLiteralOffsetCommon_abutting x.code_literal_list
    (assignLiteralOffsetCommon x.literal_list (assignOffsets x).data_offset).2
  obtain ⟨h3, h3end⟩ := assignLiteralOffsetCommon_abutting x.method_literal_list
    (assignLiteralOffsetCommon x.code_literal_list
      (assignLiteralOffsetCommon x.literal_list (assignOffsets x).data_offset).2).2
  have hl1 := length_assignLiteralOffsetCommon x.literal_list (assignOffsets x).data_offset
  have hl2 := length_assignLiteralOffsetCommon x.code_literal_list
    (assignLiteralOffsetCommon x.literal_list (assignOffsets x).data_offset).2
  have hl3 := length_assignLiteralOffsetCommon x.method_literal_list
    (assignLiteralOffsetCommon x.code_literal_list
      (assignLiteralOffsetCommon x.literal_list (assignOffsets x).data_offset).2).2
  rw [← assignOffsets_literal_list] at h1 hl1
  rw [← assignOffsets_code_literal_list] at h2 hl2
  rw [← assignOffsets_method_literal_list] at h3 hl3
  -- each pool starts where the one before it ends
  have hs2 : (assignLiteralOffsetCommon x.literal_list (assignOffsets x).data_offset).2 =
      (assignOffsets x).data_offset + 4 * (assignOffsets x).literal_list.length := by
    rw [h1end, hl1]
  have hs3 : (assignLiteralOffsetCommon x.code_literal_list
      (assignLiteralOffsetCommon x.literal_list (assignOffsets x).data_offset).2).2 =
      (assignOffsets x).data_offset + 4 * (assignOffsets x).literal_list.length +
        4 * (assignOffsets x).code_literal_list.length := by
    rw [h2end, hs2, hl2]
  refine ⟨h1, hs2 ▸ h2, hs3 ▸ h3, ?_⟩
  rw [h3end, hs3, ← hl3, Mir2Lir.literals, List.length_append, List.length_append]
  ring

theorem switchTableSize_even (tab_rec : DataTable) : 2 ∣ switchTableSize tab_rec := by
  unfold switchTableSize
  split_ifs <;> omega

/-- The data `AssignOffsets` lays out, whatever instructions and code then
    stand before it, so long as the code ends by `data_offset`. -/
theorem assignOffsets_dataLaidOut (x : Mir2Lir) (lirs : List LIR) (code_buffer : List UInt8)
    (hcode : code_buffer.length ≤ (assignOffsets x).data_offset) :
    ({ assignOffsets x with lirs := lirs, code_buffer := code_buffer } : Mir2Lir).DataLaidOut := by
  obtain ⟨h1, h2, h3, hpools⟩ := assignOffsets_literal_pools x
  -- where the switch tables start, and then the payloads
  set S := (assignLiteralOffsetCommon x.method_literal_list (assignLiteralOffsetCommon x.code_literal_list
    (assignLiteralOffsetCommon x.literal_list (assignOffsets x).data_offset).2).2).2
  obtain ⟨hs, hsend⟩ := assignSwitchTablesOffset_abutting x.switch_tables S
  set T := (assignSwitchTablesOffset x.switch_tables S).2
  have hT : T = (assignOffsets x).data_offset + 4 * (assignOffsets x).literals.length +
      ((assignOffsets x).switch_tables.map switchTableSize).sum := by
    rw [hsend]
    exact congrArg (· + _) hpools
  -- the payloads start after the switch tables, at an even offset
  have hfill_even : 2 ∣ T := by
    have hdata : 2 ∣ (assignOffsets x).data_offset := by
      rw [assignOffsets_data_offset]
      exact Nat.dvd_trans (by decide) (Nat.dvd_mul_left 4 _)
    have hsum : 2 ∣ ((assignOffsets x).switch_tables.map switchTableSize).sum :=
      List.dvd_sum fun n hn => by
        obtain ⟨t, -, rfl⟩ := List.mem_map.mp hn
        exact switchTableSize_even t
    omega
  obtain ⟨hf, hfeven, hfend⟩ := assignFillArrayDataOffset_abutting x.fill_array_data hfill_even
  exact ⟨hcode, h1, h2, h3, hpools ▸ hs, hT ▸ hf, hfeven, hfend.trans (congrArg (· + _) hT)⟩

/-- The methods `AssembleLIR` returns have their data laid out after their
    code. -/
theorem assembleLIR_dataLaidOut {m m' : Mir2Lir} (h : assembleLIR m = some m') (hcode : m.code_buffer = [])
    (hwf : ∀ lir ∈ m.lirs, lir.WellFormed) : m'.DataLaidOut := by
  obtain ⟨m0, hm0, hpass⟩ := assembleLIR_success h hcode hwf
  obtain ⟨-, -, hrest⟩ := assembleInstructions_success hpass hm0.wellFormed
  obtain ⟨x, rfl, -, -⟩ := hm0
  have hdata := (assembleLIR_code h hcode hwf).2
  have hsame : m'.data_offset = (assignOffsets x).data_offset := by
    rw [hrest]
  rw [hrest]
  exact assignOffsets_dataLaidOut x _ _ (by omega)

/-! ### What the installs append -/

theorem length_wordBytes (data : UInt32) : (wordBytes data).length = 4 := rfl

theorem length_flatMap_wordBytes {α : Type} (f : α → UInt32) (xs : List α) :
    (xs.flatMap fun x => wordBytes (f x)).length = 4 * xs.length :=
  Layout.length_flatMap_const (fun x => length_wordBytes (f x)) xs

/-- A loop appending a block a step is the buffer followed by the blocks. -/
theorem foldl_append_eq_flatMap {α β : Type} (f : α → List β) (xs : List α) (buf : List β) :
    xs.foldl (fun buf x => buf ++ f x) buf = buf ++ xs.flatMap f := by
  induction xs generalizing buf with
  | nil => simp
  | cons x xs ih => rw [List.foldl_cons, ih, List.flatMap_cons, List.append_assoc]

/-- The patch recorded for a code or a method literal, at its offset. -/
def LIR.patchInformation (data_lir : LIR) : PatchInformation :=
  ⟨UInt32.ofInt (data_lir.operand 0), data_lir.operand 1, data_lir.offset⟩

/-- Code or method literals pushed where they were laid out: each patch
    recorded at its literal's offset. -/
theorem pushPatchedLiterals_eq (method_id : UInt32 → UInt32) {lits : List LIR} {buf : List UInt8}
    (patches : List PatchInformation) (h : Layout.Abutting (fun _ => 4) LIR.offset lits buf.length) :
    pushPatchedLiterals method_id lits buf patches =
      (buf ++ lits.flatMap (fun l => wordBytes (method_id (UInt32.ofInt (l.operand 0)))),
        patches ++ lits.map LIR.patchInformation) := by
  induction lits generalizing buf patches with
  | nil => simp [pushPatchedLiterals]
  | cons lit rest ih =>
    obtain ⟨hoff, hrest⟩ := h
    have hlen : (pushWord buf (method_id (UInt32.ofInt (lit.operand 0)))).length = buf.length + 4 := by
      rw [pushWord, List.length_append, length_wordBytes]
    rw [pushPatchedLiterals, ih _ (hlen ▸ hrest)]
    simp [pushWord, LIR.patchInformation, hoff]

/-- InstallLiteralPools on laid-out data: the code padded to the pool, then
    the words of the three pools, and a patch for each code and method
    literal at its offset. -/
theorem installLiteralPools_eq (method_id : UInt32 → UInt32) {m : Mir2Lir} (driver : Patches)
    (hm : m.DataLaidOut) :
    installLiteralPools method_id m driver =
      (alignBuffer m.code_buffer m.data_offset ++
          m.literal_list.flatMap (fun l => wordBytes (UInt32.ofInt (l.operand 0))) ++
          m.code_literal_list.flatMap (fun l => wordBytes (method_id (UInt32.ofInt (l.operand 0)))) ++
          m.method_literal_list.flatMap (fun l => wordBytes (method_id (UInt32.ofInt (l.operand 0)))),
        ⟨driver.code_to_patch ++ m.code_literal_list.map LIR.patchInformation,
          driver.methods_to_patch ++ m.method_literal_list.map LIR.patchInformation⟩) := by
  have halign : (alignBuffer m.code_buffer m.data_offset).length = m.data_offset := by
    have := hm.code
    simp only [alignBuffer, List.length_append, List.length_replicate]
    omega
  -- each pool ends where the next was laid out
  have hcode_lits : Layout.Abutting (fun _ => 4) LIR.offset m.code_literal_list
      (alignBuffer m.code_buffer m.data_offset ++
        m.literal_list.flatMap (fun l => wordBytes (UInt32.ofInt (l.operand 0)))).length := by
    rw [List.length_append, halign, length_flatMap_wordBytes]
    exact hm.code_literal_list
  have hmethod_lits : Layout.Abutting (fun _ => 4) LIR.offset m.method_literal_list
      (alignBuffer m.code_buffer m.data_offset ++
        m.literal_list.flatMap (fun l => wordBytes (UInt32.ofInt (l.operand 0))) ++
        m.code_literal_list.flatMap (fun l => wordBytes (method_id (UInt32.ofInt (l.operand 0))))).length := by
    rw [List.length_append, List.length_append, halign, length_flatMap_wordBytes, length_flatMap_wordBytes]
    exact hm.method_literal_list
  simp only [installLiteralPools, pushWord, foldl_append_eq_flatMap]
  rw [pushPatchedLiterals_eq _ _ hcode_lits]
  dsimp only
  rw [pushPatchedLiterals_eq _ _ hmethod_lits]

/-- The entries InstallSwitchTables writes for a table. -/
def switchTableBytes (lirs : List LIR) (links : Nat → SwitchLinks) (tab_rec : DataTable) : List UInt8 :=
  if tab_rec.table.getD 0 0 = kSparseSwitchSignature then
    (List.range (tab_rec.table.getD 1 0).toNat).flatMap fun elems =>
      wordBytes (sparseKey tab_rec.table elems) ++ wordBytes (switchDisp lirs (links tab_rec.addr) elems)
  else
    (List.range (tab_rec.table.getD 1 0).toNat).flatMap fun elems =>
      wordBytes (switchDisp lirs (links tab_rec.addr) elems)

/-- The code units InstallFillArrayData writes for a payload. -/
def fillArrayDataBytes (tab_rec : DataTable) : List UInt8 :=
  (List.range ((tab_rec.size + 1) / 2)).flatMap fun i =>
    [(tab_rec.table.getD i 0 &&& 0xFF).toUInt8, ((tab_rec.table.getD i 0 >>> 8) &&& 0xFF).toUInt8]

theorem installSwitchTables_eq (lirs : List LIR) (links : Nat → SwitchLinks) (tables : List DataTable)
    (buf : List UInt8) :
    installSwitchTables lirs links tables buf =
      Layout.placeAll 0 DataTable.offset (switchTableBytes lirs links) buf tables := by
  induction tables generalizing buf with
  | nil => rfl
  | cons tab_rec rest ih =>
    rw [installSwitchTables, Layout.placeAll, ← ih]
    congr 1
    unfold switchTableBytes
    split_ifs <;> simp only [alignBuffer, pushWord, List.append_assoc, foldl_append_eq_flatMap]

theorem installFillArrayData_eq (tables : List DataTable) (buf : List UInt8) :
    installFillArrayData tables buf = Layout.placeAll 0 DataTable.offset fillArrayDataBytes buf tables := by
  induction tables generalizing buf with
  | nil => rfl
  | cons tab_rec rest ih =>
    rw [installFillArrayData, Layout.placeAll, ← ih]
    simp only [alignBuffer, fillArrayDataBytes, List.append_assoc, foldl_append_eq_flatMap]

theorem length_switchTableBytes (lirs : List LIR) (links : Nat → SwitchLinks) (tab_rec : DataTable) :
    (switchTableBytes lirs links tab_rec).length = switchTableSize tab_rec := by
  unfold switchTableBytes switchTableSize
  -- a sparse case is a key and a displacement, a packed one a displacement
  split_ifs
  · rw [Layout.length_flatMap_const (w := 8), List.length_range, Nat.mul_comm]
    intro elems
    rfl
  · rw [length_flatMap_wordBytes, List.length_range, Nat.mul_comm]

/-- A payload's code units fit in the room it was given, if it starts at an
    even offset. -/
theorem length_fillArrayDataBytes_le {tab_rec : DataTable} (heven : 2 ∣ tab_rec.offset) :
    (fillArrayDataBytes tab_rec).length ≤ fillArrayDataSize tab_rec := by
  have hlen : (fillArrayDataBytes tab_rec).length = 2 * ((tab_rec.size + 1) / 2) := by
    rw [fillArrayDataBytes, Layout.length_flatMap_const (w := 2), List.length_range]
    intro i
    rfl
  rw [hlen, fillArrayDataSize]
  omega

/-! ### Reading the data back -/

theorem leDecode_wordBytes (data : UInt32) : ByteList.leDecode (wordBytes data) = data.toNat := by
  have h0 := toNat_byteLane data 0 (by decide)
  have h1 := toNat_byteLane data 1 (by decide)
  have h2 := toNat_byteLane data 2 (by decide)
  have h3 := toNat_byteLane data 3 (by decide)
  have hlt := data.toNat_lt
  simp only [wordBytes, ByteList.leDecode_cons, ByteList.leDecode_nil, h0, h1, h2, h3]
  omega

/-- A word PushWord wrote is read back, little-endian, where it stands. -/
theorem readLE_of_wordBytes {buf : List UInt8} {off : Nat} {data : UInt32}
    (h : wordBytes data <+: buf.drop off) : ByteList.readLE buf off 4 = some data.toNat := by
  have hread := ByteList.readLE_of_prefix_drop h (by simp [wordBytes])
  rwa [length_wordBytes, leDecode_wordBytes] at hread

/-- A code unit InstallFillArrayData wrote is read back where it stands. -/
theorem readLE_of_halfword {buf : List UInt8} {off : Nat} {t : UInt16}
    (h : [(t &&& 0xFF).toUInt8, ((t >>> 8) &&& 0xFF).toUInt8] <+: buf.drop off) :
    ByteList.readLE buf off 2 = some t.toNat := by
  have hread := ByteList.readLE_of_prefix_drop h (by simp)
  have hlt := t.toNat_lt
  simp only [List.length_cons, List.length_nil, ByteList.leDecode_cons, ByteList.leDecode_nil,
    UInt16.toNat_toUInt8, UInt16.toNat_and, UInt16.toNat_shiftRight] at hread
  rw [hread]
  congr 1
  simp only [show (0xFF : UInt16).toNat = 2 ^ 8 - 1 from rfl, show (8 : UInt16).toNat % 16 = 8 from rfl,
    Nat.and_two_pow_sub_one_eq_mod, Nat.shiftRight_eq_div_pow]
  omega

/-- Blocks one inside the other: what stands at an offset of a block that
    stands at an offset of the buffer. -/
theorem prefix_drop_drop {β : Type} {buf block part : List β} {off off' : Nat}
    (h : block <+: buf.drop off) (hpart : part <+: block.drop off') : part <+: buf.drop (off + off') := by
  rw [← List.drop_drop]
  exact hpart.trans (h.drop off')

theorem installData_fst (method_id : UInt32 → UInt32) (links : Nat → SwitchLinks) (m : Mir2Lir)
    (driver : Patches) :
    (installData method_id links m driver).1 = installFillArrayData m.fill_array_data
      (installSwitchTables m.lirs links m.switch_tables (installLiteralPools method_id m driver).1) := rfl

theorem installData_snd (method_id : UInt32 → UInt32) (links : Nat → SwitchLinks) (m : Mir2Lir)
    (driver : Patches) :
    (installData method_id links m driver).2 = (installLiteralPools method_id m driver).2 := rfl

section Installs

variable (method_id : UInt32 → UInt32) (links : Nat → SwitchLinks) (driver : Patches) {m : Mir2Lir}

/-- The installs on laid-out data: the literal pools stay in front, the
    whole ends within the method's total size, and each switch table and
    payload stands at its offset. -/
theorem installData_placed (hm : m.DataLaidOut) :
    (installLiteralPools method_id m driver).1 <+: (installData method_id links m driver).1 ∧
      (installData method_id links m driver).1.length ≤ m.total_size ∧
      (∀ tab_rec ∈ m.switch_tables,
        switchTableBytes m.lirs links tab_rec <+: (installData method_id links m driver).1.drop tab_rec.offset) ∧
      ∀ tab_rec ∈ m.fill_array_data,
        fillArrayDataBytes tab_rec <+: (installData method_id links m driver).1.drop tab_rec.offset := by
  have hpools : (installLiteralPools method_id m driver).1.length = m.data_offset + 4 * m.literals.length := by
    have := hm.code
    rw [installLiteralPools_eq _ _ hm]
    simp only [List.length_append, alignBuffer, List.length_replicate, length_flatMap_wordBytes,
      Mir2Lir.literals]
    omega
  obtain ⟨hP, hQlen, hQat⟩ := hm.switch_tables.prefix_placeAll 0 (switchTableBytes m.lirs links)
    (Nat.le_of_eq hpools) (fun t _ => Nat.le_of_eq (length_switchTableBytes m.lirs links t))
  obtain ⟨hQ, hRlen, hRat⟩ := hm.fill_array_data.prefix_placeAll 0 fillArrayDataBytes hQlen
    (fun t ht => length_fillArrayDataBytes_le (hm.fill_array_data_even t ht))
  rw [installData_fst, installSwitchTables_eq, installFillArrayData_eq]
  refine ⟨hP.trans hQ, by rw [hm.total_size]; exact hRlen, fun t ht => (hQat t ht).trans (hQ.drop _), hRat⟩

/-- The literal pools on laid-out data: each literal's word, and each code
    and method literal's method id, at the literal's offset. -/
theorem installLiteralPools_words (hm : m.DataLaidOut) :
    (∀ lit ∈ m.literal_list,
      wordBytes (UInt32.ofInt (lit.operand 0)) <+: (installLiteralPools method_id m driver).1.drop lit.offset) ∧
      ∀ lit ∈ m.code_literal_list ++ m.method_literal_list,
        wordBytes (method_id (UInt32.ofInt (lit.operand 0))) <+:
          (installLiteralPools method_id m driver).1.drop lit.offset := by
  have halign : (alignBuffer m.code_buffer m.data_offset).length = m.data_offset := by
    have := hm.code
    simp only [alignBuffer, List.length_append, List.length_replicate]
    omega
  -- the pools one after the other, behind the code padded to the first
  have hL : Layout.Abutting (fun _ => 4) LIR.offset m.literal_list
      (alignBuffer m.code_buffer m.data_offset).length := by
    rw [halign]
    exact hm.literal_list
  have hC : Layout.Abutting (fun _ => 4) LIR.offset m.code_literal_list
      (alignBuffer m.code_buffer m.data_offset ++
        m.literal_list.flatMap (fun l : LIR => wordBytes (UInt32.ofInt (l.operand 0)))).length := by
    rw [List.length_append, halign, length_flatMap_wordBytes]
    exact hm.code_literal_list
  have hM : Layout.Abutting (fun _ => 4) LIR.offset m.method_literal_list
      (alignBuffer m.code_buffer m.data_offset ++
        m.literal_list.flatMap (fun l : LIR => wordBytes (UInt32.ofInt (l.operand 0))) ++
        m.code_literal_list.flatMap (fun l : LIR => wordBytes (method_id (UInt32.ofInt (l.operand 0))))).length := by
    rw [List.length_append, List.length_append, halign, length_flatMap_wordBytes, length_flatMap_wordBytes]
    exact hm.method_literal_list
  rw [installLiteralPools_eq _ _ hm]
  refine ⟨fun lit hlit => ?_, fun lit hlit => ?_⟩
  · have hat := hL.prefix_drop_append (fun l : LIR => wordBytes (UInt32.ofInt (l.operand 0))) (fun _ _ => rfl)
      (m.code_literal_list.flatMap (fun l : LIR => wordBytes (method_id (UInt32.ofInt (l.operand 0)))) ++
        m.method_literal_list.flatMap (fun l : LIR => wordBytes (method_id (UInt32.ofInt (l.operand 0))))) lit hlit
    simpa only [List.append_assoc] using hat
  · rcases List.mem_append.mp hlit with hlit | hlit
    · have hat := hC.prefix_drop_append (fun l : LIR => wordBytes (method_id (UInt32.ofInt (l.operand 0))))
        (fun _ _ => rfl)
        (m.method_literal_list.flatMap (fun l : LIR => wordBytes (method_id (UInt32.ofInt (l.operand 0))))) lit hlit
      simpa only [List.append_assoc] using hat
    · have hat := hM.prefix_drop_append (fun l : LIR => wordBytes (method_id (UInt32.ofInt (l.operand 0))))
        (fun _ _ => rfl) [] lit hlit
      simpa only [List.append_assoc, List.append_nil] using hat

/-- The installs on laid-out data keep the code in front. -/
theorem installData_keeps_code (hm : m.DataLaidOut) :
    m.code_buffer <+: (installData method_id links m driver).1 := by
  have hcode : m.code_buffer <+: (installLiteralPools method_id m driver).1 := by
    rw [installLiteralPools_eq _ _ hm]
    simp only [alignBuffer, List.append_assoc]
    exact List.prefix_append _ _
  exact hcode.trans (installData_placed method_id links driver hm).1

/-- The words of the literal pools stand at the literals' offsets of the
    installed code. -/
theorem installData_literal_words (hm : m.DataLaidOut) :
    (∀ lit ∈ m.literal_list,
      wordBytes (UInt32.ofInt (lit.operand 0)) <+: (installData method_id links m driver).1.drop lit.offset) ∧
      ∀ lit ∈ m.code_literal_list ++ m.method_literal_list,
        wordBytes (method_id (UInt32.ofInt (lit.operand 0))) <+:
          (installData method_id links m driver).1.drop lit.offset := by
  have hpools := (installData_placed method_id links driver hm).1
  obtain ⟨hlits, hpatched⟩ := installLiteralPools_words method_id driver hm
  exact ⟨fun lit hlit => (hlits lit hlit).trans (hpools.drop _),
    fun lit hlit => (hpatched lit hlit).trans (hpools.drop _)⟩

end Installs

/-! ### A method with data -/

/-- A literal as AddWordData makes it: an arena LIR, zeroed and so of opcode
    kArm16BitData, holding `value` in `operands[0]`. -/
def wordData (addr : Nat) (value : Int) : LIR :=
  ⟨addr, 0, .arm (.other ⟨0x0000, [bitBlt 15 0, unusedField, unusedField, unusedField], false, 2⟩),
    [value, 0, 0, 0, 0], 0, false, false, 0⟩

/-- A method that loads a method's address through a code literal, with a
    literal of its own, a packed switch of two cases and a payload of three
    bytes. -/
def dataMethod : Mir2Lir where
  lirs := [rawLIR 1 (.arm .kThumb2LdrPcRel12) 0 0 0 0 0 10, rawLIR 2 (.pseudo .label) 0 0 0 0 0 0]
  literal_list := [wordData 8 0x12345678]
  code_literal_list := [{ wordData 10 7 with operands := [7, 2, 0, 0, 0] }]
  method_literal_list := []
  switch_tables := [⟨20, [0x0100, 2, 0, 0, 0, 0, 0, 0], 0, 0⟩]
  fill_array_data := [⟨30, [0x0300, 1, 3, 0, 0x0201, 0x0003], 11, 0⟩]
  data_offset := 0
  total_size := 0
  code_buffer := []
  next_addr := 31
  disable_opt := 0

/-- The LIRs of `dataMethod` as its one pass leaves them: the load reads 4
    bytes past its word-aligned pc, where the code literal lies. -/
def dataMethodDone : List LIR :=
  [{ rawLIR 1 (.arm .kThumb2LdrPcRel12) 0 0 0 0 0 10 with offset := 0, operands := [0, 4, 0, 0, 0] },
    { rawLIR 2 (.pseudo .label) 0 0 0 0 0 0 with offset := 4 }]

/-- `dataMethod` as `AssembleLIR` returns it. -/
def dataMethodOut : Mir2Lir :=
  { assignOffsets dataMethod with lirs := dataMethodDone, code_buffer := dataMethodDone.flatMap LIR.emitted }

theorem assignOffsets_dataMethod_lirs :
    (assignOffsets dataMethod).lirs =
      [{ rawLIR 1 (.arm .kThumb2LdrPcRel12) 0 0 0 0 0 10 with offset := 0 },
        { rawLIR 2 (.pseudo .label) 0 0 0 0 0 0 with offset := 4 }] := rfl

/-- `AssembleLIR` assembles `dataMethod` in one pass. -/
theorem assembleLIR_dataMethod : assembleLIR dataMethod = some dataMethodOut := by
  have hloop : assembleLoop (assignOffsets dataMethod) 0 ⟨[], .kSuccess, [], 31⟩ (assignOffsets dataMethod).lirs =
      some ⟨dataMethodDone.reverse, .kSuccess, dataMethodDone.flatMap LIR.emitted, 31⟩ := by
    rw [assignOffsets_dataMethod_lirs, assembleLoop_keep _ _ _ rfl rfl rfl rfl, assembleLoop_label _ _ _ rfl,
      assembleLoop_nil]
    rfl
  have hpass : assembleInstructions 0 (assignOffsets dataMethod) = some (.kSuccess, dataMethodOut) := by
    unfold assembleInstructions
    rw [show (assignOffsets dataMethod).code_buffer = [] from rfl,
      show (assignOffsets dataMethod).next_addr = 31 from rfl, hloop]
    rfl
  rw [assembleLIR, assembleLIRLoop, hpass]

theorem dataMethod_wellFormed : ∀ lir ∈ dataMethod.lirs, lir.WellFormed := by
  intro lir hlir
  simp only [dataMethod, List.mem_cons, List.not_mem_nil, or_false] at hlir
  rcases hlir with rfl | rfl
  · exact LIR.WellFormed.rawLIR (by decide) (by decide) (by decide) _ _ _ _ _ _
  · exact ⟨rfl, fun op hop => by cases hop⟩

/-! ### The data of the code `AssembleLIR` returns -/

/-- Where the entries of a packed switch stand in the bytes written for it:
    a displacement a word. -/
theorem switchTableBytes_packed (lirs : List LIR) (links : Nat → SwitchLinks) {tab_rec : DataTable}
    (hpacked : tab_rec.table.getD 0 0 ≠ kSparseSwitchSignature) {e : Nat}
    (he : e < (tab_rec.table.getD 1 0).toNat) :
    wordBytes (switchDisp lirs (links tab_rec.addr) e) <+: (switchTableBytes lirs links tab_rec).drop (4 * e) := by
  have hat := (Layout.abutting_range 4 (tab_rec.table.getD 1 0).toNat).prefix_drop
    (fun e => wordBytes (switchDisp lirs (links tab_rec.addr) e)) (fun _ _ => rfl) e (List.mem_range.mpr he)
  rw [Nat.sub_zero] at hat
  rwa [switchTableBytes, if_neg hpacked]

/-- Where the entries of a sparse switch stand: a key and a displacement, two
    words a case. -/
theorem switchTableBytes_sparse (lirs : List LIR) (links : Nat → SwitchLinks) {tab_rec : DataTable}
    (hsparse : tab_rec.table.getD 0 0 = kSparseSwitchSignature) {e : Nat}
    (he : e < (tab_rec.table.getD 1 0).toNat) :
    wordBytes (sparseKey tab_rec.table e) <+: (switchTableBytes lirs links tab_rec).drop (8 * e) ∧
      wordBytes (switchDisp lirs (links tab_rec.addr) e) <+: (switchTableBytes lirs links tab_rec).drop (8 * e + 4) := by
  have hat := (Layout.abutting_range 8 (tab_rec.table.getD 1 0).toNat).prefix_drop
    (fun e => wordBytes (sparseKey tab_rec.table e) ++ wordBytes (switchDisp lirs (links tab_rec.addr) e))
    (fun _ _ => rfl) e (List.mem_range.mpr he)
  rw [Nat.sub_zero] at hat
  have hbytes : switchTableBytes lirs links tab_rec = (List.range (tab_rec.table.getD 1 0).toNat).flatMap
      fun e => wordBytes (sparseKey tab_rec.table e) ++ wordBytes (switchDisp lirs (links tab_rec.addr) e) := by
    rw [switchTableBytes, if_pos hsparse]
  rw [hbytes]
  -- the key opens the case, and its displacement follows 4 bytes on
  have hdisp : wordBytes (switchDisp lirs (links tab_rec.addr) e) <+:
      (wordBytes (sparseKey tab_rec.table e) ++ wordBytes (switchDisp lirs (links tab_rec.addr) e)).drop 4 := by
    rw [List.drop_left' (length_wordBytes _)]
  exact ⟨(List.prefix_append _ _).trans hat, prefix_drop_drop hat hdisp⟩

theorem fillArrayDataBytes_unit (tab_rec : DataTable) {i : Nat} (hi : i < (tab_rec.size + 1) / 2) :
    [(tab_rec.table.getD i 0 &&& 0xFF).toUInt8, ((tab_rec.table.getD i 0 >>> 8) &&& 0xFF).toUInt8] <+:
      (fillArrayDataBytes tab_rec).drop (2 * i) := by
  have hat := (Layout.abutting_range 2 ((tab_rec.size + 1) / 2)).prefix_drop
    (fun i => [(tab_rec.table.getD i 0 &&& 0xFF).toUInt8, ((tab_rec.table.getD i 0 >>> 8) &&& 0xFF).toUInt8])
    (fun _ _ => rfl) i (List.mem_range.mpr hi)
  rwa [Nat.sub_zero] at hat

/-- An entry of a switch table added to the pc of its `add pc` gives the
    case's offset, in the processor's 32-bit arithmetic. -/
theorem switchDisp_add (lirs : List LIR) (links : SwitchLinks) (e : Nat) :
    (offsetOf lirs links.anchor + 4 + (switchDisp lirs links e).toNat) % 2 ^ 32 =
      offsetOf lirs (links.targets.getD e 0) % 2 ^ 32 := by
  have h := MachineWord.toNat_ofInt ((offsetOf lirs (links.targets.getD e 0) : Int) - (offsetOf lirs links.anchor + 4))
  unfold switchDisp
  omega

/-- The setting of `dataMethod`: method `idx`'s id lies at `0x7000 + idx`,
    and its switch dispatches from the label, both cases landing on it. -/
def dataMethodId (idx : UInt32) : UInt32 := 0x7000 + idx

/-- The links of the switch of `dataMethod`. -/
def dataLinks (_ : Nat) : SwitchLinks := ⟨2, [2, 2]⟩

section Returned

variable (method_id : UInt32 → UInt32) (links : Nat → SwitchLinks) (driver : Patches) {m m' : Mir2Lir}

/-- The installs after the last pass keep the code `AssembleLIR` returns in
    front, and write no further than the method's total size. -/
theorem assembleLIR_installData_code (h : assembleLIR m = some m') (hcode : m.code_buffer = [])
    (hwf : ∀ lir ∈ m.lirs, lir.WellFormed) :
    m'.code_buffer <+: (installData method_id links m' driver).1 ∧
      (installData method_id links m' driver).1.length ≤ m'.total_size := by
  have hm := assembleLIR_dataLaidOut h hcode hwf
  exact ⟨installData_keeps_code method_id links driver hm, (installData_placed method_id links driver hm).2.1⟩

/-- The installs of `dataMethod` end at its total size, 32 bytes. -/
theorem assembleLIR_installData_code_dataMethod :
    assembleLIR dataMethod = some dataMethodOut ∧ dataMethod.code_buffer = [] ∧
      (∀ lir ∈ dataMethod.lirs, lir.WellFormed) ∧
      (installData dataMethodId dataLinks dataMethodOut ⟨[], []⟩).1.length ≤ 32 :=
  ⟨assembleLIR_dataMethod, rfl, dataMethod_wellFormed,
    (assembleLIR_installData_code dataMethodId dataLinks ⟨[], []⟩ assembleLIR_dataMethod rfl
      dataMethod_wellFormed).2⟩

/-- In the code `AssembleLIR` returns, once installed, every literal's value
    is read back, little-endian, at the literal's offset. -/
theorem assembleLIR_installData_literal (h : assembleLIR m = some m') (hcode : m.code_buffer = [])
    (hwf : ∀ lir ∈ m.lirs, lir.WellFormed) :
    ∀ lit ∈ m'.literal_list, ByteList.readLE (installData method_id links m' driver).1 lit.offset 4 =
      some (UInt32.ofInt (lit.operand 0)).toNat := by
  have hm := assembleLIR_dataLaidOut h hcode hwf
  intro lit hlit
  exact readLE_of_wordBytes ((installData_literal_words method_id links driver hm).1 lit hlit)

/-- The literal of `dataMethod` is read back at offset 4. -/
theorem assembleLIR_installData_literal_dataMethod :
    assembleLIR dataMethod = some dataMethodOut ∧ dataMethod.code_buffer = [] ∧
      (∀ lir ∈ dataMethod.lirs, lir.WellFormed) ∧
      ByteList.readLE (installData dataMethodId dataLinks dataMethodOut ⟨[], []⟩).1 4 4 = some 0x12345678 :=
  ⟨assembleLIR_dataMethod, rfl, dataMethod_wellFormed,
    assembleLIR_installData_literal dataMethodId dataLinks ⟨[], []⟩ assembleLIR_dataMethod rfl
      dataMethod_wellFormed _ List.mem_cons_self⟩

/-- In the code `AssembleLIR` returns, once installed, every code and method
    literal is recorded with the driver as a patch at its offset, and the
    word at that offset is the method id the patch expects there. -/
theorem assembleLIR_installData_patches (h : assembleLIR m = some m') (hcode : m.code_buffer = [])
    (hwf : ∀ lir ∈ m.lirs, lir.WellFormed) :
    (installData method_id links m' driver).2 =
        ⟨driver.code_to_patch ++ m'.code_literal_list.map LIR.patchInformation,
          driver.methods_to_patch ++ m'.method_literal_list.map LIR.patchInformation⟩ ∧
      ∀ patch ∈ (m'.code_literal_list ++ m'.method_literal_list).map LIR.patchInformation,
        ByteList.readLE (installData method_id links m' driver).1 patch.literal_offset 4 =
          some (method_id patch.target_method_idx).toNat := by
  have hm := assembleLIR_dataLaidOut h hcode hwf
  refine ⟨by rw [installData_snd, installLiteralPools_eq _ _ hm], ?_⟩
  intro patch hpatch
  obtain ⟨lit, hlit, rfl⟩ := List.mem_map.mp hpatch
  exact readLE_of_wordBytes ((installData_literal_words method_id links driver hm).2 lit hlit)

/-- The code literal of `dataMethod` is recorded at offset 8, where the id
    of method 7 stands. -/
theorem assembleLIR_installData_patches_dataMethod :
    assembleLIR dataMethod = some dataMethodOut ∧ dataMethod.code_buffer = [] ∧
      (∀ lir ∈ dataMethod.lirs, lir.WellFormed) ∧
      (installData dataMethodId dataLinks dataMethodOut ⟨[], []⟩).2 = ⟨[⟨7, 2, 8⟩], []⟩ ∧
      ByteList.readLE (installData dataMethodId dataLinks dataMethodOut ⟨[], []⟩).1 8 4 = some 0x7007 := by
  obtain ⟨hpatches, hwords⟩ := assembleLIR_installData_patches dataMethodId dataLinks ⟨[], []⟩
    assembleLIR_dataMethod rfl dataMethod_wellFormed
  refine ⟨assembleLIR_dataMethod, rfl, dataMethod_wellFormed, ?_, hwords ⟨7, 2, 8⟩ (by decide)⟩
  rw [hpatches]
  rfl

/-- In the code `AssembleLIR` returns, once installed, every case of every
    switch table is dispatched to its target: the displacement read at the
    case's entry, added to the pc of the table's `add pc`, is the target's
    offset (in 32-bit arithmetic); a sparse switch's key stands before it. -/
theorem assembleLIR_installData_switch (h : assembleLIR m = some m') (hcode : m.code_buffer = [])
    (hwf : ∀ lir ∈ m.lirs, lir.WellFormed) {tab_rec : DataTable} (htab : tab_rec ∈ m'.switch_tables)
    {e : Nat} (he : e < (tab_rec.table.getD 1 0).toNat) :
    let out := (installData method_id links m' driver).1
    let entry := if tab_rec.table.getD 0 0 = kSparseSwitchSignature then tab_rec.offset + (8 * e + 4)
      else tab_rec.offset + 4 * e
    (tab_rec.table.getD 0 0 = kSparseSwitchSignature →
        ByteList.readLE out (tab_rec.offset + 8 * e) 4 = some (sparseKey tab_rec.table e).toNat) ∧
      ∃ disp, ByteList.readLE out entry 4 = some disp ∧
        (offsetOf m'.lirs (links tab_rec.addr).anchor + 4 + disp) % 2 ^ 32 =
          offsetOf m'.lirs ((links tab_rec.addr).targets.getD e 0) % 2 ^ 32 := by
  have hm := assembleLIR_dataLaidOut h hcode hwf
  obtain ⟨-, -, hat, -⟩ := installData_placed method_id links driver hm
  have htable := hat tab_rec htab
  intro out entry
  refine ⟨fun hsparse => readLE_of_wordBytes
      (prefix_drop_drop htable (switchTableBytes_sparse m'.lirs links hsparse he).1),
    (switchDisp m'.lirs (links tab_rec.addr) e).toNat, ?_, switchDisp_add _ _ _⟩
  -- the displacement is the second word of a sparse case, the only one of a packed one
  by_cases hsparse : tab_rec.table.getD 0 0 = kSparseSwitchSignature
  · simp only [entry, if_pos hsparse]
    exact readLE_of_wordBytes (prefix_drop_drop htable (switchTableBytes_sparse m'.lirs links hsparse he).2)
  · simp only [entry, if_neg hsparse]
    exact readLE_of_wordBytes (prefix_drop_drop htable (switchTableBytes_packed m'.lirs links hsparse he))

/-- The second case of the switch of `dataMethod` is read at offset 16 and
    lands on the label, at offset 4. -/
theorem assembleLIR_installData_switch_dataMethod :
    assembleLIR dataMethod = some dataMethodOut ∧ dataMethod.code_buffer = [] ∧
      (∀ lir ∈ dataMethod.lirs, lir.WellFormed) ∧ 1 < 2 ∧
      ∃ disp, ByteList.readLE (installData dataMethodId dataLinks dataMethodOut ⟨[], []⟩).1 16 4 = some disp ∧
        (4 + 4 + disp) % 2 ^ 32 = 4 :=
  ⟨assembleLIR_dataMethod, rfl, dataMethod_wellFormed, by decide,
    (assembleLIR_installData_switch dataMethodId dataLinks ⟨[], []⟩ assembleLIR_dataMethod rfl
      dataMethod_wellFormed List.mem_cons_self (e := 1) (by decide)).2⟩

/-- In the code `AssembleLIR` returns, once installed, every fill-array-data
    payload's code units are read back at its offset, two bytes a unit. -/
theorem assembleLIR_installData_fillArrayData (h : assembleLIR m = some m') (hcode : m.code_buffer = [])
    (hwf : ∀ lir ∈ m.lirs, lir.WellFormed) {tab_rec : DataTable} (htab : tab_rec ∈ m'.fill_array_data)
    {i : Nat} (hi : i < (tab_rec.size + 1) / 2) :
    ByteList.readLE (installData method_id links m' driver).1 (tab_rec.offset + 2 * i) 2 =
      some (tab_rec.table.getD i 0).toNat := by
  have hm := assembleLIR_dataLaidOut h hcode hwf
  obtain ⟨-, -, -, hat⟩ := installData_placed method_id links driver hm
  exact readLE_of_halfword (prefix_drop_drop (hat tab_rec htab) (fillArrayDataBytes_unit tab_rec hi))

/-- The first data unit of the payload of `dataMethod`, at offset 28. -/
theorem assembleLIR_installData_fillArrayData_dataMethod :
    assembleLIR dataMethod = some dataMethodOut ∧ dataMethod.code_buffer = [] ∧
      (∀ lir ∈ dataMethod.lirs, lir.WellFormed) ∧ 4 < 6 ∧
      ByteList.readLE (installData dataMethodId dataLinks dataMethodOut ⟨[], []⟩).1 28 2 = some 0x0201 :=
  ⟨assembleLIR_dataMethod, rfl, dataMethod_wellFormed, by decide,
    assembleLIR_installData_fillArrayData dataMethodId dataLinks ⟨[], []⟩ assembleLIR_dataMethod rfl
      dataMethod_wellFormed List.mem_cons_self (i := 4) (by decide)⟩

end Returned

end Arm

end ArtRuntime
