import ArtRuntime.Core.BinarySearch
import ArtRuntime.Verifier.FillArrayData

/-!
# packed-switch and sparse-switch

`packed-switch vAA, +BBBBBBBB` and `sparse-switch vAA, +BBBBBBBB` branch on
the `int32_t` in `vAA` through a table stored in the method's code as a
switch payload: a signature, a 16-bit `size`, then for a packed table the
first key and `size` branch offsets, and for a sparse table `size` keys and
`size` branch offsets, every key and offset an `int32_t` in two code units.

`MethodVerifier::CheckSwitchTargets` checks the payload: it starts inside
the code (an `int32_t` sum) and is 32-bit aligned, its signature is the
instruction's, it ends inside the code (a `uint32_t` sum), a sparse table's
keys increase strictly as `int32_t`, and each branch lands on an instruction
(`insn_flags_[abs_offset].IsOpcode()`, an `int32_t` sum again). The
interpreter then dispatches without a check of its own: `DoSparseSwitch` by
a binary search over the keys, and `PACKED_SWITCH` by the `int32_t`
difference of the test value and the first key.

On every payload the verifier accepts, both dispatch to the branch of the
case whose key is the test value, in two's complement for the packed keys
`first_key + i`, and to the next instruction when there is none; and every
branch lands on an instruction inside the method (`switch_dispatch_matches_table`).

## Main definitions

* `readWord`, `readWords`: The `int32_t` words of a payload.
* `checkKeysLoop`, `checkKeys`, `checkTargetsLoop`, `checkSwitchTargets`:
  `MethodVerifier::CheckSwitchTargets` with its two loops.
* `doSparseSwitch`, `executePackedSwitch`: The interpreter's dispatch.
* `SwitchTable`, `switchTableOf`: The cases a payload spells.
* `switchTarget`: Where a switch on a value is meant to go.

## Theorems

* `checkSwitchTargets_accepts`: What an accepted payload satisfies.
* `doSparseSwitch_eq`, `executePackedSwitch_eq`: On such a payload the
  interpreter goes where the table says.
* `switch_dispatch_matches_table`: Verified switches dispatch by their table
  to instructions of the method.
-/

namespace ArtRuntime

namespace Instruction

def PACKED_SWITCH : UInt8 := 0x2B
def SPARSE_SWITCH : UInt8 := 0x2C

end Instruction

namespace Switch

open Instruction MachineWord FillArrayData

/-! ### Payload words -/

/-- The `int32_t` a table stores at code unit `p`, as the word its two code
    units spell; `none` outside the code item. -/
def readWord (insns : List UInt16) (p : Int) : Option UInt32 := do
  let lo ← fetchAt insns p
  let hi ← fetchAt insns (p + 1)
  pure (fetch32 lo hi)

/-- The `n` words of a table from code unit `p`. -/
def readWords (insns : List UInt16) (p : Int) : Nat → Option (List UInt32)
  | 0 => some []
  | n + 1 => do
    let w ← readWord insns p
    let ws ← readWords insns (p + 2) n
    pure (w :: ws)

/-! ### The verifier -/

/-- The key loop of `CheckSwitchTargets`: from `targ` on, each key of the
    table at `keys` must be above the one before, as `int32_t`. -/
def checkKeysLoop (insns : List UInt16) (keys : Int) (switch_count : Nat) (last_key : UInt32)
    (targ : Nat) : Option Bool :=
  if targ < switch_count then do
    let key ← readWord insns (keys + 2 * targ)
    if key.toInt32 ≤ last_key.toInt32 then pure false
    else checkKeysLoop insns keys switch_count key (targ + 1)
  else pure true
termination_by switch_count - targ

/-- The target loop of `CheckSwitchTargets`: from `targ` on, each branch
    offset of the table at `targets`, added to `cur_offset` as `uint32_t` and
    read back as `int32_t`, must land inside the code on an instruction. -/
def checkTargetsLoop (insns : List UInt16) (isOpcode : Nat → Bool) (insn_count cur_offset : UInt32)
    (targets : Int) (switch_count : Nat) (targ : Nat) : Option Bool :=
  if targ < switch_count then do
    let offset ← readWord insns (targets + 2 * targ)
    let abs_offset := (cur_offset + offset).toInt32
    if abs_offset < 0 ∨ abs_offset ≥ insn_count.toInt32 ∨ !isOpcode abs_offset.toInt.toNat then
      pure false
    else checkTargetsLoop insns isOpcode insn_count cur_offset targets switch_count (targ + 1)
  else pure true
termination_by switch_count - targ

/-- The key check of `CheckSwitchTargets`, made when `keys_offset` is
    positive (a sparse table) and there is more than one key. -/
def checkKeys (insns : List UInt16) (switch_insns keys_offset : Int) (switch_count : Nat) :
    Option Bool :=
  if keys_offset > 0 ∧ 1 < switch_count then do
    let last_key ← readWord insns (switch_insns + keys_offset)
    checkKeysLoop insns (switch_insns + keys_offset) switch_count last_key 1
  else pure true

/-- `MethodVerifier::CheckSwitchTargets` for the switch at `cur_offset`, in a
    code item at address `insnsAddr`; `isOpcode` is `insn_flags_`'s
    `IsOpcode`, and `false` a hard failure. The start check is `int32_t`
    arithmetic and the end check `uint32_t`; the table is at the pointer
    `insns + switch_offset`. -/
def checkSwitchTargets (code : CodeItem) (insnsAddr : Nat) (isOpcode : Nat → Bool)
    (cur_offset : UInt32) : Option Bool := do
  let insn_count := code.insnsSize
  let switch_offset ← vRegB31t code.insns cur_offset.toNat
  if cur_offset.toInt32 + switch_offset.toInt32 < 0 ∨ cur_offset + switch_offset + 2 ≥ insn_count then
    pure false
  else
    let switch_insns : Int := cur_offset.toNat + switch_offset.toInt32.toInt
    if (insnsAddr + 2 * switch_insns) % 4 ≠ 0 then pure false
    else
      let count ← fetchAt code.insns (switch_insns + 1)
      let switch_count := count.toUInt32
      let inst ← code.insns[cur_offset.toNat]?
      let packed := opcode inst = PACKED_SWITCH
      let targets_offset : UInt32 := if packed then 4 else 2 + 2 * switch_count
      let keys_offset : Int := if packed then -1 else 2
      let expected_signature := if packed then kPackedSwitchSignature else kSparseSwitchSignature
      let table_size := targets_offset + switch_count * 2
      let signature ← fetchAt code.insns switch_insns
      if signature ≠ expected_signature then pure false
      else if cur_offset + switch_offset + table_size > insn_count then pure false
      else
        let keys_ok ← checkKeys code.insns switch_insns keys_offset switch_count.toNat
        if !keys_ok then pure false
        else
          checkTargetsLoop code.insns isOpcode insn_count cur_offset
            (switch_insns + targets_offset.toNat) switch_count.toNat 0

/-! ### The interpreter -/

/-- `DoSparseSwitch` at `pc`, with `test_val` the value of `vAA`: the binary
    search over the keys, then `RelativeAt(entries[mid])` for the key found
    and `Next_3xx()` when there is none. The keys and entries are read as
    whole tables; a read past the code item is `none`. -/
def doSparseSwitch (insns : List UInt16) (pc : Nat) (test_val : Int32) : Option Int := do
  let offset ← vRegB31t insns pc
  let switch_data : Int := pc + offset.toInt32.toInt
  let size ← fetchAt insns (switch_data + 1)
  let keys ← readWords insns (switch_data + 2) size.toNat
  let entries ← readWords insns (switch_data + 2 + 2 * size.toNat) size.toNat
  let cmp := fun foundVal : UInt32 =>
    if test_val < foundVal.toInt32 then Ordering.lt
    else if test_val > foundVal.toInt32 then .gt
    else .eq
  match BinarySearch.binarySearch (fun i => keys.getD i 0) cmp size.toNat with
  | some mid => pure (pc + (entries.getD mid 0).toInt32.toInt)
  | none => pure (pc + 3)

/-- The interpreter's `PACKED_SWITCH` at `pc`: the `int32_t` difference of
    the test value and the first key indexes the targets when it lies below
    `size`. -/
def executePackedSwitch (insns : List UInt16) (pc : Nat) (test_val : Int32) : Option Int := do
  let offset ← vRegB31t insns pc
  let switch_data : Int := pc + offset.toInt32.toInt
  let size ← fetchAt insns (switch_data + 1)
  let first_key ← readWord insns (switch_data + 2)
  let index := test_val - first_key.toInt32
  if index ≥ 0 ∧ index.toInt < size.toNat then do
    let target ← readWord insns (switch_data + 4 + 2 * index.toInt)
    pure (pc + target.toInt32.toInt)
  else pure (pc + 3)

/-! ### What a switch means -/

/-- The cases of a switch payload: the keys in order and their branch
    offsets. A packed payload stores its first key, the others following it
    one by one. -/
structure SwitchTable where
  keys : List Int32
  targets : List Int32

/-- The table of the payload at code unit `s`. -/
def switchTableAt (insns : List UInt16) (s : Int) (packed : Bool) : Option SwitchTable := do
  let size ← fetchAt insns (s + 1)
  let keys ← if packed then do
      let first_key ← readWord insns (s + 2)
      pure ((List.range size.toNat).map fun i => first_key.toInt32 + Int32.ofNat i)
    else (readWords insns (s + 2) size.toNat).map (List.map UInt32.toInt32)
  let targets ← readWords insns (s + if packed then 4 else 2 + 2 * size.toNat) size.toNat
  pure ⟨keys, targets.map UInt32.toInt32⟩

/-- The table of the switch at `pc`, at the offset its instruction names. -/
def switchTableOf (insns : List UInt16) (pc : Nat) (packed : Bool) : Option SwitchTable := do
  let offset ← vRegB31t insns pc
  switchTableAt insns (pc + offset.toInt32.toInt) packed

/-- Where a switch at `pc` on `v` is meant to go: the branch of the first
    case whose key is `v`, and the next instruction when no key is. -/
def switchTarget (t : SwitchTable) (pc : Nat) (v : Int32) : Int :=
  match (t.keys.findIdx? fun k => decide (k = v)).bind fun i => t.targets[i]? with
  | some offset => pc + offset.toInt
  | none => pc + 3

/-! ### Reading payload words -/

theorem fetchAt_eq_some {insns : List UInt16} {i : Int} {u : UInt16} (h : fetchAt insns i = some u) :
    0 ≤ i ∧ i < insns.length := by
  unfold fetchAt at h
  split at h
  · rename_i h0
    exact ⟨h0, by have := (List.getElem?_eq_some_iff.mp h).1; omega⟩
  · cases h

theorem readWord_isSome (insns : List UInt16) (p : Int) (h0 : 0 ≤ p) (h1 : p + 1 < insns.length) :
    ∃ w, readWord insns p = some w := by
  obtain ⟨lo, hlo⟩ := fetchAt_isSome insns p.toNat (by omega)
  obtain ⟨hi, hhi⟩ := fetchAt_isSome insns (p.toNat + 1) (by omega)
  rw [Int.toNat_of_nonneg h0] at hlo
  push_cast at hhi
  rw [Int.toNat_of_nonneg h0] at hhi
  exact ⟨fetch32 lo hi, by simp only [readWord, hlo, hhi, Option.bind_eq_bind, Option.bind_some]; rfl⟩

theorem readWords_length {insns : List UInt16} {p : Int} {n : Nat} {ws : List UInt32}
    (h : readWords insns p n = some ws) : ws.length = n := by
  induction n generalizing p ws with
  | zero =>
    cases h
    rfl
  | succ n ih =>
    simp only [readWords, Option.bind_eq_bind, Option.bind_eq_some_iff, Option.pure_def,
      Option.some.injEq] at h
    obtain ⟨w, -, rest, hrest, rfl⟩ := h
    rw [List.length_cons, ih hrest]

/-- The `i`-th word read is the word at `p + 2 * i`. -/
theorem readWords_getElem {insns : List UInt16} {p : Int} {n : Nat} {ws : List UInt32}
    (h : readWords insns p n = some ws) {i : Nat} (hi : i < ws.length) :
    readWord insns (p + 2 * i) = some ws[i] := by
  induction n generalizing p ws i with
  | zero =>
    cases h
    exact absurd hi (Nat.not_lt_zero i)
  | succ n ih =>
    simp only [readWords, Option.bind_eq_bind, Option.bind_eq_some_iff, Option.pure_def,
      Option.some.injEq] at h
    obtain ⟨w, hw, rest, hrest, rfl⟩ := h
    cases i with
    | zero => simpa using hw
    | succ i =>
      have := ih hrest (i := i) (by simpa using hi)
      rw [show p + 2 * ((i + 1 : Nat) : Int) = p + 2 + 2 * i by push_cast; ring]
      simpa using this

/-- Words inside the code item are read. -/
theorem readWords_isSome (insns : List UInt16) (p : Int) (n : Nat) (h0 : 0 ≤ p)
    (h1 : p + 2 * n ≤ insns.length) : ∃ ws, readWords insns p n = some ws := by
  induction n generalizing p with
  | zero => exact ⟨[], rfl⟩
  | succ n ih =>
    obtain ⟨w, hw⟩ := readWord_isSome insns p h0 (by omega)
    obtain ⟨ws, hws⟩ := ih (p + 2) (by omega) (by omega)
    exact ⟨w :: ws, by simp only [readWords, hw, hws, Option.bind_eq_bind, Option.bind_some]; rfl⟩

/-! ### What the verifier's loops establish -/

/-- The key loop passes only on keys each above the one before, from
    `last_key` on. -/
theorem checkKeysLoop_sorted {insns : List UInt16} {keys : Int} {n : Nat} {last_key : UInt32}
    {targ : Nat} (h : checkKeysLoop insns keys n last_key targ = some true) :
    ∃ ws, readWords insns (keys + 2 * targ) (n - targ) = some ws ∧
      ((last_key :: ws).map fun w => w.toInt32.toInt).Pairwise (· < ·) := by
  revert h
  fun_induction checkKeysLoop insns keys n last_key targ with
  | case1 last_key targ hlt ih =>
    intro h
    cases hkey : readWord insns (keys + 2 * targ) with
    | none =>
      rw [hkey] at h
      cases h
    | some key =>
      simp only [hkey, Option.bind_eq_bind, Option.bind_some] at h
      split at h
      · cases h
      rename_i hgt
      obtain ⟨ws, hws, hsorted⟩ := ih key h
      have hkl : last_key.toInt32.toInt < key.toInt32.toInt :=
        Int32.lt_iff_toInt_lt.mp (Int32.not_le.mp hgt)
      refine ⟨key :: ws, ?_, ?_⟩
      · rw [show n - targ = n - (targ + 1) + 1 by omega, readWords, hkey,
          show keys + 2 * (targ : Int) + 2 = keys + 2 * ((targ + 1 : Nat) : Int) by push_cast; ring, hws]
        rfl
      · -- the key is above `last_key`, and every later key is above the key
        rw [List.map_cons, List.pairwise_cons]
        refine ⟨fun b hb => ?_, hsorted⟩
        rw [List.map_cons, List.mem_cons] at hb
        rw [List.map_cons, List.pairwise_cons] at hsorted
        rcases hb with rfl | hb
        · exact hkl
        · exact hkl.trans (hsorted.1 b hb)
  | case2 last_key targ hge =>
    intro _
    refine ⟨[], ?_, List.pairwise_singleton _ _⟩
    rw [show n - targ = 0 by omega]
    rfl

/-- The target loop passes only when every branch offset from `targ` on
    lands, as its `int32_t` sum with `cur_offset`, inside the code on an
    instruction. -/
theorem checkTargetsLoop_lands {insns : List UInt16} {isOpcode : Nat → Bool}
    {insn_count cur_offset : UInt32} {targets : Int} {n targ : Nat}
    (h : checkTargetsLoop insns isOpcode insn_count cur_offset targets n targ = some true) :
    ∀ i, targ ≤ i → i < n → ∃ w, readWord insns (targets + 2 * i) = some w ∧
      0 ≤ (cur_offset + w).toInt32.toInt ∧
      (cur_offset + w).toInt32.toInt < insn_count.toInt32.toInt ∧
      isOpcode (cur_offset + w).toInt32.toInt.toNat = true := by
  revert h
  fun_induction checkTargetsLoop insns isOpcode insn_count cur_offset targets n targ with
  | case1 targ hlt ih =>
    intro h i hi hin
    cases hoff : readWord insns (targets + 2 * targ) with
    | none =>
      rw [hoff] at h
      cases h
    | some offset =>
      simp only [hoff, Option.bind_eq_bind, Option.bind_some] at h
      split at h
      · cases h
      rename_i hok
      rcases Nat.lt_or_eq_of_le hi with hi | rfl
      · exact ih h i hi hin
      · -- the offset at `targ` passed the three checks
        simp only [not_or, Bool.not_eq_true', Bool.not_eq_false, Int32.not_lt, Int32.not_le] at hok
        refine ⟨offset, hoff, ?_, ?_, ?_⟩
        · exact Int32.le_iff_toInt_le.mp hok.1
        · exact Int32.lt_iff_toInt_lt.mp hok.2.1
        · simpa using hok.2.2
  | case2 targ hge =>
    intro _ i hi hin
    omega

/-! ### The verifier's arithmetic -/

/-- The start check: a table start that the `int32_t` sum finds non-negative
    and that lies below `2 ^ 32` lies below `2 ^ 31`. A start from `2 ^ 31`
    wraps to a negative `int32_t`. -/
theorem switchStart_lt {cur offset : UInt32} (h : ¬ cur.toInt32 + offset.toInt32 < 0)
    (h0 : 0 ≤ (cur.toNat : Int) + offset.toInt32.toInt)
    (h1 : (cur.toNat : Int) + offset.toInt32.toInt < 2 ^ 32) :
    (cur.toNat : Int) + offset.toInt32.toInt < 2 ^ 31 := by
  rw [Int32.lt_iff_toInt_lt, Int32.toInt_add, Int32.toInt_zero, Int.bmod_def] at h
  have hc := toInt_toInt32 cur
  have hcl := cur.toNat_lt
  split at hc <;> split at h <;> omega

/-- The target check: a branch whose `uint32_t` sum with the position, read
    as `int32_t`, lies in `[0, insn_count)` lands at the integer sum. A
    positive `int32_t` count is below `2 ^ 31`, so the position is too, and
    a sum from `2 ^ 31` would be negative. -/
theorem toInt_add_of_lands {cur offset insn_count : UInt32} (h0 : 0 ≤ (cur + offset).toInt32.toInt)
    (hlt : (cur + offset).toInt32.toInt < insn_count.toInt32.toInt)
    (hcur : cur.toNat < insn_count.toNat) :
    (cur + offset).toInt32.toInt = cur.toNat + offset.toInt32.toInt := by
  have hcount : insn_count.toNat < 2 ^ 31 := by
    have hbound := insn_count.toNat_lt
    have hsigned := toInt_toInt32 insn_count
    split at hsigned <;> omega
  have hsum : (cur + offset).toInt32 = cur.toInt32 + offset.toInt32 := rfl
  have hnn : ¬ cur.toInt32 + offset.toInt32 < 0 := by
    rw [← hsum, Int32.not_lt, Int32.le_iff_toInt_le]
    exact h0
  obtain ⟨hs0, hs1⟩ := add_toInt32_nonneg cur offset (by omega) hnn
  have hnat := toNat_add_toInt32 cur offset hs0 (by omega)
  rw [toInt_toInt32_of_lt (cur + offset) (by omega), hnat]

/-- What `CheckSwitchTargets` establishes of a switch it accepts: the table
    starts at the position plus the signed offset, below `2 ^ 31`; it ends
    inside the code; the key check passed; and the target loop passed. -/
theorem checkSwitchTargets_accepts {code : CodeItem} {insnsAddr : Nat} {isOpcode : Nat → Bool}
    {cur : UInt32} (h : checkSwitchTargets code insnsAddr isOpcode cur = some true) :
    ∃ offset inst count, vRegB31t code.insns cur.toNat = some offset ∧
      code.insns[cur.toNat]? = some inst ∧
      0 ≤ (cur.toNat : Int) + offset.toInt32.toInt ∧
      (cur.toNat : Int) + offset.toInt32.toInt < 2 ^ 31 ∧
      fetchAt code.insns (cur.toNat + offset.toInt32.toInt + 1) = some count ∧
      (cur.toNat : Int) + offset.toInt32.toInt +
          (if opcode inst = PACKED_SWITCH then 4 + 2 * count.toNat else 2 + 4 * count.toNat) ≤
        code.insns.length ∧
      checkKeys code.insns (cur.toNat + offset.toInt32.toInt)
        (if opcode inst = PACKED_SWITCH then -1 else 2) count.toNat = some true ∧
      checkTargetsLoop code.insns isOpcode code.insnsSize cur
        (cur.toNat + offset.toInt32.toInt +
          (if opcode inst = PACKED_SWITCH then 4 else 2 + 2 * count.toNat)) count.toNat 0 =
        some true := by
  unfold checkSwitchTargets at h
  simp only [Option.bind_eq_bind, Option.bind_eq_some_iff] at h
  obtain ⟨offset, hoff, h⟩ := h
  split at h
  · simp at h
  rename_i hstart
  rw [not_or] at hstart
  split at h
  · simp at h
  simp only [Option.bind_eq_some_iff] at h
  obtain ⟨count, hcount, inst, hinst, signature, hsig, h⟩ := h
  -- the table starts inside the code, below `2 ^ 31`
  have ⟨hs0, hslen⟩ := fetchAt_eq_some hsig
  have hs31 := switchStart_lt hstart.1 hs0 (by have := code.size_lt; omega)
  have hsum := toNat_add_toInt32 cur offset hs0 (by omega)
  refine ⟨offset, inst, count, hoff, hinst, hs0, hs31, hcount, ?_⟩
  -- the rest reads the same for both kinds of table, with their own sizes
  by_cases hp : opcode inst = PACKED_SWITCH <;> simp only [hp, if_true, if_false] at h ⊢
  all_goals
    split at h
    · cases h
    split at h
    · cases h
    rename_i hend
    obtain ⟨keys_ok, hkeys, h⟩ := Option.bind_eq_some_iff.mp h
    split at h
    · cases h
    rename_i hok
    rw [Bool.not_eq_true', Bool.not_eq_false] at hok
    subst hok
    have hc := count.toNat_lt
    rw [gt_iff_lt, UInt32.lt_iff_toNat_lt, not_lt] at hend
    generalize cur + offset = start at hend hsum
    simp only [UInt32.toNat_add, UInt32.toNat_mul, UInt16.toNat_toUInt32, UInt32.reduceToNat,
      toNat_insnsSize] at hend h hkeys
    refine ⟨by omega, hkeys, ?_⟩
    convert h using 3 <;> omega

/-- A key loop that passed over a table read whole: its keys increase
    strictly as `int32_t`. Tables of one key or none are not checked, and
    need not be. -/
theorem checkKeys_sorted {insns : List UInt16} {s : Int} {n : Nat} {keys : List UInt32}
    (h : checkKeys insns s 2 n = some true) (hkeys : readWords insns (s + 2) n = some keys) :
    (keys.map fun w => w.toInt32.toInt).Pairwise (· < ·) := by
  unfold checkKeys at h
  split at h
  · rename_i hn
    obtain ⟨last_key, hlast, hloop⟩ := Option.bind_eq_some_iff.mp h
    obtain ⟨ws, hws, hsorted⟩ := checkKeysLoop_sorted hloop
    -- the table is the first key and the ones the loop read
    obtain ⟨m, rfl⟩ : ∃ m, n = m + 1 := ⟨n - 1, by omega⟩
    have hws' : readWords insns (s + 2 + 2) m = some ws := by simpa using hws
    have hall : readWords insns (s + 2) (m + 1) = some (last_key :: ws) := by
      simp only [readWords, hlast, hws', Option.bind_eq_bind, Option.bind_some]
      rfl
    rw [hkeys, Option.some_inj] at hall
    rw [hall]
    exact hsorted
  · -- at most one key
    rename_i hn
    have hlen := readWords_length hkeys
    match keys, hlen with
    | [], _ => exact List.Pairwise.nil
    | [_], _ => exact List.pairwise_singleton _ _
    | _ :: _ :: _, hlen => simp at hlen; omega

/-- Every branch of a table the target loop passed over lands on an
    instruction inside the code, at the integer sum of the switch's position
    and the offset. -/
theorem checkTargetsLoop_targets {insns : List UInt16} {isOpcode : Nat → Bool}
    {insn_count cur : UInt32} {t : Int} {n : Nat} {targets : List UInt32}
    (h : checkTargetsLoop insns isOpcode insn_count cur t n 0 = some true)
    (htargets : readWords insns t n = some targets) (hcur : cur.toNat < insn_count.toNat) :
    ∀ w ∈ targets, isOpcode (cur.toNat + w.toInt32.toInt).toNat = true ∧
      0 ≤ (cur.toNat : Int) + w.toInt32.toInt ∧ (cur.toNat : Int) + w.toInt32.toInt < insn_count.toNat := by
  intro w hw
  obtain ⟨i, hi, rfl⟩ := List.getElem_of_mem hw
  have hlen := readWords_length htargets
  obtain ⟨w', hw', h0, hlt, hop⟩ := checkTargetsLoop_lands h i (Nat.zero_le i) (by omega)
  rw [readWords_getElem htargets hi, Option.some_inj] at hw'
  subst hw'
  have hland := toInt_add_of_lands h0 hlt hcur
  have hcount := toInt_toInt32 insn_count
  rw [← hland]
  refine ⟨hop, h0, ?_⟩
  split at hcount <;> omega

/-! ### The interpreter on a verified table -/

/-- `DoSparseSwitch`'s comparison orders the test value against each key as
    `int32_t`. -/
theorem comparesTo_key (v : Int32) :
    BinarySearch.ComparesTo
      (fun foundVal : UInt32 =>
        if v < foundVal.toInt32 then Ordering.lt else if v > foundVal.toInt32 then .gt else .eq)
      (fun w : UInt32 => w.toInt32.toInt) v.toInt := by
  constructor
  · intro e
    by_cases h1 : v < e.toInt32
    · rw [if_pos h1]
      exact ⟨nofun, fun h => absurd h (not_lt.mpr (Int32.lt_iff_toInt_lt.mp h1).le)⟩
    · by_cases h2 : v > e.toInt32
      · rw [if_neg h1, if_pos h2]
        exact ⟨fun _ => Int32.lt_iff_toInt_lt.mp h2, fun _ => rfl⟩
      · rw [if_neg h1, if_neg h2]
        exact ⟨nofun, fun h => absurd (Int32.lt_iff_toInt_lt.mpr h) h2⟩
  · intro e
    by_cases h1 : v < e.toInt32
    · rw [if_pos h1]
      exact ⟨fun _ => Int32.lt_iff_toInt_lt.mp h1, fun _ => rfl⟩
    · rw [if_neg h1]
      refine ⟨fun h => ?_, fun h => absurd (Int32.lt_iff_toInt_lt.mpr h) h1⟩
      split at h <;> cases h

/-- On a sparse table of strictly increasing keys, `DoSparseSwitch` goes
    where the table says. -/
theorem doSparseSwitch_eq {insns : List UInt16} {pc : Nat} {offset : UInt32} {count : UInt16}
    {keys entries : List UInt32} (v : Int32) (hoff : vRegB31t insns pc = some offset)
    (hcount : fetchAt insns (pc + offset.toInt32.toInt + 1) = some count)
    (hkeys : readWords insns (pc + offset.toInt32.toInt + 2) count.toNat = some keys)
    (hentries : readWords insns (pc + offset.toInt32.toInt + 2 + 2 * count.toNat) count.toNat =
      some entries)
    (hsorted : (keys.map fun w => w.toInt32.toInt).Pairwise (· < ·)) :
    doSparseSwitch insns pc v =
      some (switchTarget ⟨keys.map UInt32.toInt32, entries.map UInt32.toInt32⟩ pc v) := by
  have hlen := readWords_length hkeys
  have hlen' := readWords_length hentries
  have hs : BinarySearch.StrictlyIncreasing (fun i => keys.getD i 0) (fun w => w.toInt32.toInt)
      count.toNat := by
    intro i hi
    have := List.pairwise_iff_getElem.mp hsorted i (i + 1) (by simp; omega) (by simp; omega)
      (Nat.lt_succ_self i)
    show (keys.getD i 0).toInt32.toInt < (keys.getD (i + 1) 0).toInt32.toInt
    rw [List.getD_eq_getElem _ _ (by omega), List.getD_eq_getElem _ _ (by omega)]
    simpa using this
  have hloc := BinarySearch.binarySearch_locates (comparesTo_key v) hs
  -- the search finds the first key equal to the test value
  have hfind := hloc.findIdx_eq (l := keys.map UInt32.toInt32) (by rw [List.length_map, hlen])
    (p := fun k => decide (k = v)) fun i hi => by
      rw [List.length_map] at hi
      simp [List.getElem?_eq_getElem hi, ← Int32.toInt_inj]
  simp only [doSparseSwitch, hoff, hcount, hkeys, hentries, Option.bind_eq_bind, Option.bind_some]
  unfold switchTarget
  rw [hfind]
  cases hr : BinarySearch.binarySearch (fun i => keys.getD i 0) _ count.toNat with
  | none => rfl
  | some mid =>
    have hmid := ((hloc.1 mid).mp hr).1
    simp [show mid < entries.length by omega]

/-- On a packed table, `PACKED_SWITCH` goes where the table says: the
    `int32_t` difference of the test value and the first key is the one
    case `i` whose key `first_key + i` is the test value. -/
theorem executePackedSwitch_eq {insns : List UInt16} {pc : Nat} {offset first : UInt32}
    {count : UInt16} {targets : List UInt32} (v : Int32) (hoff : vRegB31t insns pc = some offset)
    (hcount : fetchAt insns (pc + offset.toInt32.toInt + 1) = some count)
    (hfirst : readWord insns (pc + offset.toInt32.toInt + 2) = some first)
    (htargets : readWords insns (pc + offset.toInt32.toInt + 4) count.toNat = some targets) :
    executePackedSwitch insns pc v =
      some (switchTarget ⟨(List.range count.toNat).map fun i => first.toInt32 + Int32.ofNat i,
        targets.map UInt32.toInt32⟩ pc v) := by
  have hlen := readWords_length htargets
  have hc := count.toNat_lt
  -- key `i` is the test value exactly when `i` is the difference
  have hkey : ∀ i, i < count.toNat → (first.toInt32 + Int32.ofNat i = v ↔
      (v - first.toInt32).toInt = i) := by
    intro i hi
    rw [Int32.add_comm, eq_comm, ← Int32.sub_eq_iff_eq_add, ← Int32.toInt_inj,
      Int32.toInt_ofNat_of_lt (by omega)]
  have hloc : BinarySearch.Locates
      (if 0 ≤ (v - first.toInt32).toInt ∧ (v - first.toInt32).toInt < count.toNat then
        some (v - first.toInt32).toInt.toNat else none)
      count.toNat fun i => first.toInt32 + Int32.ofNat i = v := by
    constructor
    · intro i
      split
      · rename_i hin
        rw [Option.some_inj]
        constructor
        · rintro rfl
          exact ⟨by omega, (hkey _ (by omega)).mpr (by omega)⟩
        · rintro ⟨hi, hk⟩
          have := (hkey i hi).mp hk
          omega
      · rename_i hout
        simp only [reduceCtorEq, false_iff, not_and]
        intro hi hk
        have := (hkey i hi).mp hk
        omega
    · split
      · rename_i hin
        simp only [reduceCtorEq, false_iff, not_forall, not_not]
        exact ⟨(v - first.toInt32).toInt.toNat, by omega, (hkey _ (by omega)).mpr (by omega)⟩
      · rename_i hout
        simp only [true_iff]
        intro i hi hk
        have := (hkey i hi).mp hk
        omega
  have hfind := hloc.findIdx_eq
    (l := (List.range count.toNat).map fun i => first.toInt32 + Int32.ofNat i) (by simp)
    (p := fun k => decide (k = v)) fun i hi => by simp
  simp only [executePackedSwitch, hoff, hcount, hfirst, Option.bind_eq_bind, Option.bind_some]
  unfold switchTarget
  rw [hfind]
  have hzero : ∀ x : Int32, 0 ≤ x ↔ 0 ≤ x.toInt := fun x => by
    rw [Int32.le_iff_toInt_le, Int32.toInt_zero]
  by_cases hin : 0 ≤ (v - first.toInt32).toInt ∧ (v - first.toInt32).toInt < count.toNat
  · -- the target read is the table's entry at the difference
    have hidx : ((v - first.toInt32).toInt.toNat : Int) = (v - first.toInt32).toInt := by omega
    have hlt : (v - first.toInt32).toInt.toNat < targets.length := by omega
    have hread := readWords_getElem htargets hlt
    rw [hidx] at hread
    rw [if_pos hin, if_pos ⟨(hzero _).mpr hin.1, hin.2⟩, hread, Option.bind_some, Option.bind_some,
      List.getElem?_map, List.getElem?_eq_getElem hlt, Option.map_some]
    rfl
  · rw [if_neg hin, if_neg fun h => hin ⟨(hzero _).mp h.1, h.2⟩]
    rfl

/-! ### Verified switches -/

/-- Switches in verified code dispatch by their table: for every switch
    `CheckSwitchTargets` accepts, the payload spells a table, with the keys
    of a sparse one increasing strictly, every branch of which lands on an
    instruction inside the method; and on every test value the interpreter's
    `PACKED_SWITCH` and `DoSparseSwitch` go to the branch of the case whose
    key is the value, and to the next instruction when there is none. -/
theorem switch_dispatch_matches_table (code : CodeItem) (insnsAddr : Nat) (isOpcode : Nat → Bool)
    (cur : UInt32) (h : checkSwitchTargets code insnsAddr isOpcode cur = some true) :
    ∃ inst table, code.insns[cur.toNat]? = some inst ∧
      switchTableOf code.insns cur.toNat (opcode inst = PACKED_SWITCH) = some table ∧
      table.keys.length = table.targets.length ∧
      (opcode inst ≠ PACKED_SWITCH → (table.keys.map Int32.toInt).Pairwise (· < ·)) ∧
      (∀ offset ∈ table.targets, isOpcode (cur.toNat + offset.toInt).toNat = true ∧
        0 ≤ (cur.toNat : Int) + offset.toInt ∧ (cur.toNat : Int) + offset.toInt < code.insns.length) ∧
      ∀ v, (opcode inst = PACKED_SWITCH →
          executePackedSwitch code.insns cur.toNat v = some (switchTarget table cur.toNat v)) ∧
        (opcode inst = SPARSE_SWITCH →
          doSparseSwitch code.insns cur.toNat v = some (switchTarget table cur.toNat v)) := by
  obtain ⟨offset, inst, count, hoff, hinst, hs0, -, hcount, hend, hkeys, hloop⟩ :=
    checkSwitchTargets_accepts h
  have hcur : cur.toNat < code.insnsSize.toNat := by
    have := vRegB31t_lt _ _ _ hoff
    rw [toNat_insnsSize]
    omega
  -- every branch the target loop passed lands on an instruction
  have hland : ∀ (t : Int) (targets : List UInt32),
      checkTargetsLoop code.insns isOpcode code.insnsSize cur t count.toNat 0 = some true →
      readWords code.insns t count.toNat = some targets →
      ∀ offset ∈ targets.map UInt32.toInt32, isOpcode (cur.toNat + offset.toInt).toNat = true ∧
        0 ≤ (cur.toNat : Int) + offset.toInt ∧ (cur.toNat : Int) + offset.toInt < code.insns.length := by
    intro t targets hl ht offset hmem
    obtain ⟨w, hw, rfl⟩ := List.mem_map.mp hmem
    have := checkTargetsLoop_targets hl ht hcur w hw
    rwa [toNat_insnsSize] at this
  by_cases hp : opcode inst = PACKED_SWITCH
  · -- a packed table: the first key, then the branches from unit 4
    simp only [hp, if_true] at hend hloop
    obtain ⟨first, hfirst⟩ := readWord_isSome code.insns (cur.toNat + offset.toInt32.toInt + 2)
      (by omega) (by omega)
    obtain ⟨targets, htargets⟩ := readWords_isSome code.insns (cur.toNat + offset.toInt32.toInt + 4)
      count.toNat (by omega) (by omega)
    refine ⟨inst, ⟨(List.range count.toNat).map fun i => first.toInt32 + Int32.ofNat i,
      targets.map UInt32.toInt32⟩, hinst, ?_, ?_, fun hne => absurd hp hne,
      hland _ targets (by simpa using hloop) htargets, fun v => ⟨fun _ => ?_, fun hsp => ?_⟩⟩
    · have htargets' : readWords code.insns (cur.toNat + offset.toInt32.toInt + ((4 : Nat) : Int))
          count.toNat = some targets := by
        rw [← htargets, Nat.cast_ofNat]
      simp only [switchTableOf, switchTableAt, hoff, hcount, hfirst, htargets', hp, decide_true,
        if_true, Option.bind_eq_bind, Option.bind_some, Option.pure_def]
    · simp [readWords_length htargets]
    · exact executePackedSwitch_eq v hoff hcount hfirst htargets
    · exact absurd (hp.symm.trans hsp) (by decide)
  · -- a sparse table: the keys, then the branches
    simp only [hp, if_false] at hend hkeys hloop
    obtain ⟨keys, hkeys'⟩ := readWords_isSome code.insns (cur.toNat + offset.toInt32.toInt + 2)
      count.toNat (by omega) (by omega)
    obtain ⟨targets, htargets⟩ := readWords_isSome code.insns
      (cur.toNat + offset.toInt32.toInt + 2 + 2 * count.toNat) count.toNat (by omega) (by omega)
    have hsorted := checkKeys_sorted hkeys hkeys'
    refine ⟨inst, ⟨keys.map UInt32.toInt32, targets.map UInt32.toInt32⟩, hinst, ?_, ?_,
      fun _ => by rw [List.map_map]; exact hsorted, hland _ targets (by simpa [add_assoc] using hloop) htargets,
      fun v => ⟨fun hpk => absurd hpk hp, fun _ => ?_⟩⟩
    · have htargets' : readWords code.insns
          (cur.toNat + offset.toInt32.toInt + ((2 + 2 * count.toNat : Nat) : Int)) count.toNat =
          some targets := by
        rw [← htargets]
        push_cast
        ring_nf
      simp only [switchTableOf, switchTableAt, hoff, hcount, hkeys', htargets', hp, decide_false,
        Bool.false_eq_true, if_false, Option.bind_eq_bind, Option.bind_some, Option.map_some,
        Option.pure_def]
    · simp [readWords_length hkeys', readWords_length htargets]
    · exact doSparseSwitch_eq v hoff hcount hkeys' htargets hsorted

/-- A packed switch at unit 0 of eight code units: two cases from key `-1`,
    branching to units 3 and 0. -/
def packedSwitchCode : CodeItem :=
  ⟨[0x002B, 0x0004, 0x0000, 0x0000, 0x0100, 0x0002, 0xFFFF, 0xFFFF, 0x0003, 0x0000, 0x0000, 0x0000],
    by decide⟩

theorem switch_dispatch_matches_table_packed :
    checkSwitchTargets packedSwitchCode 0 (fun n => n = 0 ∨ n = 3) 0 = some true ∧
      ∃ inst table, packedSwitchCode.insns[(0 : UInt32).toNat]? = some inst ∧
        switchTableOf packedSwitchCode.insns (0 : UInt32).toNat (opcode inst = PACKED_SWITCH) =
          some table ∧
        table.keys.length = table.targets.length ∧
        (opcode inst ≠ PACKED_SWITCH → (table.keys.map Int32.toInt).Pairwise (· < ·)) ∧
        (∀ offset ∈ table.targets,
          (fun n => decide (n = 0 ∨ n = 3)) ((0 : UInt32).toNat + offset.toInt).toNat = true ∧
          0 ≤ ((0 : UInt32).toNat : Int) + offset.toInt ∧
          ((0 : UInt32).toNat : Int) + offset.toInt < packedSwitchCode.insns.length) ∧
        ∀ v, (opcode inst = PACKED_SWITCH →
            executePackedSwitch packedSwitchCode.insns (0 : UInt32).toNat v =
              some (switchTarget table (0 : UInt32).toNat v)) ∧
          (opcode inst = SPARSE_SWITCH →
            doSparseSwitch packedSwitchCode.insns (0 : UInt32).toNat v =
              some (switchTarget table (0 : UInt32).toNat v)) :=
  have h : checkSwitchTargets packedSwitchCode 0 (fun n => n = 0 ∨ n = 3) 0 = some true := by
    decide +kernel
  ⟨h, switch_dispatch_matches_table packedSwitchCode 0 (fun n => n = 0 ∨ n = 3) 0 h⟩

end Switch

end ArtRuntime
