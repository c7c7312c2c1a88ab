import Mathlib.Data.List.Range
import Mathlib.Tactic.SplitIfs
import ArtRuntime.Core.Word
import ArtRuntime.Core.Reach

/-!
# Indirect Reference Tables

The table behind JNI local, global and weak global references. An indirect
reference is a word that packs the slot's serial number (bits 20 up), the
slot index (bits 2 to 17) and the kind (bits 0 and 1); the slot holds the
object. Slots are used as a stack divided into segments: a segment's bottom
and the number of holes below it are saved as a cookie when a local frame is
pushed (`JNIEnvExt::PushFrame`), and restored when it is popped. Removing
the top entry also removes the holes right below it, so the top can drop by
more than one.

The segment state keeps the top index and the hole count in two 16-bit
fields of one word. The source relies on a cap of 64K entries for that, but
the constructor does not check that the maximum respects it.

Object pointers are 32-bit words, `NULL` being `0`; a fresh table is filled
with `0xd1` bytes, as the source does. `LOG(FATAL)`, and `AbortMaybe` when
CheckJNI is off, abort, which is `none`. `JniConfig` holds the global flags the
code reads: `check_jni`, `work_around_app_jni_bugs`, and the current thread's
`SirtContains`.

## Main definitions

* `IRTSegmentState`, `IndirectReferenceTable`, `IndirectReferenceTable.create`.
* `IndirectReferenceTable.add`, `IndirectReferenceTable.remove`,
  `IndirectReferenceTable.get`: The operations.
* `JniEnv`, `JniEnv.pushFrame`, `JniEnv.popFrame`: The segments of the local
  reference table.
* `localsSystem`: The local reference table under any sequence of adds,
  removes, pushes and pops.
-/

namespace ArtRuntime

open MachineWord TransitionSystem

/-- `IndirectRefKind`, the two low bits of a reference. -/
inductive IndirectRefKind
  | kSirtOrInvalid
  | kLocal
  | kGlobal
  | kWeakGlobal
  deriving DecidableEq, Repr

/-- The kind's value as the two low bits. -/
def IndirectRefKind.toUInt32 : IndirectRefKind → UInt32
  | .kSirtOrInvalid => 0
  | .kLocal => 1
  | .kGlobal => 2
  | .kWeakGlobal => 3

/-- `GetIndirectRefKind`. -/
def getIndirectRefKind (iref : UInt32) : IndirectRefKind :=
  match (iref &&& 3).toNat with
  | 0 => .kSirtOrInvalid
  | 1 => .kLocal
  | 2 => .kGlobal
  | _ => .kWeakGlobal

/-- `kInvalidIndirectRefObject`. -/
def kInvalidIndirectRefObject : UInt32 := 0xdead4321

/-- `IRTSegmentState`: the two 16-bit fields of the word `all`. A cookie is
    such a state. -/
structure IRTSegmentState where
  topIndex : UInt16
  numHoles : UInt16
  deriving DecidableEq, Repr

/-- `IRT_FIRST_SEGMENT`: the word `0`. -/
def IRT_FIRST_SEGMENT : IRTSegmentState := ⟨0, 0⟩

/-- The global flags the table reads. -/
structure JniConfig where
  check_jni : Bool
  work_around_app_jni_bugs : Bool
  /-- `Thread::Current()->SirtContains`. -/
  sirt_contains : UInt32 → Bool

/-- CheckJNI on, the workaround for app bugs off, and no `SIRT` entries. -/
def JniConfig.checked : JniConfig := ⟨true, false, fun _ => false⟩

/-- The fields of an `IndirectReferenceTable`; of each slot's debugging data
    only the serial number is modelled. -/
structure IndirectReferenceTable where
  segment_state : IRTSegmentState
  table : Nat → UInt32
  kind : IndirectRefKind
  serial : Nat → UInt32
  alloc_entries : Nat
  max_entries : Nat

namespace IndirectReferenceTable

/-- The constructor, with its `CHECK`s. -/
def create (initialCount maxCount : Nat) (desiredKind : IndirectRefKind) :
    Option IndirectReferenceTable :=
  if initialCount = 0 then none
  else if maxCount < initialCount then none
  else if desiredKind = .kSirtOrInvalid then none
  else
    some
      { segment_state := IRT_FIRST_SEGMENT, table := fun _ => 0xd1d1d1d1, kind := desiredKind,
        serial := fun _ => 0, alloc_entries := initialCount, max_entries := maxCount }

/-- `ExtractIndex`. -/
def extractIndex (iref : UInt32) : Nat := ((iref >>> 2) &&& 0xffff).toNat

/-- `ToIndirectRef`: the serial in the top bits, then the index, then the
    kind. -/
def toIndirectRef (t : IndirectReferenceTable) (tableIndex : Nat) : UInt32 :=
  (t.serial tableIndex <<< 20) ||| (tableIndex.toUInt32 <<< 2) ||| t.kind.toUInt32

/-- `UpdateSlotAdd`: the slot's serial moves on. -/
def updateSlotAdd (t : IndirectReferenceTable) (slot : Nat) : IndirectReferenceTable :=
  { t with serial := Function.update t.serial slot (t.serial slot + 1) }

/-- `AbortMaybe`: an abort unless CheckJNI is on. -/
def abortMaybe (cfg : JniConfig) : Option Unit :=
  if cfg.check_jni then some () else none

/-- `CheckEntry`: the reference is the one the slot would give now. -/
def checkEntry (cfg : JniConfig) (t : IndirectReferenceTable) (iref : UInt32) (idx : Nat) :
    Option Bool :=
  if t.toIndirectRef idx ≠ iref then (abortMaybe cfg).map fun _ => false else some true

/-- The hole scan of `Add`: `while (*--pScan != NULL)` from `&table_[i]`,
    with no bound below, so that a scan past the start of the table fails. -/
def scanHole (table : Nat → UInt32) : Nat → Option Nat
  | 0 => none
  | i + 1 => if table i = 0 then some i else scanHole table i

/-- The growth at the start of `Add`: at the end of the allocated space the
    table doubles, up to the maximum, where it overflows. -/
def ensureRoom (t : IndirectReferenceTable) : Option IndirectReferenceTable :=
  if t.segment_state.topIndex.toNat = t.alloc_entries then
    if t.segment_state.topIndex.toNat = t.max_entries then none
    else some { t with alloc_entries := min (t.alloc_entries * 2) t.max_entries }
  else some t

/-- `IndirectReferenceTable::Add`: the new reference and table. -/
def add (t : IndirectReferenceTable) (cookie : IRTSegmentState) (obj : UInt32) :
    Option (UInt32 × IndirectReferenceTable) := do
  let prevState := cookie
  let topIndex := t.segment_state.topIndex.toNat
  let t ← t.ensureRoom
  let numHoles : Int := t.segment_state.numHoles.toNat - prevState.numHoles.toNat
  if numHoles > 0 then
    let slot ← scanHole t.table (topIndex - 1)
    let t := t.updateSlotAdd slot
    pure (t.toIndirectRef slot,
      { t with
        table := Function.update t.table slot obj,
        segment_state := { t.segment_state with numHoles := t.segment_state.numHoles - 1 } })
  else
    let t := t.updateSlotAdd topIndex
    pure (t.toIndirectRef topIndex,
      { t with
        table := Function.update t.table topIndex obj,
        segment_state := { t.segment_state with topIndex := (topIndex + 1).toUInt16 } })

/-- The static `Find`: the first slot of `[bottomIndex, topIndex)` holding
    the pointer. -/
def find (table : Nat → UInt32) (direct_pointer : UInt32) (bottomIndex topIndex : Nat) :
    Option Nat :=
  (List.range' bottomIndex (topIndex - bottomIndex)).find? fun i => table i = direct_pointer

/-- The loop of `Remove` that eats the holes below a removed top entry:
    `while (--topIndex > bottomIndex && numHoles != 0)`, stopping at the first
    entry that is not a hole. -/
def eatHoles (table : Nat → UInt32) (bottomIndex : Nat) (topIndex : Nat) (numHoles : Int) :
    Nat × Int :=
  if h : topIndex - 1 > bottomIndex ∧ numHoles ≠ 0 then
    if table (topIndex - 1 - 1) ≠ 0 then (topIndex - 1, numHoles)
    else eatHoles table bottomIndex (topIndex - 1) (numHoles - 1)
  else (topIndex - 1, numHoles)
termination_by topIndex
decreasing_by omega

/-- The check `Remove` makes before it clears a slot: `CheckEntry`, which the
    workaround for app bugs skips. -/
def removeCheck (cfg : JniConfig) (t : IndirectReferenceTable) (iref : UInt32) (idx : Nat) :
    Option Bool :=
  if !cfg.work_around_app_jni_bugs then checkEntry cfg t iref idx else some true

/-- `Remove` of the top-most entry: clear it, and eat the holes below it when
    the segment has any. -/
def removeTop (t : IndirectReferenceTable) (prevState : IRTSegmentState) (idx : Nat) :
    IndirectReferenceTable :=
  let topIndex := t.segment_state.topIndex.toNat
  let bottomIndex := prevState.topIndex.toNat
  let t := { t with table := Function.update t.table idx 0 }
  let numHoles : Int := t.segment_state.numHoles.toNat - prevState.numHoles.toNat
  if numHoles ≠ 0 then
    let (topIndex, numHoles) := eatHoles t.table bottomIndex topIndex numHoles
    { t with
      segment_state := ⟨topIndex.toUInt16, (numHoles + prevState.numHoles.toNat).toNat.toUInt16⟩ }
  else { t with segment_state := { t.segment_state with topIndex := (topIndex - 1).toUInt16 } }

/-- `Remove` of an entry below the top: it leaves a hole. -/
def removeHole (t : IndirectReferenceTable) (idx : Nat) : IndirectReferenceTable :=
  { t with
    table := Function.update t.table idx 0,
    segment_state := { t.segment_state with numHoles := t.segment_state.numHoles + 1 } }

/-- `IndirectReferenceTable::Remove`: whether an entry was removed, and the
    new table. -/
def remove (cfg : JniConfig) (t : IndirectReferenceTable) (cookie : IRTSegmentState)
    (iref : UInt32) : Option (Bool × IndirectReferenceTable) := do
  let prevState := cookie
  let topIndex := t.segment_state.topIndex.toNat
  let bottomIndex := prevState.topIndex.toNat
  let sirt := getIndirectRefKind iref = .kSirtOrInvalid
  if sirt ∧ cfg.sirt_contains iref then return (true, t)
  -- a direct pointer, looked up in the segment under the workaround
  let idx? : Option Nat :=
    if sirt ∧ cfg.work_around_app_jni_bugs then find t.table iref bottomIndex topIndex
    else some (extractIndex iref)
  let some idx := idx? | return (false, t)
  if idx < bottomIndex then return (false, t)
  if topIndex ≤ idx then return (false, t)
  if idx = topIndex - 1 then
    let ok ← removeCheck cfg t iref idx
    if !ok then return (false, t)
    return (true, removeTop t prevState idx)
  else
    if t.table idx = 0 then return (false, t)
    let ok ← removeCheck cfg t iref idx
    if !ok then return (false, t)
    return (true, removeHole t idx)

/-- `IndirectReferenceTable::GetChecked`. -/
def getChecked (cfg : JniConfig) (t : IndirectReferenceTable) (iref : UInt32) : Option Bool :=
  if iref = 0 then some false
  else if getIndirectRefKind iref = .kSirtOrInvalid then (abortMaybe cfg).map fun _ => false
  else if t.segment_state.topIndex.toNat ≤ extractIndex iref then
    (abortMaybe cfg).map fun _ => false
  else if t.table (extractIndex iref) = 0 then (abortMaybe cfg).map fun _ => false
  else checkEntry cfg t iref (extractIndex iref)

/-- `IndirectReferenceTable::Get`. -/
def get (cfg : JniConfig) (t : IndirectReferenceTable) (iref : UInt32) : Option UInt32 := do
  let ok ← t.getChecked cfg iref
  if ok then pure (t.table (extractIndex iref)) else pure kInvalidIndirectRefObject

end IndirectReferenceTable

/-! ### Counting holes -/

/-- The number of `NULL` slots in `[lo, hi)`. -/
def countNull (table : Nat → UInt32) (lo hi : Nat) : Nat :=
  (List.range' lo (hi - lo)).countP fun i => table i = 0

section Holes

variable {table table' : Nat → UInt32}

theorem countNull_self (table : Nat → UInt32) (a : Nat) : countNull table a a = 0 := by
  simp [countNull]

theorem countNull_add (table : Nat → UInt32) {a b c : Nat} (hab : a ≤ b) (hbc : b ≤ c) :
    countNull table a c = countNull table a b + countNull table b c := by
  have hlen : c - a = (b - a) + (c - b) := by omega
  have hstart : a + (b - a) = b := by omega
  rw [countNull, hlen, ← List.range'_append_1, hstart, List.countP_append]
  rfl

/-- One slot counts one exactly when it is a hole. -/
theorem countNull_one (table : Nat → UInt32) (j : Nat) :
    countNull table j (j + 1) = if table j = 0 then 1 else 0 := by
  rw [countNull, show j + 1 - j = 1 by omega]
  by_cases h : table j = 0 <;> simp [List.range'_one, h]

theorem countNull_succ (table : Nat → UInt32) {a b : Nat} (hab : a ≤ b) :
    countNull table a (b + 1) = countNull table a b + if table b = 0 then 1 else 0 := by
  rw [countNull_add table hab (Nat.le_succ b), countNull_one]

theorem countNull_congr {a b : Nat} (h : ∀ i, a ≤ i → i < b → table i = table' i) :
    countNull table a b = countNull table' a b := by
  unfold countNull
  apply List.countP_congr
  intro i hi
  rw [List.mem_range'_1] at hi
  rw [h i hi.1 (by omega)]

theorem countNull_eq_zero {a b : Nat} : countNull table a b = 0 ↔ ∀ i, a ≤ i → i < b → table i ≠ 0 := by
  simp only [countNull, List.countP_eq_zero, List.mem_range'_1, decide_eq_true_eq]
  constructor
  · intro h i hai hib
    exact h i ⟨hai, by omega⟩
  · intro h i hi
    exact h i hi.1 (by omega)

/-- A write outside the range leaves its count. -/
theorem countNull_update_of_notMem {a b j : Nat} (v : UInt32) (hj : j < a ∨ b ≤ j) :
    countNull (Function.update table j v) a b = countNull table a b :=
  countNull_congr fun i hai hib => Function.update_of_ne (by omega) _ _

theorem countNull_le (table : Nat → UInt32) (a b : Nat) : countNull table a b ≤ b - a := by
  unfold countNull
  exact (List.countP_le_length).trans (List.length_range' ..).le

/-- A write inside the range trades the slot's old count for its new one. -/
theorem countNull_update {a b j : Nat} (v : UInt32) (haj : a ≤ j) (hjb : j < b) :
    countNull (Function.update table j v) a b + (if table j = 0 then 1 else 0) =
      countNull table a b + (if v = 0 then 1 else 0) := by
  rw [countNull_add _ haj hjb.le, countNull_add table haj hjb.le,
    countNull_add _ (Nat.le_succ j) hjb, countNull_add table (Nat.le_succ j) hjb,
    countNull_update_of_notMem v (Or.inr le_rfl),
    @countNull_update_of_notMem table _ _ _ v (Or.inl (Nat.lt_succ_self j))]
  rw [countNull_one, countNull_one, Function.update_self]
  omega

/-- A live slot in the range leaves room for one more hole. -/
theorem countNull_lt_of_ne {a b j : Nat} (haj : a ≤ j) (hjb : j < b) (hj : table j ≠ 0) :
    countNull table a b < b - a := by
  have hupd := @countNull_update table _ _ _ 0 haj hjb
  have hle := countNull_le (Function.update table j 0) a b
  rw [if_neg hj, if_pos rfl] at hupd
  omega

end Holes

/-! ### The hole scan and the hole-eating loop -/

namespace IndirectReferenceTable

/-- The scan stops at the highest hole below where it starts. -/
theorem scanHole_spec {table : Nat → UInt32} {i j : Nat} (h : scanHole table i = some j) :
    j < i ∧ table j = 0 ∧ ∀ k, j < k → k < i → table k ≠ 0 := by
  induction i with
  | zero => simp [scanHole] at h
  | succ i ih =>
    by_cases hi : table i = 0
    · simp only [scanHole, hi, if_true, Option.some.injEq] at h
      subst h
      exact ⟨Nat.lt_succ_self _, hi, fun k hjk hki => absurd hki (by omega)⟩
    · simp only [scanHole, hi, if_false] at h
      rcases ih h with ⟨hji, hj, habove⟩
      refine ⟨by omega, hj, fun k hjk hki => ?_⟩
      by_cases hk : k = i
      · rw [hk]
        exact hi
      · exact habove k hjk (by omega)

/-- A scan from `i` over a range `[b, i)` that has a hole finds one in it. -/
theorem scanHole_ge {table : Nat → UInt32} {b i : Nat} (hb : b ≤ i)
    (hpos : 0 < countNull table b i) : ∃ j, scanHole table i = some j ∧ b ≤ j := by
  induction i with
  | zero =>
    rw [Nat.le_zero.mp hb, countNull_self] at hpos
    omega
  | succ i ih =>
    -- the range is not empty, since it has a hole
    have hbi : b ≤ i := by
      rcases Nat.lt_or_ge i b with hlt | hge
      · have : b = i + 1 := by omega
        rw [this, countNull_self] at hpos
        omega
      · exact hge
    by_cases hi : table i = 0
    · exact ⟨i, by simp [scanHole, hi], hbi⟩
    · rw [countNull_succ table hbi, if_neg hi] at hpos
      rcases ih hbi (by omega) with ⟨j, hj, hbj⟩
      exact ⟨j, by simp [scanHole, hi, hj], hbj⟩

/-- The hole-eating loop, started just above a range `[b, T - 1)` with `k`
    holes, ends at a top `T'` in `[b, T - 1]` whose range has exactly the
    count it returns, and whose last slot, if any, is not a hole. -/
theorem eatHoles_spec (table : Nat → UInt32) (b T : Nat) (k : Int) (hbT : b < T)
    (hk : k = countNull table b (T - 1)) :
    b ≤ (eatHoles table b T k).1 ∧ (eatHoles table b T k).1 ≤ T - 1 ∧
      (eatHoles table b T k).2 = countNull table b (eatHoles table b T k).1 ∧
      (b < (eatHoles table b T k).1 → table ((eatHoles table b T k).1 - 1) ≠ 0) ∧
      ∀ j, (eatHoles table b T k).1 ≤ j → j < T - 1 → table j = 0 := by
  fun_induction eatHoles table b T k with
  | case1 T k hcond hlive =>
    -- an entry right below: the loop stops with it on top
    exact ⟨by omega, le_rfl, hk, fun _ => hlive, fun j hj hjT => absurd hjT (by omega)⟩
  | case2 T k hcond hhole ih =>
    -- a hole right below: eaten, one hole fewer
    have hcount : countNull table b (T - 1) = countNull table b (T - 1 - 1) + 1 := by
      have := countNull_succ table (show b ≤ T - 1 - 1 by omega)
      rw [show T - 1 - 1 + 1 = T - 1 by omega, if_pos (not_not.mp hhole)] at this
      exact this
    rcases ih (by omega) (by rw [hk, hcount]; push_cast; ring) with ⟨h1, h2, h3, h4, h5⟩
    refine ⟨h1, by omega, h3, h4, fun j hj hjT => ?_⟩
    by_cases hjt : j = T - 1 - 1
    · rw [hjt]
      exact not_not.mp hhole
    · exact h5 j hj (by omega)
  | case3 T k hcond =>
    refine ⟨by omega, le_rfl, hk, fun hb => ?_, fun j hj hjT => absurd hjT (by omega)⟩
    -- the loop stopped with holes left only if it reached the bottom
    have hzero : k = 0 := by
      by_contra hne
      exact hcond ⟨by omega, hne⟩
    rw [hzero] at hk
    exact countNull_eq_zero.mp (by exact_mod_cast hk.symm) (T - 1 - 1) (by omega) (by omega)

end IndirectReferenceTable

/-! ### References and the steps of the table -/

namespace IndirectReferenceTable

theorem create_eq_some {initialCount maxCount : Nat} {kind : IndirectRefKind}
    {t : IndirectReferenceTable} (h : create initialCount maxCount kind = some t) :
    t.segment_state = IRT_FIRST_SEGMENT ∧ t.alloc_entries = initialCount ∧
      t.max_entries = maxCount ∧ 0 < initialCount ∧ initialCount ≤ maxCount ∧ t.kind = kind := by
  unfold create at h
  split_ifs at h with h0 hmax
  cases h
  exact ⟨rfl, rfl, rfl, Nat.pos_of_ne_zero h0, not_lt.mp hmax, rfl⟩

theorem toNat_kind_lt (k : IndirectRefKind) : k.toUInt32.toNat < 4 := by
  cases k <;> decide

/-- A reference as a number: twelve bits of serial, the index, the kind. -/
theorem toNat_toIndirectRef (t : IndirectReferenceTable) {slot : Nat} (hslot : slot < 2 ^ 16) :
    (t.toIndirectRef slot).toNat =
      (t.serial slot).toNat % 4096 * 2 ^ 20 + slot * 4 + t.kind.toUInt32.toNat := by
  have hk := toNat_kind_lt t.kind
  have hs : (t.serial slot <<< 20).toNat = (t.serial slot).toNat % 4096 * 2 ^ 20 := by
    rw [UInt32.toNat_shiftLeft, Nat.shiftLeft_eq]
    simp only [UInt32.reduceToNat, Nat.reduceMod]
    omega
  have hi : (slot.toUInt32 <<< 2).toNat = slot * 4 := by
    rw [UInt32.toNat_shiftLeft, Nat.shiftLeft_eq, toNat_toUInt32]
    simp only [UInt32.reduceToNat, Nat.reduceMod]
    omega
  -- the three fields occupy disjoint bits, so or-ing them adds them
  rw [toIndirectRef, UInt32.toNat_or, UInt32.toNat_or, hs, hi,
    Nat.or_comm ((t.serial slot).toNat % 4096 * 2 ^ 20),
    or_mul_two_pow_eq_add _ (by omega : slot * 4 < 2 ^ 20),
    show slot * 4 + (t.serial slot).toNat % 4096 * 2 ^ 20 =
      ((t.serial slot).toNat % 4096 * 2 ^ 18 + slot) * 2 ^ 2 by ring,
    Nat.or_comm, or_mul_two_pow_eq_add _ (by omega : t.kind.toUInt32.toNat < 2 ^ 2)]
  ring

theorem extractIndex_toIndirectRef (t : IndirectReferenceTable) {slot : Nat} (hslot : slot < 2 ^ 16) :
    extractIndex (t.toIndirectRef slot) = slot := by
  have hk := toNat_kind_lt t.kind
  rw [extractIndex, toNat_and_mask _ 0xffff (k := 16) rfl, UInt32.toNat_shiftRight,
    toNat_toIndirectRef t hslot, Nat.shiftRight_eq_div_pow]
  simp only [UInt32.reduceToNat, Nat.reduceMod]
  omega

theorem getIndirectRefKind_toIndirectRef (t : IndirectReferenceTable) {slot : Nat}
    (hslot : slot < 2 ^ 16) : getIndirectRefKind (t.toIndirectRef slot) = t.kind := by
  have hk := toNat_kind_lt t.kind
  have hlow : (t.toIndirectRef slot &&& 3).toNat = t.kind.toUInt32.toNat := by
    rw [toNat_and_mask _ 3 (k := 2) rfl, toNat_toIndirectRef t hslot]
    omega
  unfold getIndirectRefKind
  rw [hlow]
  cases t.kind <;> rfl

theorem extractIndex_lt (iref : UInt32) : extractIndex iref < 2 ^ 16 := by
  unfold extractIndex
  rw [toNat_and_mask _ 0xffff (k := 16) rfl]
  exact Nat.mod_lt _ (by norm_num)

section LocalRef

/-! A word whose low twenty bits are a local reference's index and kind, as
every reference a local table hands out is. -/

variable {r : UInt32} (hlow : r.toNat % 2 ^ 20 = extractIndex r * 4 + 1)
include hlow

theorem getIndirectRefKind_of_low : getIndirectRefKind r = .kLocal := by
  have hbits : (r &&& 3).toNat = 1 := by
    rw [toNat_and_mask _ 3 (k := 2) rfl]
    omega
  unfold getIndirectRefKind
  rw [hbits]
  rfl

/-- A local table names slot `extractIndex r` by `r` exactly when the slot's
    serial agrees with `r`'s twelve serial bits. -/
theorem toIndirectRef_eq_iff {t : IndirectReferenceTable} (hkind : t.kind = .kLocal) :
    t.toIndirectRef (extractIndex r) = r ↔
      (t.serial (extractIndex r)).toNat % 4096 = r.toNat / 2 ^ 20 := by
  have hr := r.toNat_lt
  rw [← UInt32.toNat_inj, toNat_toIndirectRef t (extractIndex_lt r), hkind]
  simp only [IndirectRefKind.toUInt32, UInt32.reduceToNat]
  omega

end LocalRef

theorem serial_updateSlotAdd_self (t : IndirectReferenceTable) (i : Nat) :
    (t.updateSlotAdd i).serial i = t.serial i + 1 :=
  Function.update_self ..

theorem serial_updateSlotAdd_of_ne (t : IndirectReferenceTable) {i j : Nat} (h : j ≠ i) :
    (t.updateSlotAdd i).serial j = t.serial j :=
  Function.update_of_ne h ..

/-- Without the workaround, a check that passes is `CheckEntry`'s: the
    reference is the one the slot gives now. -/
theorem removeCheck_eq_true {cfg : JniConfig} {t : IndirectReferenceTable} {iref : UInt32}
    {idx : Nat} (hwork : cfg.work_around_app_jni_bugs = false)
    (h : removeCheck cfg t iref idx = some true) : t.toIndirectRef idx = iref := by
  unfold removeCheck checkEntry at h
  rw [hwork] at h
  by_contra hne
  simp [hne, abortMaybe] at h

theorem ensureRoom_eq {t t1 : IndirectReferenceTable} (h : t.ensureRoom = some t1) :
    ∃ a, t1 = { t with alloc_entries := a } := by
  unfold ensureRoom at h
  split_ifs at h <;> cases h <;> exact ⟨_, rfl⟩

/-- After the growth, the top is below the allocated size, which stays
    within the maximum. -/
theorem ensureRoom_alloc {t : IndirectReferenceTable} {a : Nat}
    (h : t.ensureRoom = some { t with alloc_entries := a })
    (htop : t.segment_state.topIndex.toNat ≤ t.alloc_entries) (hpos : 0 < t.alloc_entries)
    (hle : t.alloc_entries ≤ t.max_entries) :
    t.segment_state.topIndex.toNat < a ∧ a ≤ t.max_entries := by
  unfold ensureRoom at h
  split_ifs at h with hfull hmax
  · have ha := congrArg alloc_entries (Option.some.inj h)
    dsimp only at ha
    omega
  · have ha := congrArg alloc_entries (Option.some.inj h)
    dsimp only at ha
    omega

/-- The two ways `Add` places an object: in the highest hole of the segment
    when it has holes, on top otherwise; either way the slot's serial moves on
    and the reference names the slot. -/
theorem add_eq_some {t t' : IndirectReferenceTable} {cookie : IRTSegmentState} {obj r : UInt32}
    (h : t.add cookie obj = some (r, t')) :
    ∃ a slot S, t.ensureRoom = some { t with alloc_entries := a } ∧
      r = (t.updateSlotAdd slot).toIndirectRef slot ∧
      t' = { t.updateSlotAdd slot with
        alloc_entries := a, table := Function.update t.table slot obj, segment_state := S } ∧
      ((0 < (t.segment_state.numHoles.toNat : Int) - cookie.numHoles.toNat ∧
          scanHole t.table (t.segment_state.topIndex.toNat - 1) = some slot ∧
          S = { t.segment_state with numHoles := t.segment_state.numHoles - 1 }) ∨
        ((t.segment_state.numHoles.toNat : Int) - cookie.numHoles.toNat ≤ 0 ∧
          slot = t.segment_state.topIndex.toNat ∧
          S = { t.segment_state with
            topIndex := (t.segment_state.topIndex.toNat + 1).toUInt16 })) := by
  simp only [add, Option.bind_eq_bind, Option.bind_eq_some_iff] at h
  rcases h with ⟨t1, hroom, h⟩
  rcases ensureRoom_eq hroom with ⟨a, rfl⟩
  split_ifs at h with hholes
  · -- a hole in the segment: the scan's slot
    simp only [Option.bind_eq_some_iff, Option.pure_def, Option.some.injEq, Prod.mk.injEq] at h
    rcases h with ⟨slot, hscan, rfl, rfl⟩
    exact ⟨a, slot, _, hroom, rfl, rfl, Or.inl ⟨hholes, hscan, rfl⟩⟩
  · -- no hole: the top
    simp only [Option.pure_def, Option.some.injEq, Prod.mk.injEq] at h
    rcases h with ⟨rfl, rfl⟩
    exact ⟨a, _, _, hroom, rfl, rfl, Or.inr ⟨not_lt.mp hholes, rfl, rfl⟩⟩

/-- The tail both clearing paths of `Remove` share: the check, and then the
    cleared table or, when the check fails, the table as it was. -/
theorem checked_eq_some {cfg : JniConfig} {t t₁ t' : IndirectReferenceTable} {iref : UInt32}
    {idx : Nat} {b : Bool}
    (h : (do
      let ok ← removeCheck cfg t iref idx
      if (!ok) = true then pure (false, t) else pure (true, t₁) :
        Option (Bool × IndirectReferenceTable)) = some (b, t')) :
    (b = false ∧ t' = t) ∨ (b = true ∧ removeCheck cfg t iref idx = some true ∧ t' = t₁) := by
  rcases hc : removeCheck cfg t iref idx with _ | ok
  · rw [hc] at h
    cases h
  · rw [hc] at h
    cases ok
    · simp at h
      exact Or.inl ⟨h.1, h.2.symm⟩
    · simp at h
      exact Or.inr ⟨h.1, rfl, h.2.symm⟩

/-- The outcomes of `Remove`: nothing changes, and only a `SIRT` entry is
    reported removed; or an entry of the segment passes the check and is
    cleared, at the top or below it. -/
theorem remove_eq_some {cfg : JniConfig} {t t' : IndirectReferenceTable} {cookie : IRTSegmentState}
    {iref : UInt32} {b : Bool} (h : t.remove cfg cookie iref = some (b, t')) :
    (t' = t ∧ (b = true → getIndirectRefKind iref = .kSirtOrInvalid)) ∨
    ∃ idx, b = true ∧ cookie.topIndex.toNat ≤ idx ∧ idx < t.segment_state.topIndex.toNat ∧
      removeCheck cfg t iref idx = some true ∧
      (¬(getIndirectRefKind iref = .kSirtOrInvalid ∧ cfg.work_around_app_jni_bugs = true) →
        idx = extractIndex iref) ∧
      ((idx = t.segment_state.topIndex.toNat - 1 ∧ t' = removeTop t cookie idx) ∨
        (idx < t.segment_state.topIndex.toNat - 1 ∧ t.table idx ≠ 0 ∧ t' = removeHole t idx)) := by
  unfold remove at h
  dsimp only at h
  by_cases hsirt : getIndirectRefKind iref = .kSirtOrInvalid ∧ cfg.sirt_contains iref = true
  · rw [if_pos hsirt] at h
    cases h
    exact Or.inl ⟨rfl, fun _ => hsirt.1⟩
  rw [if_neg hsirt] at h
  split at h
  case h_2 =>
    cases h
    exact Or.inl ⟨rfl, Bool.noConfusion⟩
  case h_1 idx hidx =>
  -- without the workaround's lookup, the slot is the one the reference names
  have hindex : ¬(getIndirectRefKind iref = .kSirtOrInvalid ∧ cfg.work_around_app_jni_bugs = true) →
      idx = extractIndex iref := by
    intro hw
    rw [if_neg hw] at hidx
    exact (Option.some.inj hidx).symm
  split_ifs at h with hlo hhi htop hnull
  · cases h
    exact Or.inl ⟨rfl, Bool.noConfusion⟩
  · cases h
    exact Or.inl ⟨rfl, Bool.noConfusion⟩
  · -- the top-most entry
    rcases checked_eq_some h with ⟨rfl, rfl⟩ | ⟨rfl, hc, rfl⟩
    · exact Or.inl ⟨rfl, Bool.noConfusion⟩
    · exact Or.inr ⟨idx, rfl, by omega, by omega, hc, hindex, Or.inl ⟨htop, rfl⟩⟩
  · cases h
    exact Or.inl ⟨rfl, Bool.noConfusion⟩
  · -- an entry below the top
    rcases checked_eq_some h with ⟨rfl, rfl⟩ | ⟨rfl, hc, rfl⟩
    · exact Or.inl ⟨rfl, Bool.noConfusion⟩
    · exact Or.inr ⟨idx, rfl, by omega, by omega, hc, hindex, Or.inr ⟨by omega, hnull, rfl⟩⟩

end IndirectReferenceTable

/-! ### The segment invariant -/

/-- One segment's bookkeeping, from the state `lo` saved when it was pushed
    to the state `hi` above it: the holes it adds are the `NULL` slots in it,
    and its top entry is live, so that a removal at the top eats holes only
    down to the next live entry. -/
structure SegOk (table : Nat → UInt32) (lo hi : IRTSegmentState) : Prop where
  top_le : lo.topIndex.toNat ≤ hi.topIndex.toNat
  holes : hi.numHoles.toNat =
    lo.numHoles.toNat + countNull table lo.topIndex.toNat hi.topIndex.toNat
  top_live : lo.topIndex.toNat < hi.topIndex.toNat → table (hi.topIndex.toNat - 1) ≠ 0

namespace SegOk

variable {table table' : Nat → UInt32} {lo mid hi : IRTSegmentState}

theorem refl (table : Nat → UInt32) (s : IRTSegmentState) : SegOk table s s where
  top_le := le_rfl
  holes := by rw [countNull_self, Nat.add_zero]
  top_live h := absurd h (lt_irrefl _)

theorem trans (h₁ : SegOk table lo mid) (h₂ : SegOk table mid hi) : SegOk table lo hi where
  top_le := h₁.top_le.trans h₂.top_le
  holes := by
    rw [h₂.holes, h₁.holes, countNull_add table h₁.top_le h₂.top_le, Nat.add_assoc]
  top_live h := by
    rcases Nat.lt_or_ge mid.topIndex.toNat hi.topIndex.toNat with hlt | hge
    · exact h₂.top_live hlt
    · -- the upper segment is empty, so its top is the lower one's
      have heq : mid.topIndex.toNat = hi.topIndex.toNat := le_antisymm h₂.top_le hge
      rw [← heq]
      exact h₁.top_live (heq ▸ h)

/-- A segment's bookkeeping reads only the slots inside it. -/
theorem congr (h : SegOk table lo hi)
    (heq : ∀ i, lo.topIndex.toNat ≤ i → i < hi.topIndex.toNat → table i = table' i) :
    SegOk table' lo hi where
  top_le := h.top_le
  holes := by rw [h.holes, countNull_congr heq]
  top_live hlt := by
    rw [← heq _ (by omega) (by omega)]
    exact h.top_live hlt

/-- The count of holes above the top live entry is the count below it. -/
theorem countNull_below_top (h : SegOk table lo hi) (hlt : lo.topIndex.toNat < hi.topIndex.toNat) :
    countNull table lo.topIndex.toNat (hi.topIndex.toNat - 1) =
      countNull table lo.topIndex.toNat hi.topIndex.toNat := by
  have hsucc := countNull_succ table (show lo.topIndex.toNat ≤ hi.topIndex.toNat - 1 by omega)
  rw [Nat.sub_add_cancel (by omega : 1 ≤ hi.topIndex.toNat), if_neg (h.top_live hlt)] at hsucc
  omega

/-- With holes in the segment, the scan of `Add` from the top finds one
    inside it. -/
theorem scanHole_mem (h : SegOk table lo hi) (hholes : lo.numHoles.toNat < hi.numHoles.toNat) :
    ∃ j, IndirectReferenceTable.scanHole table (hi.topIndex.toNat - 1) = some j ∧
      lo.topIndex.toNat ≤ j ∧
      j < hi.topIndex.toNat - 1 ∧ table j = 0 := by
  have hpos : 0 < countNull table lo.topIndex.toNat hi.topIndex.toNat := by
    have := h.holes
    omega
  -- a segment with a hole is not empty
  have hlt : lo.topIndex.toNat < hi.topIndex.toNat := by
    rcases Nat.lt_or_ge lo.topIndex.toNat hi.topIndex.toNat with hlt | hge
    · exact hlt
    · rw [le_antisymm h.top_le hge, countNull_self] at hpos
      omega
  rw [← h.countNull_below_top hlt] at hpos
  rcases IndirectReferenceTable.scanHole_ge (by omega) hpos with ⟨j, hscan, hj⟩
  rcases IndirectReferenceTable.scanHole_spec hscan with ⟨hjt, hj0, -⟩
  exact ⟨j, hscan, hj, hjt, hj0⟩

/-- `Add` into a hole of the segment: one hole fewer. -/
theorem fill {j : Nat} {v : UInt32} (h : SegOk table lo hi) (hj : lo.topIndex.toNat ≤ j)
    (hjt : j < hi.topIndex.toNat - 1) (hj0 : table j = 0) (hv : v ≠ 0) :
    SegOk (Function.update table j v) lo { hi with numHoles := hi.numHoles - 1 } where
  top_le := h.top_le
  holes := by
    dsimp only
    have hupd := @countNull_update table _ _ _ v hj (show j < hi.topIndex.toNat by omega)
    rw [if_pos hj0, if_neg hv] at hupd
    have hsub : (hi.numHoles - 1).toNat = hi.numHoles.toNat - 1 := by
      rw [UInt16.toNat_sub_of_le _ _ (UInt16.le_iff_toNat_le.mpr (by have := h.holes; simp; omega))]
      rfl
    simp only [hsub]
    have := h.holes
    omega
  top_live hlt := by
    dsimp only at hlt ⊢
    rw [Function.update_of_ne (by omega)]
    exact h.top_live hlt

/-- `Add` on top of a segment without holes: the top moves up by one. -/
theorem push {v : UInt32} (h : SegOk table lo hi) (htop : hi.topIndex.toNat + 1 < 2 ^ 16) (hv : v ≠ 0) :
    SegOk (Function.update table hi.topIndex.toNat v) lo
      { hi with topIndex := (hi.topIndex.toNat + 1).toUInt16 } where
  top_le := by
    dsimp only
    rw [toNat_toUInt16, Nat.mod_eq_of_lt htop]
    exact Nat.le_succ_of_le h.top_le
  holes := by
    dsimp only
    rw [toNat_toUInt16, Nat.mod_eq_of_lt htop, countNull_succ _ h.top_le,
      Function.update_self, if_neg hv, Nat.add_zero,
      countNull_update_of_notMem v (Or.inr le_rfl)]
    exact h.holes
  top_live _ := by
    dsimp only
    rw [toNat_toUInt16, Nat.mod_eq_of_lt htop, Nat.add_sub_cancel, Function.update_self]
    exact hv

/-- `Remove` below the top of a segment: one hole more. -/
theorem clear {j : Nat} (h : SegOk table lo hi) (hj : lo.topIndex.toNat ≤ j)
    (hjt : j < hi.topIndex.toNat - 1) (hj0 : table j ≠ 0) (hfit : hi.numHoles.toNat + 1 < 2 ^ 16) :
    SegOk (Function.update table j 0) lo { hi with numHoles := hi.numHoles + 1 } where
  top_le := h.top_le
  holes := by
    dsimp only
    have hupd := @countNull_update table _ _ _ 0 hj (show j < hi.topIndex.toNat by omega)
    rw [if_neg hj0, if_pos rfl] at hupd
    have hadd : (hi.numHoles + 1).toNat = hi.numHoles.toNat + 1 := by
      rw [UInt16.toNat_add]
      simp only [UInt16.reduceToNat]
      omega
    simp only [hadd]
    have := h.holes
    omega
  top_live hlt := by
    dsimp only at hlt ⊢
    rw [Function.update_of_ne (by omega)]
    exact h.top_live hlt

/-- `Remove` at the top of a segment without holes: the top moves down by
    one, onto a live entry. -/
theorem pop (h : SegOk table lo hi) (hholes : hi.numHoles.toNat = lo.numHoles.toNat)
    (hlt : lo.topIndex.toNat < hi.topIndex.toNat) :
    SegOk (Function.update table (hi.topIndex.toNat - 1) 0) lo
      { hi with topIndex := (hi.topIndex.toNat - 1).toUInt16 } := by
  have htop : (hi.topIndex.toNat - 1).toUInt16.toNat = hi.topIndex.toNat - 1 := by
    have := hi.topIndex.toNat_lt
    rw [toNat_toUInt16]
    omega
  -- no hole in the segment: every slot in it is live
  have hnone : countNull table lo.topIndex.toNat hi.topIndex.toNat = 0 := by
    have := h.holes
    omega
  have hcount : countNull (Function.update table (hi.topIndex.toNat - 1) 0) lo.topIndex.toNat
      (hi.topIndex.toNat - 1) = 0 := by
    rw [countNull_update_of_notMem 0 (Or.inr le_rfl), h.countNull_below_top hlt, hnone]
  refine ⟨?_, ?_, ?_⟩
  · rw [htop]
    omega
  · rw [htop, hcount, Nat.add_zero]
    exact hholes
  · intro hlt'
    rw [htop] at hlt' ⊢
    rw [Function.update_of_ne (by omega)]
    exact countNull_eq_zero.mp hnone _ (by omega) (by omega)

/-- `Remove` at the top of a segment with holes: the top moves down past the
    holes under it, to the next live entry or the segment's bottom, and every
    slot it moves past is a hole. -/
theorem eat {T' : Nat} {k' : Int} (h : SegOk table lo hi)
    (hlt : lo.topIndex.toNat < hi.topIndex.toNat)
    (hp : IndirectReferenceTable.eatHoles (Function.update table (hi.topIndex.toNat - 1) 0)
      lo.topIndex.toNat hi.topIndex.toNat (hi.numHoles.toNat - lo.numHoles.toNat) = (T', k')) :
    SegOk (Function.update table (hi.topIndex.toNat - 1) 0) lo
        ⟨T'.toUInt16, (k' + lo.numHoles.toNat).toNat.toUInt16⟩ ∧
      T' < hi.topIndex.toNat ∧
      ∀ j, T' ≤ j → j < hi.topIndex.toNat → Function.update table (hi.topIndex.toNat - 1) 0 j = 0 := by
  set table' := Function.update table (hi.topIndex.toNat - 1) 0 with htable'
  -- the holes below the removed entry are the segment's holes
  have hk : ((hi.numHoles.toNat : Int) - lo.numHoles.toNat) =
      countNull table' lo.topIndex.toNat (hi.topIndex.toNat - 1) := by
    rw [htable', countNull_update_of_notMem 0 (Or.inr le_rfl), h.countNull_below_top hlt, h.holes]
    push_cast
    ring
  have hspec := IndirectReferenceTable.eatHoles_spec table' _ _ _ hlt hk
  rw [hp] at hspec
  rcases hspec with ⟨hb, hT, hcount, hlive, hcleared⟩
  dsimp only at hb hT hcount hlive hcleared
  -- what is left is part of the segment, whose holes fit in sixteen bits
  have hmono := countNull_add table' hb hT
  have hfit : lo.numHoles.toNat + countNull table' lo.topIndex.toNat T' < 2 ^ 16 := by
    have := hi.numHoles.toNat_lt
    omega
  have htop : T'.toUInt16.toNat = T' := by
    have := hi.topIndex.toNat_lt
    rw [toNat_toUInt16]
    omega
  have hnum : (k' + lo.numHoles.toNat).toNat.toUInt16.toNat =
      lo.numHoles.toNat + countNull table' lo.topIndex.toNat T' := by
    rw [hcount, toNat_toUInt16]
    omega
  refine ⟨⟨?_, ?_, ?_⟩, by omega, fun j hj hjT => ?_⟩
  · dsimp only
    rw [htop]
    exact hb
  · dsimp only
    rw [htop, hnum]
  · intro hlt'
    dsimp only at hlt' ⊢
    rw [htop] at hlt' ⊢
    exact hlive hlt'
  · -- the removed entry itself, or one of the holes eaten under it
    by_cases hjt : j = hi.topIndex.toNat - 1
    · rw [htable', hjt, Function.update_self]
    · exact hcleared j hj (by omega)

end SegOk

namespace IndirectReferenceTable

/-- Within a well-kept segment, `Add` fills a hole of the segment below its
    top or the slot on top: never a slot under the cookie, never a live one. -/
theorem add_slot {t t' : IndirectReferenceTable} {cookie : IRTSegmentState} {obj r : UInt32}
    (hseg : SegOk t.table cookie t.segment_state) (h : t.add cookie obj = some (r, t')) :
    ∃ a slot S, t.ensureRoom = some { t with alloc_entries := a } ∧
      r = (t.updateSlotAdd slot).toIndirectRef slot ∧ extractIndex r = slot ∧
      t' = { t.updateSlotAdd slot with
        alloc_entries := a, table := Function.update t.table slot obj, segment_state := S } ∧
      cookie.topIndex.toNat ≤ slot ∧
      ((slot < t.segment_state.topIndex.toNat - 1 ∧ t.table slot = 0 ∧
          cookie.numHoles.toNat < t.segment_state.numHoles.toNat ∧
          S = { t.segment_state with numHoles := t.segment_state.numHoles - 1 }) ∨
        (slot = t.segment_state.topIndex.toNat ∧
          S = { t.segment_state with
            topIndex := (t.segment_state.topIndex.toNat + 1).toUInt16 })) := by
  have htop := t.segment_state.topIndex.toNat_lt
  rcases add_eq_some h with ⟨a, slot, S, hroom, hr, ht', ⟨hpos, hscan, hS⟩ | ⟨-, hslot, hS⟩⟩
  · -- the scan is the one the segment's holes guarantee
    have hlt : cookie.numHoles.toNat < t.segment_state.numHoles.toNat := by omega
    rcases hseg.scanHole_mem hlt with ⟨j, hj, hbj, hjt, hj0⟩
    rw [hscan, Option.some.injEq] at hj
    subst hj
    have hidx : extractIndex r = slot := by
      rw [hr, extractIndex_toIndirectRef _ (by omega)]
    exact ⟨a, slot, S, hroom, hr, hidx, ht', hbj, Or.inl ⟨hjt, hj0, hlt, hS⟩⟩
  · have hidx : extractIndex r = slot := by
      rw [hr, extractIndex_toIndirectRef _ (by omega)]
    exact ⟨a, slot, S, hroom, hr, hidx, ht', hslot ▸ hseg.top_le, Or.inr ⟨hslot, hS⟩⟩

/-- `Remove` at the top of a well-kept segment: the segment stays well kept,
    its top comes down, and every slot it comes down past is a hole. -/
theorem removeTop_spec {t : IndirectReferenceTable} {cookie : IRTSegmentState}
    (h : SegOk t.table cookie t.segment_state)
    (hlt : cookie.topIndex.toNat < t.segment_state.topIndex.toNat) :
    ∃ S, t.removeTop cookie (t.segment_state.topIndex.toNat - 1) =
        { t with
          table := Function.update t.table (t.segment_state.topIndex.toNat - 1) 0,
          segment_state := S } ∧
      SegOk (Function.update t.table (t.segment_state.topIndex.toNat - 1) 0) cookie S ∧
      S.topIndex.toNat < t.segment_state.topIndex.toNat ∧
      ∀ j, S.topIndex.toNat ≤ j → j < t.segment_state.topIndex.toNat →
        Function.update t.table (t.segment_state.topIndex.toNat - 1) 0 j = 0 := by
  have htop := t.segment_state.topIndex.toNat_lt
  unfold removeTop
  dsimp only
  split_ifs with hholes
  · -- holes in the segment: eat them
    rcases hp : eatHoles (Function.update t.table (t.segment_state.topIndex.toNat - 1) 0)
      cookie.topIndex.toNat t.segment_state.topIndex.toNat
      (t.segment_state.numHoles.toNat - cookie.numHoles.toNat) with ⟨T', k'⟩
    rcases h.eat hlt hp with ⟨hseg, hT, hcleared⟩
    refine ⟨_, rfl, hseg, ?_, ?_⟩
    · rw [toNat_toUInt16]
      omega
    · rw [toNat_toUInt16, Nat.mod_eq_of_lt (by omega)]
      exact hcleared
  · -- none: the top comes down by one
    have hdown : (t.segment_state.topIndex.toNat - 1).toUInt16.toNat =
        t.segment_state.topIndex.toNat - 1 := by
      rw [toNat_toUInt16]
      omega
    refine ⟨_, rfl, h.pop (by omega) hlt, ?_, fun j hj hjT => ?_⟩
    · rw [hdown]
      omega
    · rw [hdown] at hj
      rw [show j = t.segment_state.topIndex.toNat - 1 by omega, Function.update_self]

/-- `Add` within a well-kept segment writes only the slot its reference
    names, at or above the cookie's top. -/
theorem add_writes_above {t t' : IndirectReferenceTable} {cookie : IRTSegmentState}
    {obj r : UInt32} (hseg : SegOk t.table cookie t.segment_state)
    (h : t.add cookie obj = some (r, t')) :
    cookie.topIndex.toNat ≤ extractIndex r ∧ ∀ i, i ≠ extractIndex r → t'.table i = t.table i := by
  rcases add_slot hseg h with ⟨a, slot, S, -, -, hidx, rfl, hslot, -⟩
  rw [hidx]
  exact ⟨hslot, fun i hi => Function.update_of_ne hi _ _⟩

end IndirectReferenceTable

/-- The local reference state of a `JNIEnvExt`: the table, the cookie of the
    current segment, and the cookies of the segments below it, the last
    pushed first. -/
structure JniEnv where
  locals : IndirectReferenceTable
  local_ref_cookie : IRTSegmentState
  stacked_local_ref_cookies : List IRTSegmentState

namespace JniEnv

/-- `JNIEnvExt::PushFrame`. -/
def pushFrame (env : JniEnv) : JniEnv :=
  { env with
    stacked_local_ref_cookies := env.local_ref_cookie :: env.stacked_local_ref_cookies,
    local_ref_cookie := env.locals.segment_state }

/-- `JNIEnvExt::PopFrame`; popping the first segment takes the back of an
    empty vector, which fails. -/
def popFrame (env : JniEnv) : Option JniEnv :=
  match env.stacked_local_ref_cookies with
  | [] => none
  | cookie :: rest =>
    some
      { locals := { env.locals with segment_state := env.local_ref_cookie },
        local_ref_cookie := cookie, stacked_local_ref_cookies := rest }

/-- The operations on local references. -/
inductive Op
  | add (obj : UInt32)
  | remove (iref : UInt32)
  | push
  | pop

/-- One operation; an add is of a non-`NULL` object, as `Add` requires. -/
def step (cfg : JniConfig) : Op → JniEnv → Option JniEnv
  | .add obj, env =>
    if obj = 0 then none
    else (env.locals.add env.local_ref_cookie obj).map fun r => { env with locals := r.2 }
  | .remove iref, env =>
    (env.locals.remove cfg env.local_ref_cookie iref).map fun r => { env with locals := r.2 }
  | .push, env => some env.pushFrame
  | .pop, env => env.popFrame

end JniEnv

/-- The local reference table of a thread, built by the constructor and then
    any sequence of operations. -/
def localsSystem (cfg : JniConfig) (initialCount maxCount : Nat) : System JniEnv JniEnv.Op :=
  System.ofFun
    (fun env => IndirectReferenceTable.create initialCount maxCount .kLocal = some env.locals ∧
      env.local_ref_cookie = IRT_FIRST_SEGMENT ∧ env.stacked_local_ref_cookies = [])
    (JniEnv.step cfg)

/-- `kLocalsInitial` of `jni_internal.cc`. -/
def kLocalsInitial : Nat := 64

/-- `kLocalsMax` of `jni_internal.cc`. -/
def kLocalsMax : Nat := 512

/-- The local reference state `JNIEnvExt`'s constructor leaves: the table
    `locals(kLocalsInitial, kLocalsMax, kLocal)` and the first segment's
    cookie. -/
def JniEnv.initial : JniEnv where
  locals :=
    { segment_state := IRT_FIRST_SEGMENT, table := fun _ => 0xd1d1d1d1, kind := .kLocal,
      serial := fun _ => 0, alloc_entries := kLocalsInitial, max_entries := kLocalsMax }
  local_ref_cookie := IRT_FIRST_SEGMENT
  stacked_local_ref_cookies := []

theorem JniEnv.initial_init (cfg : JniConfig) :
    (localsSystem cfg kLocalsInitial kLocalsMax).init JniEnv.initial :=
  ⟨rfl, rfl, rfl⟩

/-! ### The invariant of the local references -/

section Stack

variable {table table' : Nat → UInt32}

/-- The links of the stack under a cookie read only the slots below its top. -/
theorem isChain_segOk_congr {c : IRTSegmentState} {l : List IRTSegmentState}
    (h : List.IsChain (fun hi lo => SegOk table lo hi) (c :: l))
    (heq : ∀ i, i < c.topIndex.toNat → table i = table' i) :
    List.IsChain (fun hi lo => SegOk table' lo hi) (c :: l) := by
  induction l generalizing c with
  | nil => exact List.isChain_singleton c
  | cons d l ih =>
    rw [List.isChain_cons_cons] at h ⊢
    rcases h with ⟨hdc, hrest⟩
    exact ⟨hdc.congr fun i _ hi => heq i hi,
      ih hrest fun i hi => heq i (lt_of_lt_of_le hi hdc.top_le)⟩

/-- Down the whole stack, the links compose to one from the first segment. -/
theorem segOk_first_of_isChain {a : IRTSegmentState} {l : List IRTSegmentState}
    (h : List.IsChain (fun hi lo => SegOk table lo hi) (a :: (l ++ [IRT_FIRST_SEGMENT]))) :
    SegOk table IRT_FIRST_SEGMENT a := by
  induction l generalizing a with
  | nil => exact (List.isChain_cons_cons.mp h).1
  | cons b l ih =>
    rw [List.cons_append, List.isChain_cons_cons] at h
    exact (ih h.2).trans h.1

end Stack

/-- The invariant of a thread's local references: every frame's segment is
    well kept from the cookie saved at its push, down to the first segment,
    the table's sizes stay within its 16-bit indices, and its references are
    local ones. -/
structure LocalsInv (env : JniEnv) : Prop where
  segments : List.IsChain (fun hi lo => SegOk env.locals.table lo hi)
    (env.locals.segment_state :: env.local_ref_cookie ::
      (env.stacked_local_ref_cookies ++ [IRT_FIRST_SEGMENT]))
  top_le_alloc : env.locals.segment_state.topIndex.toNat ≤ env.locals.alloc_entries
  alloc_pos : 0 < env.locals.alloc_entries
  alloc_le_max : env.locals.alloc_entries ≤ env.locals.max_entries
  max_lt : env.locals.max_entries < 2 ^ 16
  kind : env.locals.kind = .kLocal

namespace LocalsInv

variable {cfg : JniConfig} {env env' : JniEnv}

theorem segOk (h : LocalsInv env) :
    SegOk env.locals.table env.local_ref_cookie env.locals.segment_state :=
  (List.isChain_cons_cons.mp h.segments).1

theorem segOk_first (h : LocalsInv env) :
    SegOk env.locals.table IRT_FIRST_SEGMENT env.locals.segment_state :=
  segOk_first_of_isChain (l := env.local_ref_cookie :: env.stacked_local_ref_cookies) h.segments

/-- A new table that differs only at or above the cookie's top, with its
    segment well kept over the cookie, keeps the invariant. -/
theorem of_update (h : LocalsInv env) {t' : IndirectReferenceTable}
    (hseg : SegOk t'.table env.local_ref_cookie t'.segment_state)
    (heq : ∀ i, i < env.local_ref_cookie.topIndex.toNat → t'.table i = env.locals.table i)
    (htop : t'.segment_state.topIndex.toNat ≤ t'.alloc_entries) (hpos : 0 < t'.alloc_entries)
    (hle : t'.alloc_entries ≤ t'.max_entries) (hmax : t'.max_entries = env.locals.max_entries)
    (hkind : t'.kind = env.locals.kind) :
    LocalsInv { env with locals := t' } where
  segments := List.isChain_cons_cons.mpr
    ⟨hseg, isChain_segOk_congr (List.isChain_cons_cons.mp h.segments).2 fun i hi => (heq i hi).symm⟩
  top_le_alloc := htop
  alloc_pos := hpos
  alloc_le_max := hle
  max_lt := hmax ▸ h.max_lt
  kind := hkind.trans h.kind

theorem add (h : LocalsInv env) {obj r : UInt32} {t' : IndirectReferenceTable} (hobj : obj ≠ 0)
    (hadd : env.locals.add env.local_ref_cookie obj = some (r, t')) :
    LocalsInv { env with locals := t' } := by
  rcases IndirectReferenceTable.add_slot h.segOk hadd with
    ⟨a, slot, S, hroom, -, -, rfl, hslot, hcase⟩
  rcases IndirectReferenceTable.ensureRoom_alloc hroom h.top_le_alloc h.alloc_pos h.alloc_le_max
    with ⟨hlt, hle⟩
  -- the write is at or above the cookie's top
  have heq : ∀ i, i < env.local_ref_cookie.topIndex.toNat →
      Function.update env.locals.table slot obj i = env.locals.table i :=
    fun i hi => Function.update_of_ne (by omega) _ _
  rcases hcase with ⟨hs, hs0, -, rfl⟩ | ⟨rfl, rfl⟩
  · exact h.of_update (h.segOk.fill hslot hs hs0 hobj) heq hlt.le (by dsimp only; omega) hle rfl rfl
  · have htop : env.locals.segment_state.topIndex.toNat + 1 < 2 ^ 16 := by
      have := h.max_lt
      omega
    refine h.of_update (h.segOk.push htop hobj) heq ?_ (by dsimp only; omega) hle rfl rfl
    dsimp only
    rw [toNat_toUInt16, Nat.mod_eq_of_lt htop]
    exact hlt

/-- What `Add` does under the invariant: it fills the slot its reference
    names, a hole under the top or the top itself, which then moves up by
    one, and moves that slot's serial on. -/
theorem add_spec (h : LocalsInv env) {obj r : UInt32} {t' : IndirectReferenceTable}
    (hadd : env.locals.add env.local_ref_cookie obj = some (r, t')) :
    t'.table = Function.update env.locals.table (IndirectReferenceTable.extractIndex r) obj ∧
      t'.serial = (env.locals.updateSlotAdd (IndirectReferenceTable.extractIndex r)).serial ∧
      ((IndirectReferenceTable.extractIndex r < env.locals.segment_state.topIndex.toNat ∧
          env.locals.table (IndirectReferenceTable.extractIndex r) = 0 ∧
          t'.segment_state.topIndex.toNat = env.locals.segment_state.topIndex.toNat) ∨
        (IndirectReferenceTable.extractIndex r = env.locals.segment_state.topIndex.toNat ∧
          t'.segment_state.topIndex.toNat = env.locals.segment_state.topIndex.toNat + 1)) := by
  rcases IndirectReferenceTable.add_slot h.segOk hadd with
    ⟨a, slot, S, hroom, -, hidx, rfl, -, hcase⟩
  rcases IndirectReferenceTable.ensureRoom_alloc hroom h.top_le_alloc h.alloc_pos h.alloc_le_max
    with ⟨hlt, hle⟩
  rw [hidx]
  refine ⟨rfl, rfl, ?_⟩
  rcases hcase with ⟨hs, hs0, -, rfl⟩ | ⟨rfl, rfl⟩
  · exact Or.inl ⟨by omega, hs0, rfl⟩
  · -- the top stays below the maximum, so it does not wrap
    have := h.max_lt
    refine Or.inr ⟨rfl, ?_⟩
    dsimp only
    rw [toNat_toUInt16]
    omega

theorem remove (h : LocalsInv env) {iref : UInt32} {b : Bool} {t' : IndirectReferenceTable}
    (hrem : env.locals.remove cfg env.local_ref_cookie iref = some (b, t')) :
    LocalsInv { env with locals := t' } := by
  rcases IndirectReferenceTable.remove_eq_some hrem with
    ⟨rfl, -⟩ | ⟨idx, -, hidx, hidxt, -, -, ⟨rfl, rfl⟩ | ⟨hlt, hne, rfl⟩⟩
  · exact h
  · -- the top-most entry
    rcases IndirectReferenceTable.removeTop_spec h.segOk (by omega) with ⟨S, hS, hseg, hSt, -⟩
    rw [hS]
    refine h.of_update hseg (fun i hi => Function.update_of_ne (by omega) _ _) ?_ h.alloc_pos
      h.alloc_le_max rfl rfl
    have := h.top_le_alloc
    dsimp only
    omega
  · -- an entry below the top: the table's holes are fewer than its top
    have hfit : env.locals.segment_state.numHoles.toNat + 1 < 2 ^ 16 := by
      have hfirst := h.segOk_first.holes
      have hlive := countNull_lt_of_ne (Nat.zero_le idx) hidxt hne
      have := h.top_le_alloc
      have := h.alloc_le_max
      have := h.max_lt
      simp only [IRT_FIRST_SEGMENT, UInt16.reduceToNat, Nat.zero_add] at hfirst
      omega
    exact h.of_update (h.segOk.clear hidx hlt hne hfit)
      (fun i hi => Function.update_of_ne (by omega) _ _) h.top_le_alloc h.alloc_pos h.alloc_le_max
      rfl rfl

theorem pushFrame (h : LocalsInv env) : LocalsInv env.pushFrame where
  segments := List.isChain_cons_cons.mpr ⟨SegOk.refl _ _, h.segments⟩
  top_le_alloc := h.top_le_alloc
  alloc_pos := h.alloc_pos
  alloc_le_max := h.alloc_le_max
  max_lt := h.max_lt
  kind := h.kind

theorem popFrame (h : LocalsInv env) (hpop : env.popFrame = some env') : LocalsInv env' := by
  unfold JniEnv.popFrame at hpop
  split at hpop
  · cases hpop
  · rename_i cookie rest hstack
    cases hpop
    have hsegs := h.segments
    rw [hstack, List.isChain_cons_cons] at hsegs
    exact { segments := hsegs.2
            top_le_alloc := h.segOk.top_le.trans h.top_le_alloc
            alloc_pos := h.alloc_pos
            alloc_le_max := h.alloc_le_max
            max_lt := h.max_lt
            kind := h.kind }

/-- Every operation keeps the invariant. -/
theorem step (h : LocalsInv env) {op : JniEnv.Op} (hstep : JniEnv.step cfg op env = some env') :
    LocalsInv env' := by
  cases op with
  | add obj =>
    simp only [JniEnv.step] at hstep
    split_ifs at hstep with hobj
    rcases Option.map_eq_some_iff.mp hstep with ⟨⟨r, t'⟩, hadd, rfl⟩
    exact h.add hobj hadd
  | remove iref =>
    rcases Option.map_eq_some_iff.mp hstep with ⟨⟨b, t'⟩, hrem, rfl⟩
    exact h.remove hrem
  | push =>
    cases hstep
    exact h.pushFrame
  | pop => exact h.popFrame hstep

/-- A table built with at most `2 ^ 16` entries starts with the invariant. -/
theorem init {initialCount maxCount : Nat} (hmax : maxCount < 2 ^ 16)
    (h0 : (localsSystem cfg initialCount maxCount).init env) : LocalsInv env := by
  rcases h0 with ⟨hcreate, hcookie, hstack⟩
  rcases IndirectReferenceTable.create_eq_some hcreate with
    ⟨hseg, halloc, hmaxe, hpos, hle, hkind⟩
  refine ⟨?_, ?_, ?_, ?_, ?_, hkind⟩
  · rw [hseg, hcookie, hstack]
    exact List.isChain_cons_cons.mpr ⟨SegOk.refl _ _, List.isChain_pair.mpr (SegOk.refl _ _)⟩
  · rw [hseg]
    exact Nat.zero_le _
  · omega
  · omega
  · omega

theorem isInductive {initialCount maxCount : Nat} (hmax : maxCount < 2 ^ 16) :
    (localsSystem cfg initialCount maxCount).Inductive LocalsInv :=
  ⟨fun _ h0 => init hmax h0, fun _ _ _ h hstep => h.step hstep⟩

end LocalsInv

/-- In every state a thread's local references reach, from a table built
    with at most `2 ^ 16` entries: the current segment's holes are the `NULL`
    slots above the cookie, all the holes are the `NULL` slots below the top,
    the top entry of a non-empty segment is live, the top is within the
    allocation and the allocation within the maximum; `Add` writes only the
    slot its reference names, never under the cookie; and with holes in the
    segment, `Add`'s scan finds one inside it. -/
theorem segment_invariant_of_reach (cfg : JniConfig) (initialCount maxCount : Nat)
    (hmax : maxCount < 2 ^ 16) (env : JniEnv)
    (hreach : (localsSystem cfg initialCount maxCount).Reach env) :
    ((env.locals.segment_state.numHoles.toNat : Int) - env.local_ref_cookie.numHoles.toNat =
        countNull env.locals.table env.local_ref_cookie.topIndex.toNat
          env.locals.segment_state.topIndex.toNat) ∧
      env.locals.segment_state.numHoles.toNat =
        countNull env.locals.table 0 env.locals.segment_state.topIndex.toNat ∧
      (env.local_ref_cookie.topIndex.toNat < env.locals.segment_state.topIndex.toNat →
        env.locals.table (env.locals.segment_state.topIndex.toNat - 1) ≠ 0) ∧
      env.locals.segment_state.topIndex.toNat ≤ env.locals.alloc_entries ∧
      env.locals.alloc_entries ≤ env.locals.max_entries ∧
      (∀ obj r t', env.locals.add env.local_ref_cookie obj = some (r, t') →
        env.local_ref_cookie.topIndex.toNat ≤ IndirectReferenceTable.extractIndex r ∧
          ∀ i, i ≠ IndirectReferenceTable.extractIndex r → t'.table i = env.locals.table i) ∧
      (env.local_ref_cookie.numHoles.toNat < env.locals.segment_state.numHoles.toNat →
        ∃ j, IndirectReferenceTable.scanHole env.locals.table
            (env.locals.segment_state.topIndex.toNat - 1) = some j ∧
          env.local_ref_cookie.topIndex.toNat ≤ j) := by
  have h := (LocalsInv.isInductive hmax).reach hreach
  have hseg := h.segOk
  refine ⟨?_, ?_, hseg.top_live, h.top_le_alloc, h.alloc_le_max, ?_, ?_⟩
  · rw [hseg.holes]
    push_cast
    ring
  · -- the first segment starts at slot 0 with no holes
    have hfirst := h.segOk_first.holes
    simp only [IRT_FIRST_SEGMENT, UInt16.reduceToNat, Nat.zero_add] at hfirst
    exact hfirst
  · intro obj r t' hadd
    exact IndirectReferenceTable.add_writes_above hseg hadd
  · intro hlt
    rcases hseg.scanHole_mem hlt with ⟨j, hj, hbj, -, -⟩
    exact ⟨j, hj, hbj⟩

/-- A thread's local references after adds in two frames, the removal of the
    reference in slot 2, which leaves a hole, and a frame pushed, added to
    and popped again. -/
def holeAndPopCalls : List JniEnv.Op :=
  [.add 1, .push, .add 2, .add 3, .add 4, .remove 0x100009, .push, .add 5, .pop]

/-- The local references `holeAndPopCalls` leaves: a top of 4 over the
    cookie's 1, and one hole, in slot 2. -/
def holeAndPopEnv : JniEnv :=
  (System.runFun (JniEnv.step JniConfig.checked) JniEnv.initial holeAndPopCalls).getD JniEnv.initial

theorem segment_invariant_of_reach_holeAndPop :
    kLocalsMax < 2 ^ 16 ∧
      (localsSystem JniConfig.checked kLocalsInitial kLocalsMax).Reach holeAndPopEnv ∧
      holeAndPopEnv.locals.segment_state.topIndex.toNat = 4 ∧ holeAndPopEnv.local_ref_cookie.topIndex.toNat = 1 ∧
      holeAndPopEnv.locals.segment_state.numHoles.toNat = 1 ∧
      (((holeAndPopEnv.locals.segment_state.numHoles.toNat : Int) -
          holeAndPopEnv.local_ref_cookie.numHoles.toNat =
        countNull holeAndPopEnv.locals.table holeAndPopEnv.local_ref_cookie.topIndex.toNat
          holeAndPopEnv.locals.segment_state.topIndex.toNat) ∧
      holeAndPopEnv.locals.segment_state.numHoles.toNat =
        countNull holeAndPopEnv.locals.table 0 holeAndPopEnv.locals.segment_state.topIndex.toNat ∧
      (holeAndPopEnv.local_ref_cookie.topIndex.toNat < holeAndPopEnv.locals.segment_state.topIndex.toNat →
        holeAndPopEnv.locals.table (holeAndPopEnv.locals.segment_state.topIndex.toNat - 1) ≠ 0) ∧
      holeAndPopEnv.locals.segment_state.topIndex.toNat ≤ holeAndPopEnv.locals.alloc_entries ∧
      holeAndPopEnv.locals.alloc_entries ≤ holeAndPopEnv.locals.max_entries ∧
      (∀ obj r t', holeAndPopEnv.locals.add holeAndPopEnv.local_ref_cookie obj = some (r, t') →
        holeAndPopEnv.local_ref_cookie.topIndex.toNat ≤ IndirectReferenceTable.extractIndex r ∧
          ∀ i, i ≠ IndirectReferenceTable.extractIndex r → t'.table i = holeAndPopEnv.locals.table i) ∧
      (holeAndPopEnv.local_ref_cookie.numHoles.toNat < holeAndPopEnv.locals.segment_state.numHoles.toNat →
        ∃ j, IndirectReferenceTable.scanHole holeAndPopEnv.locals.table
            (holeAndPopEnv.locals.segment_state.topIndex.toNat - 1) = some j ∧
          holeAndPopEnv.local_ref_cookie.topIndex.toNat ≤ j)) := by
  have hrun : System.runFun (JniEnv.step JniConfig.checked) JniEnv.initial holeAndPopCalls = some holeAndPopEnv := rfl
  have hreach : (localsSystem JniConfig.checked kLocalsInitial kLocalsMax).Reach holeAndPopEnv :=
    (System.Run.of_runFun hrun).reach (.init (JniEnv.initial_init _))
  exact ⟨by decide, hreach, rfl, rfl, rfl,
    segment_invariant_of_reach JniConfig.checked _ _ (by decide) _ hreach⟩

/-! ### Tables past the 16-bit indices -/

namespace IndirectReferenceTable

/-- With `2 ^ 16` entries or more allocated, the 16-bit top never reaches the
    allocated size, and without holes in the segment `Add` appends at the top,
    which wraps. -/
theorem add_of_wide {t : IndirectReferenceTable} {cookie : IRTSegmentState} (obj : UInt32)
    (hwide : 2 ^ 16 ≤ t.alloc_entries) (hholes : t.segment_state.numHoles = cookie.numHoles) :
    t.add cookie obj =
      some ((t.updateSlotAdd t.segment_state.topIndex.toNat).toIndirectRef
          t.segment_state.topIndex.toNat,
        { t.updateSlotAdd t.segment_state.topIndex.toNat with
          table := Function.update t.table t.segment_state.topIndex.toNat obj,
          segment_state := { t.segment_state with
            topIndex := (t.segment_state.topIndex.toNat + 1).toUInt16 } }) := by
  have hroom : t.ensureRoom = some t := by
    have := t.segment_state.topIndex.toNat_lt
    unfold ensureRoom
    rw [if_neg (by omega)]
  have hnone : ¬(0 < (t.segment_state.numHoles.toNat : Int) - cookie.numHoles.toNat) := by
    rw [hholes, sub_self]
    exact lt_irrefl 0
  simp only [add, hroom, Option.bind_eq_bind, Option.bind_some]
  rw [if_neg hnone]
  rfl

end IndirectReferenceTable

/-- Adds on top of a wide table without holes in the current segment: any
    number of them are reachable, and the top wraps modulo `2 ^ 16`. -/
theorem reach_adds_of_wide {cfg : JniConfig} {initialCount maxCount : Nat} {env : JniEnv}
    (hreach : (localsSystem cfg initialCount maxCount).Reach env)
    (hwide : 2 ^ 16 ≤ env.locals.alloc_entries)
    (hholes : env.locals.segment_state.numHoles = env.local_ref_cookie.numHoles) (n : Nat) :
    ∃ env', (localsSystem cfg initialCount maxCount).Reach env' ∧
      env'.local_ref_cookie = env.local_ref_cookie ∧
      env'.locals.alloc_entries = env.locals.alloc_entries ∧
      env'.locals.segment_state.numHoles = env.locals.segment_state.numHoles ∧
      env'.locals.segment_state.topIndex.toNat =
        (env.locals.segment_state.topIndex.toNat + n) % 2 ^ 16 := by
  induction n with
  | zero =>
    exact ⟨env, hreach, rfl, rfl, rfl, (Nat.mod_eq_of_lt (UInt16.toNat_lt _)).symm⟩
  | succ n ih =>
    rcases ih with ⟨env', hreach', hcookie, halloc, hnum, htop⟩
    -- one more add of a non-null object, on top
    have hadd := @IndirectReferenceTable.add_of_wide env'.locals env'.local_ref_cookie 1
      (halloc ▸ hwide) (by rw [hnum, hcookie, hholes])
    have hstep : JniEnv.step cfg (.add 1) env' =
        (env'.locals.add env'.local_ref_cookie 1).map fun r => { env' with locals := r.2 } := by
      simp [JniEnv.step]
    rw [hadd, Option.map_some] at hstep
    refine ⟨_, hreach'.step hstep, hcookie, halloc, hnum, ?_⟩
    dsimp only
    rw [toNat_toUInt16, htop]
    omega

/-- A table built with `2 ^ 16` entries: one add, a frame pushed over it, and
    `2 ^ 16 - 1` adds more wrap the top to slot 0, under the cookie, where the
    next `Add` writes. -/
theorem add_below_cookie_of_wide :
    ∃ env, (localsSystem JniConfig.checked 65536 65536).Reach env ∧
      ∃ r t', env.locals.add env.local_ref_cookie 1 = some (r, t') ∧
        IndirectReferenceTable.extractIndex r < env.local_ref_cookie.topIndex.toNat := by
  let env₀ : JniEnv :=
    { locals :=
        { segment_state := IRT_FIRST_SEGMENT, table := fun _ => 0xd1d1d1d1, kind := .kLocal,
          serial := fun _ => 0, alloc_entries := 65536, max_entries := 65536 },
      local_ref_cookie := IRT_FIRST_SEGMENT, stacked_local_ref_cookies := [] }
  have h₀ : (localsSystem JniConfig.checked 65536 65536).Reach env₀ := .init ⟨rfl, rfl, rfl⟩
  -- one entry, then a frame over it
  rcases reach_adds_of_wide h₀ (by decide) rfl 1 with ⟨env₁, h₁, hc₁, ha₁, hn₁, ht₁⟩
  simp only [env₀, IRT_FIRST_SEGMENT, UInt16.reduceToNat] at hc₁ ha₁ hn₁ ht₁
  have h₂ := h₁.step (l := .push) rfl
  rcases reach_adds_of_wide h₂ (by rw [JniEnv.pushFrame]; dsimp only; omega)
    (by rw [JniEnv.pushFrame]) 65535 with ⟨env₃, h₃, hc₃, ha₃, hn₃, ht₃⟩
  dsimp only [JniEnv.pushFrame] at hc₃ ha₃ hn₃ ht₃
  refine ⟨env₃, h₃, _, _, IndirectReferenceTable.add_of_wide 1 (by omega)
    (by rw [hn₃, hc₃]), ?_⟩
  -- the top wrapped from slot 1 round to slot 0
  rw [IndirectReferenceTable.extractIndex_toIndirectRef _ (UInt16.toNat_lt _), ht₃, hc₃]
  omega

end ArtRuntime
